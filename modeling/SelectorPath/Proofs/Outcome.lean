import Mathlib.Data.List.Forall2
import SelectorPath.Outcome

/-! When an outcome is a success: a sequence succeeds exactly if all of its parts do. Whether it
does is a matter of the results alone, so the result of a sequence is the sequence of the results,
and a list fails with the error of the first of its parts that does. That part is also the last one
whose warnings are given. -/

namespace SelectorPath

variable {α β γ : Type}

/-! ### Members of paired lists -/

theorem exists_left_of_forall₂ {R : α → β → Prop} {xs : List α} {ys : List β}
    (h : List.Forall₂ R xs ys) {y : β} (hy : y ∈ ys) : ∃ x ∈ xs, R x y := by
  induction h with
  | nil => cases hy
  | cons hR _ ih =>
    rcases List.mem_cons.1 hy with rfl | hy
    · exact ⟨_, List.mem_cons_self, hR⟩
    · obtain ⟨x, hx, hxy⟩ := ih hy
      exact ⟨x, List.mem_cons_of_mem _ hx, hxy⟩

theorem exists_right_of_forall₂ {R : α → β → Prop} {xs : List α} {ys : List β}
    (h : List.Forall₂ R xs ys) {x : α} (hx : x ∈ xs) : ∃ y ∈ ys, R x y :=
  exists_left_of_forall₂ (List.Forall₂.flip h) hx

/-- A relation to at most one thing relates a list to at most one list. -/
theorem eq_of_forall₂ {R S : α → β → Prop} {xs : List α} {ys zs : List β}
    (hys : List.Forall₂ R xs ys) (hzs : List.Forall₂ S xs zs)
    (each : ∀ x ∈ xs, ∀ y z, R x y → S x z → y = z) : ys = zs := by
  induction hys generalizing zs with
  | nil => cases hzs; rfl
  | cons hy _ ih =>
    cases hzs with
    | cons hz hzs =>
      rw [each _ List.mem_cons_self _ _ hy hz,
        ih hzs fun x hx => each x (List.mem_cons_of_mem _ hx)]

theorem forall₂_imp_of_mem {R S : α → β → Prop} {xs : List α} {ys : List β}
    (h : List.Forall₂ R xs ys) (each : ∀ x ∈ xs, ∀ y, R x y → S x y) : List.Forall₂ S xs ys := by
  have hmem : List.Forall₂ (fun x y => x ∈ xs ∧ R x y) xs ys :=
    (List.forall₂_and_left xs ys).2 ⟨fun _ hx => hx, h⟩
  exact hmem.imp fun x y hxy => each x hxy.1 y hxy.2

theorem forall₂_comp {R : α → β → Prop} {S : β → γ → Prop} {xs : List α} {ys : List β}
    {zs : List γ} (h : List.Forall₂ R xs ys) (h' : List.Forall₂ S ys zs) :
    List.Forall₂ (fun x z => ∃ y, R x y ∧ S y z) xs zs := by
  induction h generalizing zs with
  | nil => cases h'; exact .nil
  | cons hxy _ ih =>
    cases h' with
    | cons hyz h' => exact .cons ⟨_, hxy, hyz⟩ (ih h')

theorem exists_forall₂ {R : α → β → Prop} {xs : List α} (h : ∀ x ∈ xs, ∃ y, R x y) :
    ∃ ys, List.Forall₂ R xs ys := by
  induction xs with
  | nil => exact ⟨[], .nil⟩
  | cons x xs ih =>
    obtain ⟨⟨y, hy⟩, hxs⟩ := List.forall_mem_cons.1 h
    obtain ⟨ys, hys⟩ := ih hxs
    exact ⟨y :: ys, .cons hy hys⟩

/-! ### Success -/

namespace Outcome

@[simp] theorem result_pure (a : α) : (Pure.pure a : Outcome α).result = .ok a := rfl

theorem result_bind_of_ok {x : Outcome α} {a : α} (h : x.result = .ok a) (f : α → Outcome β) :
    (x >>= f).result = (f a).result := by
  simp [Bind.bind, bind, h]

theorem result_bind_eq_ok {x : Outcome α} {f : α → Outcome β} {b : β} :
    (x >>= f).result = .ok b ↔ ∃ a, x.result = .ok a ∧ (f a).result = .ok b := by
  cases h : x.result with
  | error error => simp [Bind.bind, bind, h]
  | ok a => rw [result_bind_of_ok h]; simp

theorem result_map_eq_ok {x : Outcome α} {f : α → β} {b : β} :
    (f <$> x).result = .ok b ↔ ∃ a, x.result = .ok a ∧ f a = b := by
  rw [map_eq_pure_bind, result_bind_eq_ok]
  simp

theorem result_mapM_eq_ok {f : α → Outcome β} {xs : List α} {ys : List β} :
    (xs.mapM f).result = .ok ys ↔ List.Forall₂ (fun x y => (f x).result = .ok y) xs ys := by
  induction xs generalizing ys with
  | nil =>
    rw [List.mapM_nil, result_pure, List.forall₂_nil_left_iff]
    constructor
    · intro h
      cases h
      rfl
    · rintro rfl
      rfl
  | cons x xs ih =>
    rw [List.mapM_cons, result_bind_eq_ok]
    simp only [result_bind_eq_ok, result_pure, List.forall₂_cons_left_iff, ih]
    constructor
    · rintro ⟨y, hy, ys', hys, h⟩
      cases h
      exact ⟨y, ys', hy, hys, rfl⟩
    · rintro ⟨y, ys', hy, hys, rfl⟩
      exact ⟨y, hy, ys', hys, rfl⟩

/-! ### Results in sequence -/

theorem bind_of_error {x : Outcome α} {error : SelectorError} (h : x.result = .error error)
    (f : α → Outcome β) : x >>= f = ⟨x.oddities, .error error⟩ := by
  simp only [Bind.bind, bind, h]

theorem bind_congr {x : Outcome α} {f g : α → Outcome β}
    (h : ∀ a, x.result = .ok a → f a = g a) : x >>= f = x >>= g := by
  cases hx : x.result with
  | error error => rw [bind_of_error hx, bind_of_error hx]
  | ok a => simp only [Bind.bind, bind, hx, h a hx]

theorem result_bind (x : Outcome α) (f : α → Outcome β) :
    (x >>= f).result = x.result >>= fun a => (f a).result := by
  cases h : x.result with
  | error error =>
    simp [Bind.bind, bind, h]
    rfl
  | ok a =>
    rw [result_bind_of_ok h]
    rfl

theorem result_map (f : α → β) (x : Outcome α) : (f <$> x).result = f <$> x.result := by
  rw [map_eq_pure_bind, result_bind, map_eq_pure_bind]
  rfl

theorem result_mapM (f : α → Outcome β) (xs : List α) :
    (xs.mapM f).result = xs.mapM fun x => (f x).result := by
  induction xs with
  | nil => rfl
  | cons x xs ih =>
    rw [List.mapM_cons, List.mapM_cons, result_bind]
    simp only [result_bind, ih, result_pure]
    rfl

theorem result_bind_eq_error {x : Outcome α} {f : α → Outcome β} {error : SelectorError} :
    (x >>= f).result = .error error ↔
      x.result = .error error ∨ ∃ a, x.result = .ok a ∧ (f a).result = .error error := by
  cases h : x.result with
  | error e => simp [Bind.bind, bind, h]
  | ok a => rw [result_bind_of_ok h]; simp

/-- A list fails with the error of the first part that fails. -/
theorem result_mapM_eq_error {f : α → Outcome β} {xs : List α} {error : SelectorError} :
    (xs.mapM f).result = .error error ↔
      ∃ before x after, xs = before ++ x :: after ∧
        (∀ y ∈ before, ∃ b, (f y).result = .ok b) ∧ (f x).result = .error error := by
  induction xs with
  | nil => simp
  | cons x xs ih =>
    rw [List.mapM_cons, result_bind_eq_error]
    simp only [result_bind_eq_error, result_pure, reduceCtorEq, and_false, exists_false, or_false]
    constructor
    · rintro (hx | ⟨b, hb, htail⟩)
      · exact ⟨[], x, xs, rfl, by simp, hx⟩
      · obtain ⟨before, y, after, rfl, hbefore, hy⟩ := ih.1 htail
        exact ⟨x :: before, y, after, rfl, List.forall_mem_cons.2 ⟨⟨b, hb⟩, hbefore⟩, hy⟩
    · rintro ⟨before, y, after, hxs, hbefore, hy⟩
      cases before with
      | nil =>
        obtain ⟨rfl, rfl⟩ := List.cons.inj hxs
        exact .inl hy
      | cons z before =>
        obtain ⟨rfl, rfl⟩ := List.cons.inj hxs
        obtain ⟨⟨b, hb⟩, hbefore⟩ := List.forall_mem_cons.1 hbefore
        exact .inr ⟨b, hb, ih.2 ⟨before, y, after, rfl, hbefore, hy⟩⟩

/-! ### Warnings in sequence -/

theorem warnings_bind_of_ok {x : Outcome α} {a : α} (h : x.result = .ok a) (f : α → Outcome β) :
    (x >>= f).warnings = x.warnings ++ (f a).warnings := by
  simp [Bind.bind, bind, h, warnings]

theorem warnings_bind_of_error {x : Outcome α} {error : SelectorError} (h : x.result = .error error)
    (f : α → Outcome β) : (x >>= f).warnings = x.warnings := by
  rw [bind_of_error h]
  rfl

theorem oddities_map (f : α → β) (x : Outcome α) : (f <$> x).oddities = x.oddities := by
  cases h : x.result with
  | error error => simp [Functor.map, bind, h]
  | ok a => simp [Functor.map, bind, h, pure]

theorem warnings_map (f : α → β) (x : Outcome α) : (f <$> x).warnings = x.warnings := by
  rw [warnings, oddities_map, warnings]

theorem warnings_mapM_of_ok {f : α → Outcome β} {xs : List α}
    (each : ∀ x ∈ xs, ∃ b, (f x).result = .ok b) :
    (xs.mapM f).warnings = xs.flatMap fun x => (f x).warnings := by
  induction xs with
  | nil => rfl
  | cons x xs ih =>
    obtain ⟨⟨b, hb⟩, hxs⟩ := List.forall_mem_cons.1 each
    rw [List.mapM_cons, warnings_bind_of_ok hb, ← map_eq_pure_bind, warnings_map, ih hxs]
    rfl

/-- A list gives the warnings of its parts up to the first that fails. -/
theorem warnings_mapM_of_error {f : α → Outcome β} {before : List α} {x : α}
    {error : SelectorError} (hbefore : ∀ y ∈ before, ∃ b, (f y).result = .ok b)
    (hx : (f x).result = .error error) (after : List α) :
    ((before ++ x :: after).mapM f).warnings =
      (before ++ [x]).flatMap fun y => (f y).warnings := by
  induction before with
  | nil =>
    rw [List.nil_append, List.mapM_cons, warnings_bind_of_error hx]
    simp
  | cons y before ih =>
    obtain ⟨⟨b, hb⟩, hbefore⟩ := List.forall_mem_cons.1 hbefore
    rw [List.cons_append, List.mapM_cons, warnings_bind_of_ok hb, ← map_eq_pure_bind, warnings_map,
      ih hbefore]
    rfl

end Outcome

end SelectorPath
