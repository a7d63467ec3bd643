import SelectorPath.Proofs.Query

/-! Ways of working compared. A query takes nothing but the steps of `Work`, one after the other.
So a relation between work and outcomes that holds of each of these steps, and of a sequence if it
holds of its parts, holds of the whole query. -/

namespace SelectorPath

open XPath

/-- One of the compounds of a text negates an argument. -/
def SelectorList.Negates (text argument : String) : Prop :=
  ∃ selectors, (parse text).result = .ok selectors ∧ ∃ selector ∈ selectors,
    ∃ compound ∈ selector, ⟨"not", some argument⟩ ∈ compound.pseudos

/-- A relation that holds of the steps of work, and of sequences of related work. -/
structure Work.Simulation {m : Type → Type} [Monad m] [Work m]
    (R : ∀ α : Type, m α → Outcome α → Prop) : Prop where
  pure : ∀ {α : Type} (a : α), R α (Pure.pure a) (Pure.pure a)
  bind : ∀ {α β : Type} {x : m α} {y : Outcome α} {f : α → m β} {g : α → Outcome β}, R α x y →
    (∀ a, y.result = .ok a → R β (f a) (g a)) → R β (x >>= f) (y >>= g)
  ofExcept : ∀ {α : Type} (result : Except SelectorError α),
    R α (Work.ofExcept result) (Work.ofExcept result)
  note : ∀ oddity : Oddity, R Unit (Work.note oddity) (Work.note oddity)
  selector : ∀ cs : List Char, R Selector (Work.selector cs) (Work.selector cs)

namespace Work.Simulation

variable {m : Type → Type} [Monad m] [Work m]
  {R : ∀ α : Type, m α → Outcome α → Prop} (h : Simulation R)
include h

theorem fail {α : Type} (error : SelectorError) : R α (Work.fail error) (Work.fail error) :=
  h.ofExcept (.error error)

theorem memberIn (inList : Bool) (cs : List Char) :
    R Selector (SelectorList.memberIn m inList cs) (SelectorList.readMember inList cs) := by
  unfold SelectorList.readMember SelectorList.memberIn
  split
  · exact h.bind (h.note _) fun _ _ => h.selector cs
  · exact h.selector cs

variable {negate : String → m Expr} {negate' : String → Outcome Expr}

theorem pseudo_exprWith {pseudo : Pseudo}
    (each : ∀ argument, pseudo = ⟨"not", some argument⟩ →
      R Expr (negate argument) (negate' argument)) :
    R Expr (pseudo.exprWith negate) (pseudo.exprWith negate') := by
  refine h.bind (h.ofExcept _) fun known hknown => ?_
  cases known with
  | firstChild | lastChild => exact h.pure _
  | nthChild =>
    refine h.bind (h.ofExcept _) fun argument _ => ?_
    exact h.bind (h.ofExcept _) fun formula _ => h.pure formula.expr
  | negation =>
    refine h.bind (h.ofExcept _) fun argument hargument => each argument ?_
    obtain ⟨name, given⟩ := pseudo
    obtain rfl := Pseudo.class?_eq_ok_iff.1 hknown
    obtain rfl := Pseudo.argumentOf_eq_ok_iff.1 hargument
    rfl

/-! ### Lists of parts -/

variable [LawfulMonad m]

theorem map {α β : Type} {x : m α} {y : Outcome α} (hxy : R α x y) (f : α → β) :
    R β (f <$> x) (f <$> y) := by
  rw [map_eq_pure_bind, map_eq_pure_bind]
  exact h.bind hxy fun a _ => h.pure (f a)

theorem mapM {α β : Type} {xs : List α} {f : α → m β} {g : α → Outcome β}
    (each : ∀ x ∈ xs, R β (f x) (g x)) : R (List β) (xs.mapM f) (xs.mapM g) := by
  induction xs with
  | nil => exact h.pure []
  | cons x xs ih =>
    obtain ⟨hx, hxs⟩ := List.forall_mem_cons.1 each
    rw [List.mapM_cons, List.mapM_cons]
    refine h.bind hx fun b _ => ?_
    exact h.bind (ih hxs) fun bs _ => h.pure (b :: bs)

theorem readIn (cs : List Char) :
    R SelectorList (SelectorList.readIn m cs) (SelectorList.read cs) :=
  h.mapM fun member _ => h.memberIn _ member

theorem testsWith {compound : Compound}
    (each : ∀ argument, ⟨"not", some argument⟩ ∈ compound.pseudos →
      R Expr (negate argument) (negate' argument)) :
    R (List Expr) (compound.testsWith negate) (compound.testsWith negate') := by
  refine h.bind (h.mapM fun pseudo hpseudo => ?_) fun tests _ => h.pure _
  refine h.pseudo_exprWith ?_
  rintro argument rfl
  exact each argument hpseudo

theorem alternative {argument : String} {selector : Selector}
    (each : ∀ compound ∈ selector, ∀ inner, ⟨"not", some inner⟩ ∈ compound.pseudos →
      R Expr (negate inner) (negate' inner)) :
    R Expr (Negation.alternative negate argument selector)
      (Negation.alternative negate' argument selector) := by
  unfold Negation.alternative
  split
  · split
    · exact h.fail _
    · refine h.bind (h.testsWith (each _ List.mem_cons_self)) fun tests _ => ?_
      cases Expr.joined? .and tests with
      | none => exact h.fail _
      | some e => exact h.pure e
  · exact h.fail _

theorem negation_exprWith {argument : String}
    (each : ∀ inner, SelectorList.Negates argument inner → R Expr (negate inner) (negate' inner)) :
    R Expr (Negation.exprWith negate argument) (Negation.exprWith negate' argument) := by
  refine h.bind (h.readIn _) fun selectors parsed => ?_
  have hselectors : ∀ selector ∈ selectors, R Expr
      (Negation.alternative negate argument selector)
      (Negation.alternative negate' argument selector) := by
    refine fun selector hselector => h.alternative fun compound hcompound inner hinner => ?_
    exact each inner ⟨selectors, parsed, selector, hselector, compound, hcompound, hinner⟩
  refine h.bind (h.mapM hselectors) fun alternatives _ => ?_
  cases Expr.joined? .or alternatives with
  | none => exact h.fail _
  | some any => exact h.pure _

theorem negation_exprIn (levels : Nat) (argument : String) :
    R Expr (Negation.exprIn m levels argument) (Negation.expr levels argument) := by
  induction levels generalizing argument with
  | zero => exact h.fail _
  | succ levels ih => exact h.negation_exprWith fun inner _ => ih inner

theorem pathWith {selector : Selector}
    (each : ∀ compound ∈ selector, ∀ inner, ⟨"not", some inner⟩ ∈ compound.pseudos →
      R Expr (negate inner) (negate' inner)) :
    R Path (selector.pathWith negate) (selector.pathWith negate') := by
  refine h.bind (h.mapM fun compound hcompound => ?_) fun steps _ => h.pure _
  exact h.bind (h.testsWith (each compound hcompound)) fun tests _ => h.pure _

theorem queryWith {text : String}
    (each : ∀ inner, SelectorList.Negates text inner → R Expr (negate inner) (negate' inner)) :
    R Union (queryWith negate text) (queryWith negate' text) := by
  refine h.bind (h.readIn _) fun selectors parsed => h.mapM fun selector hselector => ?_
  refine h.pathWith fun compound hcompound inner hinner => each inner ?_
  exact ⟨selectors, parsed, selector, hselector, compound, hcompound, hinner⟩

end Work.Simulation

end SelectorPath
