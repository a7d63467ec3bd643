import SelectorPath.Proofs.Selector

/-! Lists put together from lists. A comma after a text that closes all of its brackets and quotes
is an outer one, so the members of the whole are those of both parts, and the whole can be read
exactly if both parts can. From this it follows how a text is cut: its members are the only texts
without an outer comma that close what they open, but for the last, and make up the text. -/

namespace SelectorPath

/-- Every bracket and every quote that a text opens is closed at its end. -/
def Nesting.Closed (cs : List Char) : Prop :=
  Nesting.top.after cs = .top

instance (cs : List Char) : Decidable (Nesting.Closed cs) :=
  inferInstanceAs (Decidable (Nesting.top.after cs = .top))

theorem Nesting.step_comma : Nesting.top.step ',' = .top := by
  decide

/-- A text has no outer comma, or there is a first one. -/
theorem Nesting.undivided_or_comma (nesting : Nesting) (cs : List Char) :
    nesting.Undivided cs ∨ ∃ first rest, cs = first ++ ',' :: rest ∧
      nesting.Undivided first ∧ nesting.after first = .top := by
  induction cs generalizing nesting with
  | nil => exact .inl nesting.undivided_nil
  | cons c cs ih =>
    by_cases hc : c = ',' ∧ nesting = .top
    · obtain ⟨rfl, rfl⟩ := hc
      exact .inr ⟨[], cs, rfl, Nesting.top.undivided_nil, rfl⟩
    · rcases ih (nesting.step c) with hcs | ⟨first, rest, rfl, hfirst, hafter⟩
      · exact .inl (undivided_cons_iff.2 ⟨hc, hcs⟩)
      · exact .inr ⟨c :: first, rest, rfl, undivided_cons_iff.2 ⟨hc, hfirst⟩, hafter⟩

namespace SelectorList

theorem splitFrom_append_comma {nesting : Nesting} {cs : List Char}
    (h : nesting.after cs = .top) (ds : List Char) :
    splitFrom nesting (cs ++ ',' :: ds) = splitFrom nesting cs ++ split ds := by
  induction cs generalizing nesting with
  | nil =>
    obtain rfl : nesting = .top := h
    rfl
  | cons c cs ih =>
    rw [List.cons_append, splitFrom, splitFrom]
    by_cases hc : c = ',' ∧ nesting = .top
    · obtain ⟨rfl, rfl⟩ := hc
      have hrest : (Nesting.top.step ',').after cs = .top := h
      rw [Nesting.step_comma] at hrest
      rw [if_pos ⟨rfl, rfl⟩, if_pos ⟨rfl, rfl⟩, ih hrest]
      rfl
    · rw [if_neg hc, if_neg hc, ih h]
      obtain ⟨piece, pieces, hpieces⟩ :=
        List.exists_cons_of_ne_nil (splitFrom_ne_nil (nesting.step c) cs)
      rw [hpieces]
      rfl

/-- The members of two lists with a comma between them. -/
theorem split_append_comma {cs : List Char} (h : Nesting.Closed cs) (ds : List Char) :
    split (cs ++ ',' :: ds) = split cs ++ split ds :=
  splitFrom_append_comma h ds

/-! ### Members -/

/-- Texts that can be told apart when they are written with commas between them: none has an outer
comma inside, and only the last may leave a bracket or a quote open. -/
structure Separate (members : List (List Char)) : Prop where
  nonempty : members ≠ []
  undivided : ∀ member ∈ members, Nesting.top.Undivided member
  closed : ∀ member ∈ members.dropLast, Nesting.Closed member

theorem separate_singleton_iff {member : List Char} :
    Separate [member] ↔ Nesting.top.Undivided member := by
  constructor
  · intro h
    exact h.undivided member List.mem_cons_self
  · intro h
    exact ⟨by simp, by simpa using h, by simp⟩

theorem separate_cons_iff {first : List Char} {rest : List (List Char)} (hrest : rest ≠ []) :
    Separate (first :: rest) ↔
      Nesting.top.Undivided first ∧ Nesting.Closed first ∧ Separate rest := by
  have hlast : (first :: rest).dropLast = first :: rest.dropLast :=
    List.dropLast_cons_of_ne_nil hrest
  constructor
  · rintro ⟨_, hundivided, hclosed⟩
    rw [hlast] at hclosed
    obtain ⟨hfirst, hmembers⟩ := List.forall_mem_cons.1 hundivided
    obtain ⟨hends, hothers⟩ := List.forall_mem_cons.1 hclosed
    exact ⟨hfirst, hends, hrest, hmembers, hothers⟩
  · rintro ⟨hfirst, hends, _, hmembers, hothers⟩
    refine ⟨by simp, List.forall_mem_cons.2 ⟨hfirst, hmembers⟩, ?_⟩
    rw [hlast]
    exact List.forall_mem_cons.2 ⟨hends, hothers⟩

theorem separate_split (cs : List Char) :
    Separate (split cs) ∧ [','].intercalate (split cs) = cs := by
  rcases Nesting.top.undivided_or_comma cs with h | ⟨first, rest, hcs, hfirst, hafter⟩
  · rw [split, splitFrom_of_undivided h]
    exact ⟨separate_singleton_iff.2 h, by simp⟩
  · obtain ⟨hrest, hjoin⟩ := separate_split rest
    rw [hcs, split_append_comma hafter, split, splitFrom_of_undivided hfirst, List.singleton_append]
    refine ⟨(separate_cons_iff hrest.nonempty).2 ⟨hfirst, hafter, hrest⟩, ?_⟩
    rw [List.intercalate_cons_of_ne_nil hrest.nonempty, hjoin]
    simp
termination_by cs.length
decreasing_by
  rw [hcs, List.length_append, List.length_cons]
  omega

theorem split_intercalate {members : List (List Char)} (h : Separate members) :
    split ([','].intercalate members) = members := by
  induction members with
  | nil => exact absurd rfl h.nonempty
  | cons first rest ih =>
    by_cases hrest : rest = []
    · subst hrest
      rw [List.intercalate_singleton]
      exact splitFrom_of_undivided (separate_singleton_iff.1 h)
    · obtain ⟨hfirst, hends, hseparate⟩ := (separate_cons_iff hrest).1 h
      rw [List.intercalate_cons_of_ne_nil hrest, List.append_assoc, List.singleton_append,
        split_append_comma hends, ih hseparate, split, splitFrom_of_undivided hfirst,
        List.singleton_append]

/-- A text is cut in the one way that leaves no outer comma in a member, closes every member but
the last, and gives the text back when commas are put between the members. -/
theorem split_eq_iff {cs : List Char} {members : List (List Char)} :
    split cs = members ↔ Separate members ∧ [','].intercalate members = cs := by
  constructor
  · rintro rfl
    exact separate_split cs
  · rintro ⟨h, rfl⟩
    exact split_intercalate h

/-! ### Reading -/

theorem result_read (cs : List Char) :
    (read cs).result = (split cs).mapM fun member => (Selector.read member).result := by
  simp only [read_eq_mapM, Outcome.result_mapM, result_readMember]

/-- A list fails with the error of its first member that cannot be read. -/
theorem result_read_eq_error {cs : List Char} {error : SelectorError} :
    (read cs).result = .error error ↔
      ∃ before member after, split cs = before ++ member :: after ∧
        (∀ m ∈ before, ∃ selector, (Selector.read m).result = .ok selector) ∧
        (Selector.read member).result = .error error := by
  simp only [read_eq_mapM, Outcome.result_mapM_eq_error, result_readMember]

theorem result_parse_append_comma {first : String} (h : Nesting.Closed first.toList)
    (second : String) :
    (parse (first ++ "," ++ second)).result = (do
      let selectors ← (parse first).result
      let others ← (parse second).result
      return selectors ++ others) := by
  have htext : (first ++ "," ++ second).toList = first.toList ++ ',' :: second.toList := by simp
  simp only [parse, result_read, htext, split_append_comma h, List.mapM_append]

end SelectorList

end SelectorPath
