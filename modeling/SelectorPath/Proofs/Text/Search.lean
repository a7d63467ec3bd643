import SelectorPath.Proofs.Text.Run
import SelectorPath.Text.Occurrence
import SelectorPath.Text.Split

/-! Searching with marks. A text between two marks is found in a text with the same marks around it
exactly if it is one of the pieces there. Marks at the end only do less: they are found where the
text ends, but also before marks that the text has itself. -/

namespace SelectorPath.Text

theorem occursIn_iff_isInfix {needle cs : List Char} :
    occursIn needle cs = true ↔ needle <:+: cs := by
  rw [occursIn_iff]
  simp only [List.IsInfix, eq_comm]

/-! ### Pieces between marks -/

section Pieces

variable {mark : Char} {word : List Char}

/-- What stands before the first mark is the first piece. -/
theorem append_mark_prefix_iff {cs : List Char} (h : mark ∉ word) :
    word ++ [mark] <+: cs ++ [mark] ↔ (splitOn mark cs).head? = some word := by
  induction cs generalizing word with
  | nil =>
    cases word with
    | nil => simp [splitOn]
    | cons d word =>
      have hd : d ≠ mark := by grind
      simp [splitOn, hd]
  | cons c cs ih =>
    obtain ⟨first, rest, hpieces⟩ := List.exists_cons_of_ne_nil (splitOn_ne_nil mark cs)
    by_cases hc : c = mark
    · cases word with
      | nil => simp [splitOn, hc]
      | cons d word =>
        have hd : d ≠ mark := by grind
        simp [splitOn, hc, hd]
    · cases word with
      | nil => simp [splitOn, hc, hpieces, Ne.symm hc]
      | cons d word =>
        have htail := ih fun hmem => h (List.mem_cons_of_mem d hmem)
        simp [splitOn, hc, hpieces, htail, eq_comm]

/-- What stands between two marks is one of the other pieces. -/
theorem mark_append_infix_iff {cs : List Char} (h : mark ∉ word) :
    mark :: (word ++ [mark]) <:+: cs ++ [mark] ↔ word ∈ (splitOn mark cs).tail := by
  induction cs with
  | nil =>
    constructor
    · intro hinfix
      have := hinfix.length_le
      simp at this
    · simp [splitOn]
  | cons c cs ih =>
    obtain ⟨first, rest, hpieces⟩ := List.exists_cons_of_ne_nil (splitOn_ne_nil mark cs)
    rw [List.cons_append, List.infix_cons_iff, List.cons_prefix_cons, ih,
      append_mark_prefix_iff h, splitOn]
    by_cases hc : c = mark
    · simp [hc, hpieces, eq_comm]
    · simp [hc, hpieces, Ne.symm hc]

/-- A word with marks around it occurs exactly if it is a piece. -/
theorem mem_splitOn_iff_occurs {cs : List Char} (h : mark ∉ word) :
    word ∈ splitOn mark cs ↔ mark :: (word ++ [mark]) <:+: mark :: (cs ++ [mark]) := by
  obtain ⟨first, rest, hpieces⟩ := List.exists_cons_of_ne_nil (splitOn_ne_nil mark cs)
  rw [List.infix_cons_iff, List.cons_prefix_cons, mark_append_infix_iff h,
    append_mark_prefix_iff h, hpieces]
  simp [eq_comm]

end Pieces

/-! ### Marks alone -/

/-- Where there is nothing between the marks, only the empty text is found. -/
theorem marks_infix_iff (before word after : List Char) :
    before ++ (word ++ after) <:+: before ++ after ↔ word = [] := by
  constructor
  · intro h
    have hle := h.length_le
    simp only [List.length_append] at hle
    exact List.eq_nil_of_length_eq_zero (by omega)
  · rintro rfl
    exact List.infix_rfl

/-! ### Marks at the end -/

theorem append_replicate_infix_iff {mark : Char} {n : Nat} {word cs : List Char} :
    word ++ List.replicate n mark <:+: cs ++ List.replicate n mark ↔
      (∃ k < n, word ++ List.replicate k mark <:+ cs) ∨ word ++ List.replicate n mark <:+: cs := by
  constructor
  · rintro ⟨before, after, h⟩
    rcases List.append_eq_append_iff.1 h with ⟨rest, rfl, _⟩ | ⟨marks, hcs, hmarks⟩
    · exact .inr ⟨before, rest, rfl⟩
    · -- The marks that are found start `k` before the end of the text.
      obtain ⟨hlength, heq, _⟩ := List.append_eq_replicate_iff.1 hmarks.symm
      obtain ⟨k, rfl⟩ : ∃ k, n = k + marks.length := ⟨after.length, by omega⟩
      have hends : before ++ (word ++ List.replicate k mark) = cs := by
        rw [heq, List.length_replicate, List.replicate_add, ← List.append_assoc,
          ← List.append_assoc] at hcs
        simpa using List.append_cancel_right hcs
      by_cases hnone : marks.length = 0
      · rw [hnone, Nat.add_zero]
        exact .inr (List.IsSuffix.isInfix ⟨before, hends⟩)
      · exact .inl ⟨k, by omega, before, hends⟩
  · rintro (⟨k, hk, before, rfl⟩ | h)
    · refine ⟨before, List.replicate k mark, ?_⟩
      simp [List.append_assoc, List.replicate_append_replicate, Nat.add_comm]
    · exact h.trans (List.prefix_append cs _).isInfix

end SelectorPath.Text
