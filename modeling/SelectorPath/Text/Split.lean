/-! Cutting a text at every occurrence of a character. -/

namespace SelectorPath.Text

/-- The pieces between the occurrences of `mark`, empty ones included; there is at least one. -/
def splitOn (mark : Char) : List Char → List (List Char)
  | [] => [[]]
  | c :: cs => if c = mark then [] :: splitOn mark cs else (splitOn mark cs).modifyHead (c :: ·)

theorem splitOn_ne_nil (mark : Char) (cs : List Char) : splitOn mark cs ≠ [] := by
  fun_induction splitOn mark cs <;> simp_all

/-- The pieces joined by the character give the text back. -/
theorem intercalate_splitOn (mark : Char) (cs : List Char) :
    [mark].intercalate (splitOn mark cs) = cs := by
  fun_induction splitOn mark cs with
  | case1 => rfl
  | case2 cs ih =>
    obtain ⟨piece, pieces, h⟩ := List.exists_cons_of_ne_nil (splitOn_ne_nil mark cs)
    rw [h] at ih ⊢
    rw [← ih]
    simp [List.intercalate]
  | case3 c cs hc ih =>
    obtain ⟨piece, pieces, h⟩ := List.exists_cons_of_ne_nil (splitOn_ne_nil mark cs)
    rw [h] at ih ⊢
    rw [← ih]
    cases pieces <;> simp [List.intercalate]

end SelectorPath.Text
