import SelectorPath.Proofs.Text.Run
import SelectorPath.Token

/-! The argument of a pseudo-class ends at the parenthesis that closes its own. Only parentheses are
counted, so an argument that is closed is exactly a text in which they are balanced. -/

namespace SelectorPath

namespace Text

/-- How many parentheses are open after a text that starts inside of `depth` ones; none if it closes
one that was never opened. -/
def openAfter (depth : Nat) : List Char → Option Nat
  | [] => some depth
  | '(' :: cs => openAfter (depth + 1) cs
  | ')' :: cs =>
    match depth with
    | 0 => none
    | depth + 1 => openAfter depth cs
  | _ :: cs => openAfter depth cs

/-- Every parenthesis has its partner, and none closes below the start. -/
def Balanced (cs : List Char) : Prop :=
  openAfter 0 cs = some 0

instance (cs : List Char) : Decidable (Balanced cs) :=
  inferInstanceAs (Decidable (openAfter 0 cs = some 0))

end Text

open Text

namespace Argument

theorem read_append_of_openAfter {depth : Nat} {cs : List Char} (h : openAfter depth cs = some 0)
    (rest : List Char) : read depth (cs ++ ')' :: rest) = (⟨cs, true⟩, rest) := by
  fun_induction openAfter depth cs with
  | case1 depth =>
    cases h
    rfl
  | case2 depth cs ih => simp [read, ih h, cons]
  | case3 cs => cases h
  | case4 cs depth ih => simp [read, ih h, cons]
  | case5 depth c cs hopen hclose ih => simp [read, ih h, cons]

theorem openAfter_of_closed {depth : Nat} {cs : List Char}
    (h : (read depth cs).1.closed = true) : openAfter depth (read depth cs).1.text = some 0 := by
  fun_induction read depth cs with
  | case1 => cases h
  | case2 depth cs argument rest hread ih =>
    rw [hread] at ih
    exact ih h
  | case3 => rfl
  | case4 cs depth argument rest hread ih =>
    rw [hread] at ih
    exact ih h
  | case5 depth c cs hopen hclose argument rest hread ih =>
    rw [hread] at ih
    simpa [cons, openAfter] using ih h

/-- An argument that is not closed takes all of the text. -/
theorem text_of_unclosed {depth : Nat} {cs : List Char}
    (h : (read depth cs).1.closed = false) : (read depth cs).1.text = cs := by
  fun_induction read depth cs with
  | case1 => rfl
  | case2 depth cs argument rest hread ih =>
    rw [hread] at ih
    exact congrArg ('(' :: ·) (ih h)
  | case3 => cases h
  | case4 cs depth argument rest hread ih =>
    rw [hread] at ih
    exact congrArg (')' :: ·) (ih h)
  | case5 depth c cs hopen hclose argument rest hread ih =>
    rw [hread] at ih
    exact congrArg (c :: ·) (ih h)

/-- Up to a closing parenthesis, an argument is read as a whole exactly if it is balanced. -/
theorem text_read_eq_iff {cs : List Char} :
    (read 0 (cs ++ [')'])).1.text = cs ↔ Balanced cs := by
  constructor
  · intro h
    cases hclosed : (read 0 (cs ++ [')'])).1.closed with
    | false =>
      have hlength := congrArg List.length (h.symm.trans (text_of_unclosed hclosed))
      simp at hlength
    | true =>
      have hopen := openAfter_of_closed hclosed
      rwa [h] at hopen
  · intro h
    rw [read_append_of_openAfter h []]

end Argument

end SelectorPath
