/-! Decimal numbers. -/

namespace SelectorPath.Text

/-- The number that decimal digits write. -/
def ofDigits (digits : List Char) : Nat :=
  Nat.ofDigitChars 10 digits 0

theorem ofDigits_toString (n : Nat) : ofDigits (toString n).toList = n := by
  rw [show toString n = String.ofList (Nat.toDigits 10 n) from rfl, String.toList_ofList]
  exact Nat.ofDigitChars_toDigits (by decide) (by decide)

end SelectorPath.Text
