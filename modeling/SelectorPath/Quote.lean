/-! The two quotation marks. Neither the values of attribute blocks nor XPath literals have escapes,
so a quoted text is any text without its own mark. -/

namespace SelectorPath

inductive Quote where
  | single
  | double
  deriving DecidableEq, Repr

namespace Quote

def char : Quote → Char
  | single => '\''
  | double => '"'

def ofChar? (c : Char) : Option Quote :=
  if c = '\'' then some single else if c = '"' then some double else none

theorem ofChar?_eq_some_iff {c : Char} {q : Quote} : ofChar? c = some q ↔ c = q.char := by
  cases q <;> grind [ofChar?, char]

/-- A text between two marks. -/
def enclose (quote : Quote) (text : List Char) : List Char :=
  quote.char :: (text ++ [quote.char])

end Quote

end SelectorPath
