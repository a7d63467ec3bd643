/-! Words: element and attribute names, the values of shorthands, and values without quotes. -/

namespace SelectorPath.Text

/-- Letters and digits of ASCII, underscore and hyphen. -/
def isWord (c : Char) : Bool :=
  c.isAlphanum || c == '_' || c == '-'

theorem isWord_of_isAlpha {c : Char} (h : c.isAlpha = true) : isWord c = true := by
  simp [isWord, Char.isAlphanum, h]

/-- A name is a word that starts with a letter. -/
def isName : List Char → Bool
  | [] => false
  | c :: cs => c.isAlpha && cs.all isWord

end SelectorPath.Text
