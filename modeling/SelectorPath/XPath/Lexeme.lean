import SelectorPath.Quote
import SelectorPath.Text.Decimal

/-! The lexemes of XPath expressions. Names are those of ASCII letters and digits. -/

namespace SelectorPath.XPath

open Text

inductive Lexeme where
  | literal (quote : Quote) (text : List Char)
  | number (value : Nat)
  | name (text : List Char)
  | mark (char : Char)
  | atMost
  | atLeast
  /-- The two colons after the name of an axis. -/
  | axis
  deriving DecidableEq, Repr

namespace Lexeme

def startsName (c : Char) : Bool :=
  c.isAlpha || c == '_'

def inName (c : Char) : Bool :=
  c.isAlphanum || c == '_' || c == '-' || c == '.'

def isMark (c : Char) : Bool :=
  c == '(' || c == ')' || c == '[' || c == ']' || c == ',' || c == '@' || c == '|' || c == '/' ||
    c == '*' || c == '=' || c == '+' || c == '-'

def readSymbol (c : Char) (cs : List Char) : Option (Lexeme × List Char) :=
  match c, cs with
  | '<', '=' :: rest => some (atMost, rest)
  | '>', '=' :: rest => some (atLeast, rest)
  | ':', ':' :: rest => some (axis, rest)
  | _, _ => if isMark c then some (mark c, cs) else none

def readLiteral (quote : Quote) (cs : List Char) : Option (Lexeme × List Char) :=
  match cs.dropWhile (· != quote.char) with
  | [] => none
  | _ :: rest => some (literal quote (cs.takeWhile (· != quote.char)), rest)

/-- Reads the longest lexeme that starts with `c`. -/
def read (c : Char) (cs : List Char) : Option (Lexeme × List Char) :=
  match Quote.ofChar? c with
  | some quote => readLiteral quote cs
  | none =>
    if c.isDigit then
      some (number (ofDigits (c :: cs.takeWhile Char.isDigit)), cs.dropWhile Char.isDigit)
    else if startsName c then some (name (c :: cs.takeWhile inName), cs.dropWhile inName)
    else readSymbol c cs

theorem length_dropWhile_le (p : Char → Bool) (cs : List Char) :
    (cs.dropWhile p).length ≤ cs.length :=
  (List.dropWhile_suffix p).length_le

theorem length_le_of_readSymbol {c : Char} {cs rest : List Char} {lexeme : Lexeme}
    (h : readSymbol c cs = some (lexeme, rest)) : rest.length ≤ cs.length := by
  unfold readSymbol at h
  split at h <;> grind

theorem length_le_of_readLiteral {quote : Quote} {cs rest : List Char} {lexeme : Lexeme}
    (h : readLiteral quote cs = some (lexeme, rest)) : rest.length ≤ cs.length := by
  have shorter := length_dropWhile_le (· != quote.char) cs
  unfold readLiteral at h
  split at h
  · cases h
  · next stopped =>
    cases h
    rw [stopped, List.length_cons] at shorter
    omega

theorem length_le_of_read {c : Char} {cs rest : List Char} {lexeme : Lexeme}
    (h : read c cs = some (lexeme, rest)) : rest.length ≤ cs.length := by
  unfold read at h
  split at h
  · exact length_le_of_readLiteral h
  · split at h
    · cases h
      exact length_dropWhile_le _ cs
    · split at h
      · cases h
        exact length_dropWhile_le _ cs
      · exact length_le_of_readSymbol h

/-- The lexemes of a text; blanks between them do not count. -/
def readAll (cs : List Char) : Option (List Lexeme) :=
  match cs with
  | [] => some []
  | c :: cs =>
    if c.isWhitespace then readAll cs
    else
      match h : read c cs with
      | none => none
      | some (lexeme, rest) =>
        have := length_le_of_read h
        (readAll rest).map (lexeme :: ·)
termination_by cs.length
decreasing_by
  · exact Nat.lt_succ_self cs.length
  · exact Nat.lt_succ_of_le this

end Lexeme

end SelectorPath.XPath
