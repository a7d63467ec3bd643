import SelectorPath.Text.Blank
import SelectorPath.Text.Decimal

/-! Position formulas, the arguments of `:nth-child`: an index, or `An+B` as a sum of terms. All
numbers fit in 64 bits with a sign, and so does every partial sum. -/

namespace SelectorPath

open Text

inductive Formula where
  /-- One position. -/
  | index (position : Int)
  /-- The positions `factor * n + offset` for `n = 0, 1, …`. -/
  | linear (factor offset : Int)
  deriving DecidableEq, Repr

namespace Formula

/-- The greatest number of 64 bits with a sign; the least is one further below zero. -/
def greatest : Nat := 9223372036854775807

/-- The number itself, if it fits in 64 bits with a sign. -/
def checked? (n : Int) : Option Int :=
  if -(greatest : Int) - 1 ≤ n ∧ n ≤ greatest then some n else none

def isSign (c : Char) : Bool :=
  c == '+' || c == '-'

/-- Drops the white space and lowers the letters of a text in which `previous` was the last
character and `gap` says whether white space follows it. White space may stand only next to a
sign. -/
def squeeze (previous : Option Char) (gap : Bool) : List Char → Option (List Char)
  | [] => some []
  | c :: cs =>
    if isWhite c then squeeze previous true cs
    else if gap && !previous.any isSign && !isSign c then none
    else (squeeze (some c) false cs).map (c.toLower :: ·)

/-- A sign, as whether it is a minus, and what follows it; no sign is a plus. -/
def splitSign : List Char → Bool × List Char
  | '+' :: cs => (false, cs)
  | '-' :: cs => (true, cs)
  | cs => (false, cs)

def signed (negative : Bool) (magnitude : Nat) : Int :=
  if negative then -(magnitude : Int) else magnitude

/-- The number that digits write, if it fits. -/
def magnitude? (digits : List Char) : Option Nat :=
  if ofDigits digits ≤ greatest then some (ofDigits digits) else none

/-- A decimal number with or without a sign. -/
def readInteger (cs : List Char) : Option Int :=
  let (negative, digits) := splitSign cs
  if digits ≠ [] ∧ digits.all Char.isDigit then checked? (signed negative (ofDigits digits))
  else none

/-- A term of a sum. -/
inductive Term where
  /-- A multiple of `n`. -/
  | multiple (coefficient : Int)
  | constant (value : Int)
  deriving DecidableEq, Repr

namespace Term

def coefficient? : Term → Option Int
  | multiple coefficient => some coefficient
  | constant _ => none

def constant? : Term → Option Int
  | multiple _ => none
  | constant value => some value

/-- What follows the sign of a term: digits and an `n`, where `n` without digits is `1n`. -/
def readBody (negative : Bool) (body : List Char) : Option Term :=
  let digits := body.takeWhile Char.isDigit
  match body.dropWhile Char.isDigit with
  | ['n'] =>
    if digits = [] then some (multiple (signed negative 1))
    else (magnitude? digits).map fun magnitude => multiple (signed negative magnitude)
  | [] =>
    if digits = [] then none
    else (magnitude? digits).map fun magnitude => constant (signed negative magnitude)
  | _ => none

def read (cs : List Char) : Option Term :=
  let (negative, body) := splitSign cs
  readBody negative body

end Term

/-- Cuts a text before each of its signs. -/
def cutAtSigns : List Char → List (List Char)
  | [] => []
  | c :: cs =>
    match cutAtSigns cs with
    | [] => [[c]]
    | piece :: pieces =>
      if piece.head?.any isSign then [c] :: piece :: pieces else (c :: piece) :: pieces

/-- The sum of numbers from left to right, if it never leaves its range. -/
def sum? (terms : List Int) : Option Int :=
  terms.foldlM (fun sum term => checked? (sum + term)) 0

/-- A sum needs at least one multiple of `n`. -/
def ofTerms? (terms : List Term) : Option Formula := do
  let coefficients := terms.filterMap Term.coefficient?
  if coefficients.isEmpty then
    none
  return linear (← sum? coefficients) (← sum? (terms.filterMap Term.constant?))

/-- Reads a formula without white space and capitals. -/
def readCompact (cs : List Char) : Option Formula :=
  if cs = "odd".toList then some (linear 2 1)
  else if cs = "even".toList then some (linear 2 0)
  else
    match readInteger cs with
    | some position => some (index position)
    | none => (cutAtSigns cs).mapM Term.read >>= ofTerms?

def parse? (text : String) : Option Formula :=
  squeeze none false (trim text.toList) >>= readCompact

end Formula

end SelectorPath
