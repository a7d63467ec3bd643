import SelectorPath.Work

/-! Selector lists: selectors separated by commas that stand outside brackets and quotes. -/

namespace SelectorPath

open Text

/-- Where a place in a text stands: inside how many brackets, round or square alike, and in which
quotes. Brackets inside quotes do not count, and a closing bracket without an opening one is
ignored. -/
structure Nesting where
  depth : Nat := 0
  quote : Option Quote := none
  deriving DecidableEq, Repr

namespace Nesting

/-- The nesting after a character. -/
def step (nesting : Nesting) (c : Char) : Nesting :=
  match nesting.quote with
  | some quote => if c = quote.char then { nesting with quote := none } else nesting
  | none =>
    if c = '(' ∨ c = '[' then { nesting with depth := nesting.depth + 1 }
    else if c = ')' ∨ c = ']' then { nesting with depth := nesting.depth - 1 }
    else { nesting with quote := Quote.ofChar? c }

/-- The nesting after a text. -/
def after (nesting : Nesting) (cs : List Char) : Nesting :=
  cs.foldl step nesting

/-- Outside all brackets and quotes. -/
def top : Nesting := {}

end Nesting

abbrev SelectorList := List Selector

namespace SelectorList

/-- Cuts a text that starts in a nesting at its outer commas. -/
def splitFrom (nesting : Nesting) : List Char → List (List Char)
  | [] => [[]]
  | c :: cs =>
    if c = ',' ∧ nesting = .top then [] :: splitFrom .top cs
    else (splitFrom (nesting.step c) cs).modifyHead (c :: ·)

def split (cs : List Char) : List (List Char) :=
  splitFrom .top cs

theorem splitFrom_ne_nil (nesting : Nesting) (cs : List Char) : splitFrom nesting cs ≠ [] := by
  induction cs generalizing nesting with
  | nil => simp [splitFrom]
  | cons c cs ih =>
    rw [splitFrom]
    split
    · simp
    · simpa using ih (nesting.step c)

section

variable (m : Type → Type) [Monad m] [Work m]

/-- Reads one member; in a list, a member without any text is odd. -/
def memberIn (inList : Bool) (cs : List Char) : m Selector := do
  if inList && isAllWhite cs then
    Work.note .emptyMember
  Work.selector cs

/-- Reads the members in order, up to the first that cannot be read. -/
def readIn (cs : List Char) : m SelectorList :=
  let members := split cs
  members.mapM (memberIn m (members.length > 1))

end

def readMember (inList : Bool) (cs : List Char) : Outcome Selector :=
  memberIn Outcome inList cs

def read (cs : List Char) : Outcome SelectorList :=
  readIn Outcome cs

def parse (text : String) : Outcome SelectorList :=
  read text.toList

end SelectorList

end SelectorPath
