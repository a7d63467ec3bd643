/-! What a selector asks of an element. A compound is one link of a selector: how the element hangs
below the one before it, its name, tests of its attributes, and pseudo-classes. -/

namespace SelectorPath

/-- How an element hangs below the one that the compound before it matched. -/
inductive Combinator where
  | descendant
  | child
  deriving DecidableEq, Repr

/-- How an attribute is compared with the value of a test. -/
inductive Matching where
  /-- The attribute is the value. -/
  | equals
  /-- The attribute starts with the value. -/
  | startsWith
  /-- The attribute ends with the value. -/
  | endsWith
  /-- The value is one of the words of the attribute. -/
  | hasWord
  /-- The attribute is the value, or goes on after it with a space or a hyphen. -/
  | dashMatch
  /-- The attribute is not the value. -/
  | differs
  /-- The attribute is there. -/
  | present
  /-- The value occurs in the attribute. -/
  | contains
  deriving DecidableEq, Repr

namespace Matching

/-- The operator of an attribute block; a test for presence has none. -/
def operator : Matching → String
  | equals => "="
  | startsWith => "^="
  | endsWith => "$="
  | hasWord => "~="
  | dashMatch => "|="
  | differs => "!="
  | present => ""
  | contains => "*="

def ofOperator? : String → Option Matching
  | "=" => some equals
  | "^=" => some startsWith
  | "$=" => some endsWith
  | "~=" => some hasWord
  | "|=" => some dashMatch
  | "!=" => some differs
  | "" => some present
  | "*=" => some contains
  | _ => none

theorem ofOperator?_eq_some_iff {text : String} {matching : Matching} :
    ofOperator? text = some matching ↔ text = matching.operator := by
  constructor
  · intro h
    unfold ofOperator? at h
    split at h <;> simp_all <;> subst h <;> rfl
  · rintro rfl
    cases matching <;> rfl

/-- The name of a matching in listings of compounds. -/
def name : Matching → String
  | equals => "same"
  | startsWith => "start"
  | endsWith => "end"
  | hasWord => "contains-word"
  | dashMatch => "contains-prefix"
  | differs => "not"
  | present => "none"
  | contains => "contains"

end Matching

structure AttributeTest where
  name : String
  matching : Matching
  value : Option String
  deriving DecidableEq, Repr

/-- The short forms `#value` and `.value` of an attribute test. -/
inductive Shorthand where
  | hash
  | dot
  deriving DecidableEq, Repr

namespace Shorthand

def symbol : Shorthand → Char
  | hash => '#'
  | dot => '.'

def ofSymbol? (c : Char) : Option Shorthand :=
  if c = '#' then some hash else if c = '.' then some dot else none

theorem ofSymbol?_eq_some_iff {c : Char} {s : Shorthand} : ofSymbol? c = some s ↔ c = s.symbol := by
  cases s <;> grind [ofSymbol?, Shorthand.symbol]

def attributeName : Shorthand → String
  | hash => "id"
  | dot => "class"

def matching : Shorthand → Matching
  | hash => .equals
  | dot => .hasWord

def test (shorthand : Shorthand) (value : String) : AttributeTest :=
  ⟨shorthand.attributeName, shorthand.matching, some value⟩

end Shorthand

/-- A pseudo-class as it is written, known or not: `:name` or `:name(argument)`. -/
structure Pseudo where
  name : String
  argument : Option String
  deriving DecidableEq, Repr

/-- The pseudo-classes that have a meaning. -/
inductive PseudoClass where
  | firstChild
  | lastChild
  | nthChild
  | negation
  deriving DecidableEq, Repr

namespace PseudoClass

def name : PseudoClass → String
  | firstChild => "first-child"
  | lastChild => "last-child"
  | nthChild => "nth-child"
  | negation => "not"

def ofName? : String → Option PseudoClass
  | "first-child" => some firstChild
  | "last-child" => some lastChild
  | "nth-child" => some nthChild
  | "not" => some negation
  | _ => none

theorem ofName?_eq_some_iff {text : String} {pseudo : PseudoClass} :
    ofName? text = some pseudo ↔ text = pseudo.name := by
  constructor
  · intro h
    unfold ofName? at h
    split at h <;> simp_all <;> subst h <;> rfl
  · rintro rfl
    cases pseudo <;> rfl

end PseudoClass

structure Compound where
  combinator : Combinator := .descendant
  element : Option String := none
  attributes : List AttributeTest := []
  pseudos : List Pseudo := []
  deriving DecidableEq, Repr

namespace Compound

/-- Whether a compound matches every element that hangs where its combinator says. -/
def isUniversal (compound : Compound) : Bool :=
  compound.element.isNone && compound.attributes.isEmpty && compound.pseudos.isEmpty

def named (compound : Compound) (name : String) : Compound :=
  { compound with element := some name }

/-- Makes the compound a child if the combinator says so. -/
def joinedBy (compound : Compound) : Combinator → Compound
  | .descendant => compound
  | .child => { compound with combinator := .child }

def addAttribute (compound : Compound) (test : AttributeTest) : Compound :=
  { compound with attributes := compound.attributes ++ [test] }

def addPseudo (compound : Compound) (pseudo : Pseudo) : Compound :=
  { compound with pseudos := compound.pseudos ++ [pseudo] }

end Compound

end SelectorPath
