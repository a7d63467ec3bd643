import SelectorPath.Selector

/-! The text of compounds and selectors. A compound is written as its element name, its attribute
tests as blocks with quoted values, and its pseudo-classes; shorthands are written as blocks. -/

namespace SelectorPath

/-- The mark in which a value is quoted: double, unless the value has one in it. -/
def quoteFor (value : String) : Quote :=
  if '"' ∈ value.toList then .single else .double

def AttributeTest.text (test : AttributeTest) : List Char :=
  let value :=
    match test.value with
    | none => []
    | some value => (quoteFor value).enclose value.toList
  '[' :: (test.name.toList ++ test.matching.operator.toList ++ value ++ [']'])

def Pseudo.text (pseudo : Pseudo) : List Char :=
  let argument :=
    match pseudo.argument with
    | none => []
    | some argument => '(' :: (argument.toList ++ [')'])
  ':' :: (pseudo.name.toList ++ argument)

/-- The text of a compound without its combinator. -/
def Compound.text (compound : Compound) : List Char :=
  if compound.isUniversal then ['*']
  else (compound.element.getD "").toList ++ compound.attributes.flatMap AttributeTest.text ++
    compound.pseudos.flatMap Pseudo.text

namespace Selector

/-- The text of compounds that follow others. -/
def followingText : Selector → List Char
  | [] => []
  | compound :: rest =>
    let gap :=
      match compound.combinator with
      | .descendant => [' ']
      | .child => [' ', '>', ' ']
    gap ++ compound.text ++ followingText rest

def text : Selector → List Char
  | [] => []
  | compound :: rest =>
    let gap :=
      match compound.combinator with
      | .descendant => []
      | .child => ['>', ' ']
    gap ++ compound.text ++ followingText rest

end Selector

end SelectorPath
