import SelectorPath.Query.Test
import SelectorPath.SelectorList
import SelectorPath.XPath.Path

/-! The XPath query of a selector list. Each selector becomes a path that starts at the document
element and goes one step for each compound, whose tests are the predicates of the step: the element
name, then the attributes, then the pseudo-classes. -/

namespace SelectorPath

open XPath

/-! ### Compounds -/

namespace Pseudo

/-- The pseudo-class of a name. -/
def class? (pseudo : Pseudo) : Except SelectorError PseudoClass :=
  match PseudoClass.ofName? pseudo.name with
  | some known => .ok known
  | none => .error (.unknownPseudo pseudo.name)

/-- The argument of a pseudo-class that needs one. -/
def argumentOf (pseudo : Pseudo) (known : PseudoClass) : Except SelectorError String :=
  match pseudo.argument with
  | some argument => .ok argument
  | none => .error (.missingArgument known)

def formula (argument : String) : Except SelectorError Formula :=
  match Formula.parse? argument with
  | some formula => .ok formula
  | none => .error (.invalidFormula argument)

end Pseudo

section

variable {m : Type → Type} [Monad m] [Work m]

/-- The test of a pseudo-class, where `negate` gives the test for the argument of a negation. -/
def Pseudo.exprWith (negate : String → m Expr) (pseudo : Pseudo) : m Expr := do
  let known ← Work.ofExcept pseudo.class?
  match known with
  | .firstChild => return .equals (.call .position []) (.number 1)
  | .lastChild => return .equals (.call .position []) (.call .last [])
  | .nthChild =>
    let argument ← Work.ofExcept (pseudo.argumentOf known)
    return (← Work.ofExcept (formula argument)).expr
  | .negation => negate (← Work.ofExcept (pseudo.argumentOf known))

namespace Compound

/-- The tests that need no other selector to be read. -/
def ownTests (compound : Compound) : List Expr :=
  (compound.element.map fun name => .equals (.call .name []) (.ofString name)).toList ++
    compound.attributes.map AttributeTest.expr

def testsWith (negate : String → m Expr) (compound : Compound) : m (List Expr) := do
  return compound.ownTests ++ (← compound.pseudos.mapM (Pseudo.exprWith negate))

end Compound

/-! ### Negation -/

namespace Negation

/-- How deep negations may stand in each other. -/
def limit : Nat := 32

/-- The test of one selector of the argument of a negation. It has to be one compound that asks
something of the element itself. -/
def alternative (negate : String → m Expr) (argument : String) : Selector → m Expr
  | [compound] =>
    if compound.combinator = .child then Work.fail (.invalidNegation argument)
    else do
      match Expr.joined? .and (← compound.testsWith negate) with
      | some expr => return expr
      | none => Work.fail (.invalidNegation argument)
  | _ => Work.fail (.invalidNegation argument)

/-- The test that an element matches no selector of the argument, where `negate` gives the tests of
the negations in it. -/
def exprWith (negate : String → m Expr) (argument : String) : m Expr := do
  let selectors ← SelectorList.readIn m argument.toList
  let alternatives ← selectors.mapM (alternative negate argument)
  match Expr.joined? .or alternatives with
  | some any => return .call .not [any]
  | none => Work.fail (.invalidNegation argument)

/-- The test of a negation with `levels` negations left to go down. -/
def exprIn (m : Type → Type) [Monad m] [Work m] : (levels : Nat) → (argument : String) → m Expr
  | 0, _ => Work.fail (.negationTooDeep limit)
  | levels + 1, argument => exprWith (exprIn m levels) argument

def expr (levels : Nat) (argument : String) : Outcome Expr :=
  exprIn Outcome levels argument

end Negation

/-! ### Paths -/

def Combinator.axis : Combinator → Axis
  | descendant => .descendant
  | child => .child

def Compound.stepWith (negate : String → m Expr) (compound : Compound) : m Step := do
  return ⟨compound.combinator.axis, ← compound.testsWith negate⟩

/-- The path of a selector: to the document element, and on from there. -/
def Selector.pathWith (negate : String → m Expr) (selector : Selector) : m Path := do
  return ⟨.child, []⟩ :: (← selector.mapM (Compound.stepWith negate))

def SelectorList.unionWith (negate : String → m Expr) (selectors : SelectorList) : m Union :=
  selectors.mapM (Selector.pathWith negate)

/-- The query of a selector list, where `negate` gives the tests of its negations. -/
def queryWith (negate : String → m Expr) (text : String) : m Union := do
  (← SelectorList.readIn m text.toList).unionWith negate

end

/-! ### Queries within the limit -/

def Compound.tests (compound : Compound) : Outcome (List Expr) :=
  compound.testsWith (Negation.expr Negation.limit)

def Compound.step (compound : Compound) : Outcome Step :=
  compound.stepWith (Negation.expr Negation.limit)

def Selector.path (selector : Selector) : Outcome Path :=
  selector.pathWith (Negation.expr Negation.limit)

def SelectorList.union (selectors : SelectorList) : Outcome Union :=
  selectors.unionWith (Negation.expr Negation.limit)

def query (text : String) : Outcome Union :=
  queryWith (Negation.expr Negation.limit) text

/-- The text of the query of a selector list. -/
def xpath (text : String) : Outcome String :=
  Union.render <$> query text

end SelectorPath
