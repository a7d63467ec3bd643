import SelectorPath.Text.Occurrence
import SelectorPath.XPath.Document
import SelectorPath.XPath.Path

/-! The meaning of XPath expressions and paths. Numbers are whole. An expression has no value where
it would divide by zero, or would turn a text or an attribute into a number; no query of a selector
does. -/

namespace SelectorPath.XPath

open Text

inductive Value where
  | boolean (value : Bool)
  | number (value : Int)
  | string (text : String)
  /-- The attributes of one name, of which an element has at most one. -/
  | attr (text : Option String)
  deriving DecidableEq, Repr

namespace Value

/-- A value as a boolean. -/
def truth : Value → Bool
  | boolean value => value
  | number value => value ≠ 0
  | string text => text ≠ ""
  | attr text => text.isSome

/-- A value as a text; an attribute that is not there is the empty text. -/
def text : Value → String
  | boolean true => "true"
  | boolean false => "false"
  | number value => toString value
  | string text => text
  | attr text => text.getD ""

def number? : Value → Option Int
  | number value => some value
  | _ => none

/-- Whether two values are equal; an attribute that is not there is equal to nothing. -/
def equal? : Value → Value → Option Bool
  | number m, number n => some (m = n)
  | string s, string t => some (s = t)
  | attr found, string s => some (found = some s)
  | string s, attr found => some (found = some s)
  | _, _ => none

end Value

/-- The node at which an expression is evaluated, its position among those of its step, and their
number. -/
structure Context where
  node : Node
  position : Nat
  size : Nat

def Function.apply (context : Context) : Function → List Value → Option Value
  | name, [] => some (.string context.node.element.name)
  | position, [] => some (.number context.position)
  | last, [] => some (.number context.size)
  | not, [value] => some (.boolean !value.truth)
  | contains, [whole, part] => some (.boolean (occursIn part.text.toList whole.text.toList))
  | startsWith, [whole, part] => some (.boolean (part.text.toList.isPrefixOf whole.text.toList))
  | concat, first :: second :: rest =>
    some (.string (String.join ((first :: second :: rest).map Value.text)))
  | _, _ => none

/-- The remainder has the sign of the dividend. -/
def Operator.apply (left right : Value) : Operator → Option Value
  | or => some (.boolean (left.truth || right.truth))
  | and => some (.boolean (left.truth && right.truth))
  | equal => return .boolean (← left.equal? right)
  | atMost => return .boolean ((← left.number?) ≤ (← right.number?))
  | atLeast => return .boolean ((← left.number?) ≥ (← right.number?))
  | plus => return .number ((← left.number?) + (← right.number?))
  | minus => return .number ((← left.number?) - (← right.number?))
  | mod => do
    let dividend ← left.number?
    let divisor ← right.number?
    if divisor = 0 then none else return .number (dividend.tmod divisor)

namespace Expr

mutual

def eval (context : Context) : Expr → Option Value
  | literal _ text => some (.string text)
  | number value => some (.number value)
  | attr name => some (.attr (context.node.element.attribute? name))
  | call function arguments => do function.apply context (← evalAll context arguments)
  | negate operand => do return .number (-(← (← operand.eval context).number?))
  | binary operator left right => do
    operator.apply (← left.eval context) (← right.eval context)
  | group inner => inner.eval context

def evalAll (context : Context) : List Expr → Option (List Value)
  | [] => some []
  | expr :: exprs => do return (← expr.eval context) :: (← evalAll context exprs)

end

/-- Whether a node passes an expression as a predicate; a number stands for a position. -/
def holds (expr : Expr) (context : Context) : Bool :=
  match expr.eval context with
  | some (.number value) => value = context.position
  | some value => value.truth
  | none => false

/-- The nodes that pass a predicate. -/
def filter (nodes : List Node) (predicate : Expr) : List Node :=
  ((nodes.zipIdx 1).filter fun (node, position) =>
    predicate.holds ⟨node, position, nodes.length⟩).map Prod.fst

end Expr

def Axis.nodes (node : Node) : Axis → List Node
  | child => node.children
  | descendant => node.descendants

/-- The nodes to which a step leads. Each predicate counts positions among the nodes that the
predicates before it have left. -/
def Step.select (step : Step) (node : Node) : List Node :=
  step.predicates.foldl Expr.filter (step.axis.nodes node)

def Path.select (path : Path) (node : Node) : List Node :=
  path.foldl (fun nodes step => nodes.flatMap step.select) [node]

/-- The nodes that a query finds in a document. -/
def Union.select (union : Union) (document : Element) : List Node :=
  union.flatMap fun path => Path.select path (Node.root document)

end SelectorPath.XPath
