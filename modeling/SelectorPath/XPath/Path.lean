import SelectorPath.XPath.Expr

/-! Absolute location paths and their unions. -/

namespace SelectorPath.XPath

inductive Axis where
  | child
  | descendant
  deriving DecidableEq, Repr

/-- The text of an axis before a node test; child is what a step has by default. -/
def Axis.text : Axis → String
  | child => ""
  | descendant => "descendant::"

/-- A step to elements of any name, narrowed by predicates one after the other. -/
structure Step where
  axis : Axis
  predicates : List Expr
  deriving Repr

def Step.render (step : Step) : String :=
  "/" ++ step.axis.text ++ "*" ++ String.join (step.predicates.map fun e => "[" ++ e.render ++ "]")

/-- A path from the root, which lies above the document element. -/
abbrev Path := List Step

def Path.render (path : Path) : String :=
  String.join (path.map Step.render)

abbrev Union := List Path

def Union.render (union : Union) : String :=
  "|".intercalate (union.map Path.render)

end SelectorPath.XPath
