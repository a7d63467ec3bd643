import SelectorPath.Quote
import SelectorPath.Text.Split

/-! Expressions of XPath 1.0, as far as selectors need them. An expression is written as it stands:
where the order of operators needs parentheses, the expression has a `group`. -/

namespace SelectorPath.XPath

open Text

inductive Operator where
  | or
  | and
  | equal
  | atMost
  | atLeast
  | plus
  | minus
  | mod
  deriving DecidableEq, Repr

def Operator.text : Operator → String
  | or => "or"
  | and => "and"
  | equal => "="
  | atMost => "<="
  | atLeast => ">="
  | plus => "+"
  | minus => "-"
  | mod => "mod"

inductive Function where
  | name
  | position
  | last
  | not
  | contains
  | startsWith
  | concat
  deriving DecidableEq, Repr

def Function.text : Function → String
  | name => "name"
  | position => "position"
  | last => "last"
  | not => "not"
  | contains => "contains"
  | startsWith => "starts-with"
  | concat => "concat"

inductive Expr where
  /-- A quoted text, which must not have its own mark in it. -/
  | literal (quote : Quote) (text : String)
  | number (value : Nat)
  /-- The attribute of this name of the element at hand. -/
  | attr (name : String)
  | call (function : Function) (arguments : List Expr)
  | negate (operand : Expr)
  | binary (operator : Operator) (left right : Expr)
  | group (inner : Expr)
  deriving Repr

namespace Expr

/-- The text between the operands of an operator. After an attribute, an equals sign stands without
spaces. -/
def operatorText (operator : Operator) (left : Expr) : String :=
  match operator, left with
  | .equal, attr _ => "="
  | _, _ => " " ++ operator.text ++ " "

mutual

/-- The text of an expression. -/
def render : Expr → String
  | literal quote text => String.ofList (quote.enclose text.toList)
  | number value => toString value
  | attr name => "@" ++ name
  | call function arguments => function.text ++ "(" ++ renderArguments arguments ++ ")"
  | negate operand => "-" ++ operand.render
  | binary operator left right => left.render ++ operatorText operator left ++ right.render
  | group inner => "(" ++ inner.render ++ ")"

def renderArguments : List Expr → String
  | [] => ""
  | [argument] => argument.render
  | argument :: rest => argument.render ++ ", " ++ renderArguments rest

end

/-! ### Building expressions -/

def ofInt : Int → Expr
  | .ofNat n => number n
  | .negSucc n => negate (number (n + 1))

/-- An expression for a text. A literal cannot have its own mark in it, so a text with both marks is
put together from pieces. -/
def ofString (text : String) : Expr :=
  if '"' ∉ text.toList then literal .double text
  else if '\'' ∉ text.toList then literal .single text
  else
    let pieces := (splitOn '"' text.toList).map fun piece => literal .double (String.ofList piece)
    call .concat (pieces.intersperse (literal .single "\""))

def equals (left right : Expr) : Expr :=
  binary .equal left right

/-- Joins expressions by an operator from left to right. One expression stays as it is; each of
several is a group. -/
def joined? (operator : Operator) : List Expr → Option Expr
  | [] => none
  | [expr] => some expr
  | expr :: rest =>
    some (rest.foldl (fun left right => binary operator left (group right)) (group expr))

end Expr

end SelectorPath.XPath
