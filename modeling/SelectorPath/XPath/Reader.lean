import SelectorPath.XPath.Lexeme
import SelectorPath.XPath.Path

/-! Reading XPath queries. Operators of one level are taken from left to right, and those of a
higher level bind tighter. The readers take fuel, and `fuelFor` gives what a text needs at most. -/

namespace SelectorPath.XPath

/-- How tight an operator binds. -/
def Operator.level : Operator → Nat
  | or => 1
  | and => 2
  | equal => 3
  | atMost | atLeast => 4
  | plus | minus => 5
  | mod => 6

/-- The operator that a lexeme is where an operator can stand. -/
def Lexeme.operator? : Lexeme → Option Operator
  | mark '=' => some .equal
  | mark '+' => some .plus
  | mark '-' => some .minus
  | atMost => some .atMost
  | atLeast => some .atLeast
  | name ['o', 'r'] => some .or
  | name ['a', 'n', 'd'] => some .and
  | name ['m', 'o', 'd'] => some .mod
  | _ => none

def Function.ofName? (name : String) : Option Function :=
  [Function.name, position, last, not, contains, startsWith, concat].find? fun f => f.text = name

namespace Expr

mutual

/-- Reads an expression of operators that bind at least as tight as `level`. -/
def read (fuel level : Nat) (lexemes : List Lexeme) : Option (Expr × List Lexeme) :=
  match fuel with
  | 0 => none
  | fuel + 1 => do
    let (operand, rest) ← readOperand fuel lexemes
    readOperators fuel level operand rest

/-- Reads on after `left` while operators bind at least as tight as `level`. -/
def readOperators (fuel level : Nat) (left : Expr) (lexemes : List Lexeme) :
    Option (Expr × List Lexeme) :=
  match fuel with
  | 0 => none
  | fuel + 1 =>
    match lexemes with
    | [] => some (left, [])
    | lexeme :: rest =>
      match lexeme.operator? with
      | none => some (left, lexeme :: rest)
      | some operator =>
        if operator.level < level then some (left, lexeme :: rest)
        else do
          let (right, rest) ← read fuel (operator.level + 1) rest
          readOperators fuel level (binary operator left right) rest

def readOperand (fuel : Nat) (lexemes : List Lexeme) : Option (Expr × List Lexeme) :=
  match fuel with
  | 0 => none
  | fuel + 1 =>
    match lexemes with
    | .literal quote text :: rest => some (literal quote (String.ofList text), rest)
    | .number value :: rest => some (number value, rest)
    | .mark '@' :: .name text :: rest => some (attr (String.ofList text), rest)
    | .mark '-' :: rest => do
      let (operand, rest) ← readOperand fuel rest
      return (negate operand, rest)
    | .mark '(' :: rest => do
      match ← read fuel 0 rest with
      | (inner, .mark ')' :: rest) => return (group inner, rest)
      | _ => none
    | .name text :: .mark '(' :: rest => do
      let function ← Function.ofName? (String.ofList text)
      let (arguments, rest) ← readArguments fuel rest
      return (call function arguments, rest)
    | _ => none

/-- Reads the arguments of a call from after its opening parenthesis. -/
def readArguments (fuel : Nat) (lexemes : List Lexeme) : Option (List Expr × List Lexeme) :=
  match fuel with
  | 0 => none
  | fuel + 1 =>
    match lexemes with
    | .mark ')' :: rest => some ([], rest)
    | _ => readList fuel lexemes

/-- Reads one or more arguments up to the closing parenthesis. -/
def readList (fuel : Nat) (lexemes : List Lexeme) : Option (List Expr × List Lexeme) :=
  match fuel with
  | 0 => none
  | fuel + 1 => do
    match ← read fuel 0 lexemes with
    | (argument, .mark ')' :: rest) => return ([argument], rest)
    | (argument, .mark ',' :: rest) =>
      let (arguments, rest) ← readList fuel rest
      return (argument :: arguments, rest)
    | _ => none

end

end Expr

/-- Reads the predicates of a step. -/
def Step.readPredicates (fuel : Nat) (lexemes : List Lexeme) :
    Option (List Expr × List Lexeme) :=
  match fuel with
  | 0 => none
  | fuel + 1 =>
    match lexemes with
    | .mark '[' :: rest => do
      match ← Expr.read fuel 0 rest with
      | (predicate, .mark ']' :: rest) =>
        let (predicates, rest) ← readPredicates fuel rest
        return (predicate :: predicates, rest)
      | _ => none
    | _ => some ([], lexemes)

/-- Reads an axis and the star that follows it. -/
def Axis.read : List Lexeme → Option (Axis × List Lexeme)
  | .mark '*' :: rest => some (child, rest)
  | .name text :: .axis :: .mark '*' :: rest =>
    if text = "descendant".toList then some (descendant, rest)
    else if text = "child".toList then some (child, rest)
    else none
  | _ => none

/-- Reads the steps of a path. -/
def Path.read (fuel : Nat) (lexemes : List Lexeme) : Option (Path × List Lexeme) :=
  match fuel with
  | 0 => none
  | fuel + 1 =>
    match lexemes with
    | .mark '/' :: rest => do
      let (axis, rest) ← Axis.read rest
      let (predicates, rest) ← Step.readPredicates fuel rest
      let (steps, rest) ← Path.read fuel rest
      return (⟨axis, predicates⟩ :: steps, rest)
    | _ => some ([], lexemes)

/-- Reads paths with at least one step and bars between them. -/
def Union.read (fuel : Nat) (lexemes : List Lexeme) : Option Union :=
  match fuel with
  | 0 => none
  | fuel + 1 => do
    match ← Path.read fuel lexemes with
    | ([], _) => none
    | (path, []) => return [path]
    | (path, .mark '|' :: rest) => return path :: (← Union.read fuel rest)
    | _ => none

/-- The fuel that reading lexemes needs at most. -/
def fuelFor (lexemes : List Lexeme) : Nat :=
  4 * lexemes.length + 4

/-- The expression that a whole text writes. -/
def Expr.parse? (text : String) : Option Expr := do
  let lexemes ← Lexeme.readAll text.toList
  match ← Expr.read (fuelFor lexemes) 0 lexemes with
  | (expr, []) => return expr
  | _ => none

/-- The query that a whole text writes. -/
def Union.parse? (text : String) : Option Union := do
  let lexemes ← Lexeme.readAll text.toList
  Union.read (fuelFor lexemes) lexemes

end SelectorPath.XPath
