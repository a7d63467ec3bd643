import SelectorPath.Compound

/-! Why a selector is refused. Reading fails only in an attribute block, at an offset; everything
else is refused when the compounds are stated as XPath. -/

namespace SelectorPath

/-- What is wrong with an attribute block. -/
inductive BlockFault where
  | missingName
  | unknownOperator (operator : String)
  | unclosedQuote
  /-- The character found where the closing bracket should be, if the text goes on. -/
  | unclosedBlock (found : Option Char)
  deriving DecidableEq, Repr

inductive SelectorError where
  /-- A malformed attribute block; the offset counts bytes of the trimmed member. -/
  | block (fault : BlockFault) (offset : Nat)
  | unknownPseudo (name : String)
  | missingArgument (pseudo : PseudoClass)
  | invalidFormula (argument : String)
  | invalidNegation (argument : String)
  | negationTooDeep (limit : Nat)
  deriving DecidableEq, Repr

def BlockFault.message (fault : BlockFault) (offset : Nat) : String :=
  match fault with
  | missingName => s!"Attribute name expected at offset {offset}"
  | unknownOperator operator => s!"Unrecognized matcher at offset {offset}: '{operator}'"
  | unclosedQuote => s!"Unterminated attribute value starting at offset {offset}"
  | unclosedBlock found =>
    let text := String.ofList found.toList
    s!"']' expected at offset {offset}, was '{text}'"

def SelectorError.message : SelectorError → String
  | block fault offset => fault.message offset
  | unknownPseudo name => s!"Unrecognized pseudo selector '{name}'"
  | missingArgument pseudo => s!"Pseudo selector '{pseudo.name}' requires an argument"
  | invalidFormula argument => s!"Invalid nth-child argument '{argument}'"
  | invalidNegation argument => s!"':not()' expects a simple selector, got '{argument}'"
  | negationTooDeep limit => s!"':not()' nested more than {limit} levels deep"

end SelectorPath
