import SelectorPath.Text.Blank
import SelectorPath.Text.Split

/-! Selectors from the lines of a file or of standard input. -/

namespace SelectorPath.Command

open Text

inductive Source where
  | file (path : String)
  | standardInput
  deriving DecidableEq, Repr

/-- The name of a source in messages. -/
def Source.name : Source → String
  | file path => path
  | standardInput => "stdin"

/-- Why the selectors of a source cannot be had. -/
inductive ReadFailure where
  | notFound
  | isDirectory
  | invalidText
  /-- Another refusal of the system, in its words. -/
  | refused (reason : String)
  deriving DecidableEq, Repr

def ReadFailure.message : ReadFailure → String
  | notFound => "No such file or directory (os error 2)"
  | isDirectory => "Is a directory (os error 21)"
  | invalidText => "stream did not contain valid UTF-8"
  | refused reason => reason

/-- Drops a carriage return at the end of a line. -/
def dropReturn (line : List Char) : List Char :=
  if line.getLast? = some '\r' then line.dropLast else line

/-- The lines of a text. A line ends with a line feed, and a carriage return before it is part of
the line end; what follows the last line feed is a line as it stands. -/
def lines (cs : List Char) : List (List Char) :=
  let pieces := splitOn '\n' cs
  pieces.dropLast.map dropReturn ++ pieces.getLast?.toList

/-- The lines of a text that are not blank. -/
def selectorLines (text : String) : List String :=
  ((lines text.toList).filter fun line => !isAllWhite line).map String.ofList

/-- The selectors in the bytes of a source. -/
def selectorsOfBytes (bytes : ByteArray) : Except ReadFailure (List String) :=
  match String.fromUTF8? bytes with
  | some text => .ok (selectorLines text)
  | none => .error .invalidText

end SelectorPath.Command
