import SelectorPath.Outcome

/-! A console prints a warning unless its log contains it. Printing is a value here: each operation
gives the text that it adds to standard error. -/

namespace SelectorPath

/-- The text style of terminal output. -/
structure Style where
  start : String
  stop : String

namespace Style

def yellow : Style := ⟨"\x1b[33m", "\x1b[39m"⟩

def red : Style := ⟨"\x1b[31m", "\x1b[39m"⟩

def bold : Style := ⟨"\x1b[1m", "\x1b[0m"⟩

def apply (style : Style) (text : String) : String :=
  style.start ++ text ++ style.stop

end Style

structure Console where
  log : Log := {}
  colour : Bool := false

namespace Console

/-- A text in a style, if the console has colour. -/
def styled (colour : Bool) (style : Style) (text : String) : String :=
  if colour then style.apply text else text

/-- The text that shows a warning, closed by a line feed. It takes more than one line if the warning
itself has a line feed. -/
def line (colour : Bool) (warning : Warning) : String :=
  styled colour .yellow s!"[css2xpath {warning.component}] ⚠ {warning.message}" ++ "\n"

/-- The number of lines in printed text, each of which ends with a line feed. -/
def lineCount (printed : String) : Nat :=
  printed.toList.count '\n'

theorem lineCount_append (first second : String) :
    lineCount (first ++ second) = lineCount first + lineCount second := by
  simp [lineCount]

/-- Shows a warning that the log does not contain; gives the text printed. -/
def warn (console : Console) (warning : Warning) : String × Console :=
  if console.log.contains warning then ("", console)
  else (line console.colour warning, { console with log := console.log.insert warning })

def warnAll (console : Console) : List Warning → String × Console
  | [] => ("", console)
  | warning :: rest =>
    let (text, console) := console.warn warning
    let (texts, console) := console.warnAll rest
    (text ++ texts, console)

/-- Shows the warnings of an outcome. -/
def observe {α : Type} (console : Console) (outcome : Outcome α) : String × Console :=
  console.warnAll outcome.warnings

/-- Forgets all warnings. -/
def clear (console : Console) : Console :=
  { console with log := {} }

end Console

end SelectorPath
