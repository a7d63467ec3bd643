import SelectorPath.Command.Arguments
import SelectorPath.Command.Input
import SelectorPath.Console
import SelectorPath.Listing
import SelectorPath.Query

/-! What the command prints. Each selector has an entry, and the entries make the report. One
console serves all selectors, and is cleared before each. -/

namespace SelectorPath.Command

/-- The standard output, the standard error and the exit status of a run. -/
structure Report where
  stdout : String := ""
  stderr : String := ""
  status : Nat := 0
  deriving DecidableEq, Repr

inductive Format where
  /-- The text of each query on a line. -/
  | lines
  /-- The queries, or the errors, as a JSON array. -/
  | json
  /-- The compounds of the selectors as a JSON array. -/
  | compounds
  deriving DecidableEq, Repr

/-- What a selector adds to a report: an output, if there is one, and text on standard error. -/
structure Entry (α : Type) where
  output : Option α
  stderr : String
  failed : Bool

namespace Entry

/-- The line that tells that a selector is refused. -/
def errorLine (colour : Bool) (selector : String) (error : SelectorError) : String :=
  Console.styled colour .bold (Console.styled colour .red "error") ++ ": " ++ selector ++ ": " ++
    error.message ++ "\n"

def queryLine (colour : Bool) (selector warnings : String) :
    Except SelectorError String → Entry String
  | .ok xpath => ⟨some (xpath ++ "\n"), warnings, false⟩
  | .error error => ⟨none, warnings ++ errorLine colour selector error, true⟩

/-- Errors are part of the output here. -/
def queryJson (selector warnings : String) : Except SelectorError String → Entry Json
  | .ok xpath =>
    ⟨some (.object [("selector", .string selector), ("xpath", .string xpath)]), warnings, false⟩
  | .error error =>
    ⟨some (.object [("selector", .string selector), ("error", .string error.message)]), warnings,
      true⟩

def compoundsJson (colour : Bool) (selector warnings : String) :
    Except SelectorError SelectorList → Entry Json
  | .ok members =>
    ⟨some (.object [("selector", .string selector),
      ("members", .array (members.map Selector.json))]), warnings, false⟩
  | .error error => ⟨none, warnings ++ errorLine colour selector error, true⟩

/-- The entry of an outcome, whose warnings are printed from an empty log. -/
def ofOutcome {α β : Type} (console : Console) (outcome : Outcome α)
    (entry : String → Except SelectorError α → Entry β) : Entry β × Console :=
  let (warnings, console) := console.clear.observe outcome
  (entry warnings outcome.result, console)

/-- The entries of selectors, of which `work` handles one. -/
def ofSelectors {α : Type} (work : Console → String → Entry α × Console) (console : Console) :
    List String → List (Entry α)
  | [] => []
  | selector :: rest =>
    let (entry, console) := work console selector
    entry :: ofSelectors work console rest

def lines (console : Console) (selector : String) : Entry String × Console :=
  ofOutcome console (xpath selector) (queryLine console.colour selector)

def json (console : Console) (selector : String) : Entry Json × Console :=
  ofOutcome console (xpath selector) (queryJson selector)

def compounds (console : Console) (selector : String) : Entry Json × Console :=
  ofOutcome console (SelectorList.parse selector) (compoundsJson console.colour selector)

end Entry

namespace Report

def ofEntries {α : Type} (render : List α → String) (entries : List (Entry α)) : Report where
  stdout := render (entries.filterMap Entry.output)
  stderr := String.join (entries.map Entry.stderr)
  status := if entries.any Entry.failed then 1 else 0

def renderJson (items : List Json) : String :=
  (Json.array items).pretty 0 ++ "\n"

def ofSelectors (format : Format) (colour : Bool) (selectors : List String) : Report :=
  let console : Console := { colour }
  match format with
  | .lines => ofEntries String.join (Entry.ofSelectors Entry.lines console selectors)
  | .json => ofEntries renderJson (Entry.ofSelectors Entry.json console selectors)
  | .compounds => ofEntries renderJson (Entry.ofSelectors Entry.compounds console selectors)

def ofReadFailure (source : Source) (failure : ReadFailure) : Report where
  stderr := "Error: failed to read selectors from " ++ source.name ++ "\n\nCaused by:\n    " ++
    failure.message ++ "\n"
  status := 1

def version : Report where
  stdout := "css2xpath 0.1.0\n"

/-- Help, or a complaint about the command line. Its words are not part of the report, only the
status is. -/
def wordless (status : Nat) : Report where
  status

end Report

namespace Options

def format (options : Options) : Format :=
  if .compounds ∈ options.flags then .compounds
  else if .json ∈ options.flags then .json
  else .lines

def colour (options : Options) : Bool :=
  .plain ∉ options.flags

/-- The source to read, unless the arguments have selectors. -/
def source? (options : Options) : Option Source :=
  match options.file with
  | some path => some (.file path)
  | none => if options.selectors = [] then some .standardInput else none

end Options

/-- The report of a run, where `contents` gives the bytes of a source. -/
def run (contents : Source → Except ReadFailure ByteArray) (options : Options) : Report :=
  match options.source? with
  | none => .ofSelectors options.format options.colour options.selectors
  | some source =>
    match contents source >>= selectorsOfBytes with
    | .ok selectors => .ofSelectors options.format options.colour selectors
    | .error failure => .ofReadFailure source failure

def respond (contents : Source → Except ReadFailure ByteArray) (arguments : List String) : Report :=
  match Request.ofArguments arguments with
  | .run options => run contents options
  | .version => .version
  | .help => .wordless 0
  | .misuse => .wordless 2

end SelectorPath.Command
