/-! The arguments of the command. They are taken from left to right, and the first that asks for the
version or for help, or that is wrong, decides. Options may stand between selectors. -/

namespace SelectorPath.Command

inductive Flag where
  | json
  | compounds
  | plain
  deriving DecidableEq, Repr

/-- What an argument says by itself. -/
inductive Word where
  | selector (text : String)
  | flag (flag : Flag)
  /-- Asks for the selectors of a file. Its name is part of the argument, or the next argument. -/
  | file (name : Option String)
  | version
  | help
  /-- Everything that follows is a selector. -/
  | endOfOptions
  | unknown
  deriving DecidableEq, Repr

def Word.ofString (text : String) : Word :=
  match text with
  | "-" => selector text
  | "--" => endOfOptions
  | "--json" => flag .json
  | "--rules" => flag .compounds
  | "--no-color" => flag .plain
  | "--version" => version
  | "--help" => help
  | "--file" | "-f" => file none
  | _ =>
    match text.toList with
    | '-' :: '-' :: 'f' :: 'i' :: 'l' :: 'e' :: '=' :: name => file (some (String.ofList name))
    | '-' :: '-' :: _ => unknown
    | '-' :: 'f' :: '=' :: name => file (some (String.ofList name))
    | '-' :: 'f' :: name => file (some (String.ofList name))
    | '-' :: 'V' :: _ => version
    | '-' :: 'h' :: _ => help
    | '-' :: _ => unknown
    | _ => selector text

/-- Whether an argument can be the name of a file: it is not an option. -/
def Word.isFileName (text : String) : Bool :=
  match ofString text with
  | selector _ => true
  | _ => false

structure Options where
  selectors : List String := []
  file : Option String := none
  flags : List Flag := []
  deriving DecidableEq, Repr

namespace Options

/-- A flag is given at most once. -/
def withFlag? (options : Options) (flag : Flag) : Option Options :=
  if flag ∈ options.flags then none else some { options with flags := options.flags ++ [flag] }

/-- A file is given at most once, and has a name. -/
def withFile? (options : Options) (name : String) : Option Options :=
  if options.file.isSome ∨ name = "" then none else some { options with file := some name }

def withSelectors (options : Options) (selectors : List String) : Options :=
  { options with selectors := options.selectors ++ selectors }

end Options

inductive Request where
  | run (options : Options)
  | version
  | help
  /-- The arguments make no sense. -/
  | misuse
  deriving DecidableEq, Repr

namespace Request

/-- Runs with options that go together: selectors come from a file or from the arguments. -/
def ofOptions (options : Options) : Request :=
  if options.file.isSome ∧ options.selectors ≠ [] then misuse else run options

/-- Takes the arguments that follow those which gave `options`. -/
def take (options : Options) : List String → Request
  | [] => ofOptions options
  | argument :: rest =>
    match Word.ofString argument with
    | .selector text => take (options.withSelectors [text]) rest
    | .flag flag =>
      match options.withFlag? flag with
      | some options => take options rest
      | none => misuse
    | .file (some name) =>
      match options.withFile? name with
      | some options => take options rest
      | none => misuse
    | .file none =>
      match rest with
      | [] => misuse
      | name :: rest =>
        match Word.isFileName name, options.withFile? name with
        | true, some options => take options rest
        | _, _ => misuse
    | .version => version
    | .help => help
    | .endOfOptions => ofOptions (options.withSelectors rest)
    | .unknown => misuse

def ofArguments (arguments : List String) : Request :=
  take {} arguments

end Request

end SelectorPath.Command
