import SelectorPath.Block
import SelectorPath.Outcome
import SelectorPath.Text.Size

/-! Tokens: the gaps, simple selectors and stray characters of one member of a selector list. A
token keeps its spelling, so the texts of the tokens put together give the text that was read. -/

namespace SelectorPath

open Text

/-- The argument of a pseudo-class as it is written: the text inside its parentheses, and whether
the last one is there. -/
structure Argument where
  text : List Char
  closed : Bool
  deriving DecidableEq, Repr

namespace Argument

def spelling (argument : Argument) : List Char :=
  '(' :: (argument.text ++ if argument.closed then [')'] else [])

def cons (c : Char) (argument : Argument) : Argument :=
  { argument with text := c :: argument.text }

/-- Reads an argument from after its opening parenthesis, `depth` parentheses deep. Only parentheses
count: a quote does not hide them. -/
def read (depth : Nat) : List Char → Argument × List Char
  | [] => (⟨[], false⟩, [])
  | '(' :: cs => let (argument, rest) := read (depth + 1) cs; (argument.cons '(', rest)
  | ')' :: cs =>
    match depth with
    | 0 => (⟨[], true⟩, cs)
    | depth + 1 => let (argument, rest) := read depth cs; (argument.cons ')', rest)
  | c :: cs => let (argument, rest) := read depth cs; (argument.cons c, rest)

theorem spelling_append_read (depth : Nat) (cs : List Char) :
    (read depth cs).1.spelling ++ (read depth cs).2 = '(' :: cs := by
  fun_induction read depth cs with
  | case1 => rfl
  | case3 => rfl
  | case2 | case4 | case5 => grind [spelling, cons]

end Argument

/-- A simple selector as it is written. -/
inductive SimpleSelector where
  | universal
  | element (name : List Char)
  | shorthand (kind : Shorthand) (value : List Char)
  | block (spelling : Block)
  | pseudo (name : List Char) (argument : Option Argument)
  deriving DecidableEq, Repr

namespace SimpleSelector

def text : SimpleSelector → List Char
  | universal => ['*']
  | element name => name
  | shorthand kind value => kind.symbol :: value
  | block spelling => spelling.text
  | pseudo name none => ':' :: name
  | pseudo name (some argument) => ':' :: (name ++ argument.spelling)

/-- Adds what a simple selector asks to a compound. A second element name replaces the first. -/
def addTo (compound : Compound) : SimpleSelector → Compound
  | universal => compound
  | element name => compound.named (String.ofList name)
  | shorthand kind value => compound.addAttribute (kind.test (String.ofList value))
  | block spelling => compound.addAttribute spelling.test
  | pseudo name argument =>
    compound.addPseudo ⟨String.ofList name, argument.map fun a => String.ofList a.text⟩

def isPseudoLetter (c : Char) : Bool :=
  c.isLower || c == '-'

/-- Reads a pseudo-class from after its colon. -/
def readPseudo (cs : List Char) : SimpleSelector × List Char :=
  let name := cs.takeWhile isPseudoLetter
  match cs.dropWhile isPseudoLetter with
  | '(' :: rest =>
    let (argument, rest) := Argument.read 0 rest
    (pseudo name (some argument), rest)
  | rest => (pseudo name none, rest)

theorem exists_text_readPseudo (cs : List Char) :
    ∃ tail, (readPseudo cs).1.text = ':' :: tail ∧ tail ++ (readPseudo cs).2 = cs := by
  have whole := List.takeWhile_append_dropWhile (p := isPseudoLetter) (l := cs)
  unfold readPseudo
  split
  · next rest h =>
    rw [h, ← Argument.spelling_append_read 0 rest, ← List.append_assoc] at whole
    exact ⟨_, rfl, whole⟩
  · exact ⟨_, rfl, whole⟩

end SimpleSelector

inductive Token where
  | gap (spelling : Gap)
  | simple (selector : SimpleSelector)
  /-- A character that starts nothing. -/
  | stray (char : Char)
  deriving DecidableEq, Repr

namespace Token

def text : Token → List Char
  | gap spelling => spelling.text
  | simple selector => selector.text
  | stray char => [char]

/-- Reads the token that starts with `c`. -/
def read (c : Char) (cs : List Char) : Except Halt (Token × List Char) :=
  match Shorthand.ofSymbol? c with
  | some shorthand => .ok (simple (.shorthand shorthand (cs.takeWhile isWord)), cs.dropWhile isWord)
  | none =>
    if c.isAlpha then .ok (simple (.element (c :: cs.takeWhile isWord)), cs.dropWhile isWord)
    else if c = '*' then .ok (simple .universal, cs)
    else if c = ':' then
      let (pseudo, rest) := SimpleSelector.readPseudo cs
      .ok (simple pseudo, rest)
    else if c = '[' then do
      let (block, rest) ← Block.read cs
      return (simple (.block block), rest)
    else if Gap.starts c then
      let (spelling, rest) := Gap.read (c :: cs)
      .ok (gap spelling, rest)
    else .ok (stray c, cs)

/-- The text of the token starts with `c`, and the rest follows it. -/
theorem exists_text_of_read {c : Char} {cs rest : List Char} {token : Token}
    (h : read c cs = .ok (token, rest)) : ∃ tail, token.text = c :: tail ∧ tail ++ rest = cs := by
  unfold read at h
  split at h
  · next kind found =>
    cases h
    refine ⟨cs.takeWhile isWord, ?_, List.takeWhile_append_dropWhile⟩
    rw [Shorthand.ofSymbol?_eq_some_iff.1 found]
    rfl
  · split at h
    · cases h
      exact ⟨cs.takeWhile isWord, rfl, List.takeWhile_append_dropWhile⟩
    · split at h
      · next star =>
        cases h
        exact ⟨[], by rw [star]; rfl, rfl⟩
      · split at h
        · next colon =>
          cases h
          rw [colon]
          exact SimpleSelector.exists_text_readPseudo cs
        · split at h
          · next bracket =>
            simp only [bind, Except.bind] at h
            split at h
            · cases h
            · next found =>
              cases h
              exact ⟨_, by rw [bracket]; rfl, Block.inner_append_of_read found⟩
          · split at h
            · next starts =>
              cases h
              exact Gap.exists_text_read starts
            · cases h
              exact ⟨[], rfl, rfl⟩

theorem text_append_of_read {c : Char} {cs rest : List Char} {token : Token}
    (h : read c cs = .ok (token, rest)) : token.text ++ rest = c :: cs := by
  obtain ⟨tail, text, append⟩ := exists_text_of_read h
  rw [text, List.cons_append, append]

/-- Reading a token uses up some of the text. -/
theorem length_lt_of_read {c : Char} {cs rest : List Char} {token : Token}
    (h : read c cs = .ok (token, rest)) : rest.length < (c :: cs).length := by
  obtain ⟨tail, _, append⟩ := exists_text_of_read h
  rw [← append, List.length_cons, List.length_append]
  omega

end Token

/-- The tokens of a text up to its end, or up to a malformed block. -/
structure Tokens where
  list : List Token
  halt : Option Halt
  deriving DecidableEq, Repr

namespace Tokens

def cons (token : Token) (tokens : Tokens) : Tokens :=
  { tokens with list := token :: tokens.list }

def read (cs : List Char) : Tokens :=
  match cs with
  | [] => ⟨[], none⟩
  | c :: cs =>
    match h : Token.read c cs with
    | .error halt => ⟨[], some halt⟩
    | .ok (token, rest) =>
      have := Token.length_lt_of_read h
      (read rest).cons token
termination_by cs.length
decreasing_by exact this

/-- The oddity of a token that starts at an offset. -/
def oddity? (offset : Nat) : Token → Option Oddity
  | .stray char => some (.stray char offset)
  | .simple (.pseudo name (some argument)) =>
    if argument.closed then none
    else some (.unclosedArgument (String.ofList name) (offset + byteSize (':' :: (name ++ ['(']))))
  | _ => none

/-- The oddities of tokens of which the first starts at an offset. -/
def oddities (offset : Nat) : List Token → List Oddity
  | [] => []
  | token :: tokens =>
    (oddity? offset token).toList ++ oddities (offset + byteSize token.text) tokens

/-- The tokens of what stands at an offset of a whole text, with what is odd about them. -/
def outcome (whole : List Char) (offset : Nat) (cs : List Char) : Outcome (List Token) :=
  let tokens := read cs
  { oddities := oddities offset tokens.list
    result := match tokens.halt with
      | none => .ok tokens.list
      | some halt => .error (.block halt.fault (offsetOf whole halt.rest)) }

end Tokens

end SelectorPath
