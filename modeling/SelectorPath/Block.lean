import SelectorPath.Error
import SelectorPath.Gap
import SelectorPath.Quote
import SelectorPath.Text.Word

/-! Attribute blocks such as `[name op value]`. A block keeps all of its spelling, so that its text
can be given back; `test` is what it asks. Reading can fail, and a failure keeps the text that was
still to be read, from which its offset follows. -/

namespace SelectorPath

open Text

/-- The value of an attribute block as it is written. -/
inductive BlockValue where
  | absent
  | bare (text : List Char)
  | quoted (quote : Quote) (text : List Char)
  deriving DecidableEq, Repr

namespace BlockValue

def text : BlockValue → List Char
  | absent => []
  | bare text => text
  | quoted quote text => quote.enclose text

def content : BlockValue → Option String
  | absent => none
  | bare text => some (String.ofList text)
  | quoted _ text => some (String.ofList text)

end BlockValue

/-- An attribute block as it is written. -/
structure Block where
  /-- The blanks before the name. -/
  lead : List Char
  name : List Char
  /-- A gap may stand between name and operator; a `>` in it means nothing. -/
  gap : Gap
  matching : Matching
  /-- The blanks between operator and value. -/
  before : List Char
  value : BlockValue
  /-- The blanks after the value. -/
  after : List Char
  deriving DecidableEq, Repr

/-- A fault, and the text before which it was met. -/
structure Halt where
  fault : BlockFault
  rest : List Char
  deriving DecidableEq, Repr

namespace Block

/-- The text of a block after its opening bracket. -/
def inner (block : Block) : List Char :=
  block.lead ++ block.name ++ block.gap.text ++ block.matching.operator.toList ++
    block.before ++ block.value.text ++ block.after ++ [']']

def text (block : Block) : List Char :=
  '[' :: block.inner

def test (block : Block) : AttributeTest :=
  ⟨String.ofList block.name, block.matching, block.value.content⟩

def isOperatorSign (c : Char) : Bool :=
  c == '!' || c == '=' || c == '^' || c == '$' || c == '*' || c == '|' || c == '~'

/-! ### Reading -/

def readName (cs : List Char) : Except Halt (List Char × List Char) :=
  if cs.head?.any Char.isAlpha then .ok (cs.takeWhile isWord, cs.dropWhile isWord)
  else .error ⟨.missingName, cs⟩

/-- Reads the longest run of operator signs, which has to be an operator. -/
def readMatching (cs : List Char) : Except Halt (Matching × List Char) :=
  let operator := String.ofList (cs.takeWhile isOperatorSign)
  match Matching.ofOperator? operator with
  | some matching => .ok (matching, cs.dropWhile isOperatorSign)
  | none => .error ⟨.unknownOperator operator, cs⟩

/-- Reads a quoted value from after its opening mark; `whole` starts at the mark. -/
def readQuoted (quote : Quote) (whole cs : List Char) : Except Halt (BlockValue × List Char) :=
  match cs.dropWhile (· != quote.char) with
  | [] => .error ⟨.unclosedQuote, whole⟩
  | _ :: rest => .ok (.quoted quote (cs.takeWhile (· != quote.char)), rest)

/-- Reads a value without quotes, which a test for presence does not have. -/
def readBare (matching : Matching) (cs : List Char) : BlockValue × List Char :=
  if matching = .present then (.absent, cs)
  else (.bare (cs.takeWhile isWord), cs.dropWhile isWord)

def readValue (matching : Matching) : List Char → Except Halt (BlockValue × List Char)
  | [] => .ok (readBare matching [])
  | c :: cs =>
    match Quote.ofChar? c with
    | some quote => readQuoted quote (c :: cs) cs
    | none => .ok (readBare matching (c :: cs))

def readClose : List Char → Except Halt (List Char)
  | [] => .error ⟨.unclosedBlock none, []⟩
  | c :: cs => if c = ']' then .ok cs else .error ⟨.unclosedBlock (some c), c :: cs⟩

/-- Reads a block from after its opening bracket. -/
def read (cs : List Char) : Except Halt (Block × List Char) := do
  let lead := cs.takeWhile isBlank
  let (name, cs) ← readName (cs.dropWhile isBlank)
  let (gap, cs) := Gap.read cs
  let (matching, cs) ← readMatching cs
  let before := cs.takeWhile isBlank
  let (value, cs) ← readValue matching (cs.dropWhile isBlank)
  let after := cs.takeWhile isBlank
  let rest ← readClose (cs.dropWhile isBlank)
  return (⟨lead, name, gap, matching, before, value, after⟩, rest)

/-! ### Nothing is lost -/

theorem append_of_readName {cs name rest : List Char} (h : readName cs = .ok (name, rest)) :
    name ++ rest = cs := by
  unfold readName at h
  split at h
  · cases h
    exact List.takeWhile_append_dropWhile
  · cases h

theorem append_of_readMatching {cs rest : List Char} {matching : Matching}
    (h : readMatching cs = .ok (matching, rest)) : matching.operator.toList ++ rest = cs := by
  simp only [readMatching] at h
  split at h
  · next found =>
    cases h
    rw [← Matching.ofOperator?_eq_some_iff.1 found, String.toList_ofList]
    exact List.takeWhile_append_dropWhile
  · cases h

theorem append_readBare (matching : Matching) (cs : List Char) :
    (readBare matching cs).1.text ++ (readBare matching cs).2 = cs := by
  unfold readBare
  split
  · rfl
  · exact List.takeWhile_append_dropWhile

theorem append_of_readQuoted {quote : Quote} {whole cs rest : List Char} {value : BlockValue}
    (h : readQuoted quote whole cs = .ok (value, rest)) :
    value.text ++ rest = quote.char :: cs := by
  unfold readQuoted at h
  split at h
  · cases h
  · next c rest stopped =>
    cases h
    have mark : c = quote.char := by
      have := List.head?_dropWhile_not (· != quote.char) cs
      simpa [stopped] using this
    have whole := List.takeWhile_append_dropWhile (p := (· != quote.char)) (l := cs)
    rw [stopped, mark] at whole
    simpa [BlockValue.text, Quote.enclose] using whole

theorem append_of_readValue {matching : Matching} {cs rest : List Char} {value : BlockValue}
    (h : readValue matching cs = .ok (value, rest)) : value.text ++ rest = cs := by
  unfold readValue at h
  split at h
  · have bare := append_readBare matching []
    rwa [Except.ok.inj h] at bare
  · next c cs =>
    split at h
    · next quote found =>
      rw [append_of_readQuoted h, ← Quote.ofChar?_eq_some_iff.1 found]
    · have bare := append_readBare matching (c :: cs)
      rwa [Except.ok.inj h] at bare

theorem append_of_readClose {cs rest : List Char} (h : readClose cs = .ok rest) :
    ']' :: rest = cs := by
  unfold readClose at h
  split at h
  · cases h
  · split at h
    · next close =>
      cases h
      rw [close]
    · cases h

theorem inner_append_of_read {cs rest : List Char} {block : Block}
    (h : read cs = .ok (block, rest)) : block.inner ++ rest = cs := by
  unfold read at h
  simp only [bind, Except.bind] at h
  split at h
  · cases h
  · next readName_eq =>
    have name := append_of_readName readName_eq
    split at h
    · cases h
    · next readMatching_eq =>
      have matching := append_of_readMatching readMatching_eq
      split at h
      · cases h
      · next readValue_eq =>
        have value := append_of_readValue readValue_eq
        split at h
        · cases h
        · next readClose_eq =>
          have close := append_of_readClose readClose_eq
          cases h
          simp only [inner, List.append_assoc, List.singleton_append, close,
            List.takeWhile_append_dropWhile, value, matching, Gap.text_append_read, name]

end Block

end SelectorPath
