import SelectorPath.Proofs.Block.Grammar
import SelectorPath.Proofs.Token.Cut

/-! Where reading a selector fails. All that can be wrong with a selector is the first of its blocks
that is malformed: the text before the bracket of this block can be read, and what the error says is
true at the place to which its offset points. -/

namespace SelectorPath

open Text

/-! ### Faults of a block -/

namespace Block

/-- Blanks, a name and a gap: what stands in a block before its operator. -/
def Opens (inner : List Char) : Prop :=
  ∃ lead name gap, lead.all isBlank = true ∧ isName name = true ∧ Gap.Writes gap ∧
    inner = lead ++ name ++ gap

/-- After these an operator and blanks: what stands before the value. -/
def Compares (matching : Matching) (inner : List Char) : Prop :=
  ∃ opening blanks, Opens opening ∧ blanks.all isBlank = true ∧
    inner = opening ++ matching.operator.toList ++ blanks

/-- After these a value and blanks: what stands before the closing bracket. -/
def Fills (inner : List Char) : Prop :=
  ∃ matching comparison value content blanks, Compares matching comparison ∧
    BlockValue.Writes matching value content ∧ blanks.all isBlank = true ∧
    inner = comparison ++ value ++ blanks

end Block

/-- What a fault says of a block: it was met after `inner`, which follows the opening bracket, and
before `rest`. -/
def BlockFault.Holds (inner rest : List Char) : BlockFault → Prop
  | missingName => inner.all isBlank = true ∧ Stops Char.isAlpha rest
  | unknownOperator operator =>
    Block.Opens inner ∧ operator ≠ "" ∧ (∀ matching : Matching, operator ≠ matching.operator) ∧
      operator.toList.all Block.isOperatorSign = true ∧
      ∃ after, rest = operator.toList ++ after ∧ Stops Block.isOperatorSign after
  | unclosedQuote =>
    (∃ matching, Block.Compares matching inner) ∧
      ∃ (quote : Quote) (after : List Char), rest = quote.char :: after ∧ quote.char ∉ after
  | unclosedBlock found => Block.Fills inner ∧ found = rest.head? ∧ found ≠ some ']'

namespace Block

theorem fault_of_readName {cs : List Char} {halt : Halt} (h : readName cs = .error halt) :
    halt.fault = .missingName ∧ Stops Char.isAlpha cs := by
  unfold readName at h
  split at h
  · cases h
  · next hhead =>
    cases h
    refine ⟨rfl, fun c hc => ?_⟩
    rw [Option.mem_def.1 hc] at hhead
    simpa using hhead

theorem fault_of_readMatching {cs : List Char} {halt : Halt} (h : readMatching cs = .error halt) :
    ∃ operator : String, halt.fault = .unknownOperator operator ∧
      (∀ matching : Matching, operator ≠ matching.operator) ∧
      operator.toList.all isOperatorSign = true ∧
      ∃ after, cs = operator.toList ++ after ∧ Stops isOperatorSign after := by
  simp only [readMatching] at h
  split at h
  · cases h
  · next hnone =>
    cases h
    refine ⟨_, rfl, ?_, ?_, cs.dropWhile isOperatorSign, ?_, stops_dropWhile isOperatorSign cs⟩
    · intro matching heq
      rw [Matching.ofOperator?_eq_some_iff.2 heq] at hnone
      cases hnone
    · rw [String.toList_ofList]
      exact all_takeWhile isOperatorSign cs
    · rw [String.toList_ofList, List.takeWhile_append_dropWhile]

theorem fault_of_readValue {matching : Matching} {cs : List Char} {halt : Halt}
    (h : readValue matching cs = .error halt) :
    halt.fault = .unclosedQuote ∧
      ∃ (quote : Quote) (after : List Char), cs = quote.char :: after ∧ quote.char ∉ after := by
  unfold readValue at h
  split at h
  · cases h
  · next c cs =>
    split at h
    · next quote found =>
      unfold readQuoted at h
      split at h
      · next hnone =>
        cases h
        refine ⟨rfl, quote, cs, by rw [Quote.ofChar?_eq_some_iff.1 found], fun hmem => ?_⟩
        have hfree := List.dropWhile_eq_nil_iff.1 hnone _ hmem
        simp at hfree
      · cases h
    · cases h

theorem fault_of_readClose {cs : List Char} {halt : Halt} (h : readClose cs = .error halt) :
    halt.fault = .unclosedBlock cs.head? ∧ cs.head? ≠ some ']' := by
  unfold readClose at h
  split at h
  · cases h
    exact ⟨rfl, by simp⟩
  · split at h
    · cases h
    · next hclose =>
      cases h
      exact ⟨rfl, by simpa using hclose⟩

/-- A malformed block is spelled as it should be up to its fault. -/
theorem exists_holds_of_read {cs : List Char} {halt : Halt} (h : read cs = .error halt) :
    ∃ inner, inner ++ halt.rest = cs ∧ halt.fault.Holds inner halt.rest := by
  have hlead := List.takeWhile_append_dropWhile (p := isBlank) (l := cs)
  rcases stages_of_read_eq_error h with hname | ⟨name, afterName, hname, h⟩
  · obtain ⟨hfault, hstops⟩ := fault_of_readName hname
    rw [hfault, rest_of_readName hname]
    exact ⟨_, hlead, all_takeWhile isBlank cs, hstops⟩
  have hopens : Opens (cs.takeWhile isBlank ++ name ++ (Gap.read afterName).1.text) :=
    ⟨_, name, _, all_takeWhile isBlank cs, isName_of_readName hname,
      (Gap.spelled_read afterName).1.writes, rfl⟩
  have hopening : cs.takeWhile isBlank ++ name ++ (Gap.read afterName).1.text ++
      (Gap.read afterName).2 = cs := by
    rw [List.append_assoc, Gap.text_append_read, List.append_assoc, append_of_readName hname, hlead]
  rcases h with hmatching | ⟨matching, afterOperator, hmatching, h⟩
  · obtain ⟨operator, hfault, hunknown, hsigns⟩ := fault_of_readMatching hmatching
    rw [hfault, rest_of_readMatching hmatching]
    exact ⟨_, hopening, hopens, hunknown .present, hunknown, hsigns⟩
  generalize cs.takeWhile isBlank ++ name ++ (Gap.read afterName).1.text = opening at *
  have hcompares : Compares matching
      (opening ++ matching.operator.toList ++ afterOperator.takeWhile isBlank) :=
    ⟨opening, _, hopens, all_takeWhile isBlank afterOperator, rfl⟩
  have hcomparison : opening ++ matching.operator.toList ++ afterOperator.takeWhile isBlank ++
      afterOperator.dropWhile isBlank = cs := by
    rw [List.append_assoc, List.takeWhile_append_dropWhile, List.append_assoc,
      append_of_readMatching hmatching, hopening]
  rcases h with hvalue | ⟨value, afterValue, hvalue, hclose⟩
  · obtain ⟨hfault, hquote⟩ := fault_of_readValue hvalue
    rw [hfault, rest_of_readValue hvalue]
    exact ⟨_, hcomparison, ⟨matching, hcompares⟩, hquote⟩
  generalize opening ++ matching.operator.toList ++ afterOperator.takeWhile isBlank = comparison
    at *
  obtain ⟨hfault, hfound⟩ := fault_of_readClose hclose
  have hwrites := BlockValue.writes_iff.2 ⟨value, readable_of_readValue hvalue, rfl, rfl⟩
  rw [hfault, rest_of_readClose hclose]
  refine ⟨comparison ++ value.text ++ afterValue.takeWhile isBlank, ?_,
    ⟨matching, comparison, value.text, _, _, hcompares, hwrites, all_takeWhile isBlank afterValue,
      rfl⟩, rfl, hfound⟩
  rw [List.append_assoc, List.takeWhile_append_dropWhile, List.append_assoc,
    append_of_readValue hvalue, hcomparison]

end Block

/-! ### The text before a block -/

namespace Text

theorem trimEnd_concat (cs : List Char) (c : Char) :
    trimEnd (cs ++ [c]) = if isWhite c then trimEnd cs else cs ++ [c] := by
  cases hc : isWhite c with
  | false => exact trimEnd_of_endsDark ⟨cs, c, rfl, hc⟩
  | true =>
    induction cs with
    | nil => simp [trimEnd, hc]
    | cons d cs ih => rw [List.cons_append, trimEnd_cons, trimEnd_cons, ih]; rfl

theorem stops_trim (cs : List Char) : Stops isWhite (trim cs) := by
  have hstart := stops_dropWhile isWhite cs
  unfold trim
  cases hcs : cs.dropWhile isWhite with
  | nil => exact stops_nil _
  | cons c rest =>
    rw [hcs] at hstart
    rw [trimEnd_cons, stops_cons.1 hstart]
    simpa using hstart

end Text

/-- White space at the end can be cut off: it closes no block. -/
theorem Tokens.halt_read_trimEnd {cs : List Char} (h : (read cs).halt = none) :
    (read (trimEnd cs)).halt = none := by
  induction cs using List.reverseRecOn with
  | nil => exact h
  | append_singleton cs c ih =>
    rw [trimEnd_concat]
    cases hc : isWhite c with
    | false => exact h
    | true =>
      refine ih (halt_read_of_append ?_ h)
      rintro rfl
      exact absurd hc (by decide)

namespace Selector

/-- The start of a trimmed text can be read if it can be cut into tokens. -/
theorem exists_result_of_cuts {cs : List Char} {tokens : List Token} (hstart : Stops isWhite cs)
    (h : Tokens.Cuts [] tokens cs) : ∃ selector, (read cs).result = .ok selector := by
  have hhalt : (Tokens.read cs).halt = none := by rw [Tokens.read_eq_iff_cuts.2 h]
  have htrim : trim cs = trimEnd cs := by rw [trim, dropWhile_of_stops hstart]
  refine ⟨_, result_read_eq_ok_iff.2 ⟨?_, rfl⟩⟩
  rw [htrim]
  exact Tokens.halt_read_trimEnd hhalt

/-- An error is about the first malformed block. The text before its bracket is cut into tokens that
leave the bracket alone, and can be read as a selector; no block starts with the bracket; and the
offset is that of a place inside of the block at which the fault holds. -/
theorem parse_error_of_first_block {text : String} {error : SelectorError}
    (h : (parse text).result = .error error) :
    ∃ fault before inner rest,
      error = .block fault (byteSize (before ++ '[' :: inner)) ∧
      trim text.toList = before ++ '[' :: inner ++ rest ∧
      fault.Holds inner rest ∧
      (∃ tokens, Tokens.Cuts ('[' :: inner ++ rest) tokens (trim text.toList)) ∧
      (∀ block after test, Block.Writes block test → block ++ after ≠ '[' :: inner ++ rest) ∧
      ∃ selector, (parse (String.ofList before)).result = .ok selector := by
  obtain ⟨halt, hhalt, rfl⟩ := result_read_eq_error_iff.1 h
  obtain ⟨after, hcuts, hblock⟩ := Tokens.exists_cuts_of_halt hhalt
  obtain ⟨inner, rfl, hholds⟩ := Block.exists_holds_of_read hblock
  let before := (Tokens.read (trim text.toList)).list.flatMap Token.text
  have htext : trim text.toList = before ++ '[' :: inner ++ halt.rest := by
    rw [← hcuts.text_append, List.append_assoc, List.cons_append]
  have hstart : Stops isWhite before := by
    have htrim := stops_trim text.toList
    rw [htext, List.append_assoc] at htrim
    exact htrim.of_append
  refine ⟨halt.fault, before, inner, halt.rest, ?_, htext, hholds, ⟨_, hcuts⟩, ?_, ?_⟩
  · rw [htext, offsetOf_append]
  · intro block after test hwrites happend
    rw [List.cons_append] at happend
    obtain ⟨_, hread, _⟩ := Block.exists_read_iff.2 ⟨hwrites, happend⟩
    rw [hblock] at hread
    cases hread
  · rw [parse, String.toList_ofList]
    exact exists_result_of_cuts hstart hcuts.alone

/-- The name of the second block is missing after characters of two and three bytes. -/
theorem parse_error_of_first_block_name :
    let text := " ä[b='€'] [ 1]"
    let error := SelectorError.block .missingName 14
    (parse text).result = .error error ∧
      ∃ fault before inner rest,
        error = .block fault (byteSize (before ++ '[' :: inner)) ∧
        trim text.toList = before ++ '[' :: inner ++ rest ∧
        fault.Holds inner rest ∧
        (∃ tokens, Tokens.Cuts ('[' :: inner ++ rest) tokens (trim text.toList)) ∧
        (∀ block after test, Block.Writes block test → block ++ after ≠ '[' :: inner ++ rest) ∧
        ∃ selector, (parse (String.ofList before)).result = .ok selector := by
  intro text error
  have herror : (parse text).result = .error error := by cbv
  exact ⟨herror, parse_error_of_first_block herror⟩

end Selector

end SelectorPath
