import SelectorPath.Proofs.Argument

/-! Which texts are attribute blocks. The parts of a block are runs of different classes, so a block
can be read exactly if its parts are spelled as they should be, whatever comes after its closing
bracket; and where a text is no block, the fault is met inside of it. -/

namespace SelectorPath

open Text

/-! ### Names and words -/

namespace Text

theorem isName_takeWhile {cs : List Char} (h : cs.head?.any Char.isAlpha = true) :
    isName (cs.takeWhile isWord) = true := by
  cases cs with
  | nil => cases h
  | cons c cs =>
    have hc : c.isAlpha = true := h
    rw [List.takeWhile_cons_of_pos (isWord_of_isAlpha hc), isName, hc, all_takeWhile]
    rfl

theorem all_isWord_of_isName {cs : List Char} (h : isName cs = true) : cs.all isWord = true := by
  cases cs with
  | nil => rfl
  | cons c cs =>
    simp only [isName, Bool.and_eq_true] at h
    rw [List.all_cons, isWord_of_isAlpha h.1, h.2]
    rfl

theorem isWhite_eq_false_of_isWord {c : Char} (h : isWord c = true) : isWhite c = false := by
  have hrange : 45 ≤ c.toNat ∧ c.toNat ≤ 122 := by
    simp only [isWord, Char.isAlphanum, Char.isAlpha, Char.isUpper, Char.isLower, Char.isDigit,
      ge_iff_le, UInt32.le_iff_toNat_le, Bool.or_eq_true, Bool.and_eq_true, decide_eq_true_eq,
      beq_iff_eq] at h
    rcases h with (h | rfl) | rfl
    · have hval : c.toNat = c.val.toNat := rfl
      simp only [Char.reduceVal, UInt32.reduceToNat] at h
      omega
    · decide
    · decide
  simp [isWhite]
  omega

theorem isBlank_eq_false_of_isWord {c : Char} (h : isWord c = true) : isBlank c = false := by
  by_contra hblank
  have hwhite := isWhite_of_isBlank (Bool.not_eq_false _ ▸ hblank)
  rw [isWhite_eq_false_of_isWord h] at hwhite
  cases hwhite

theorem stops_of_isName {p : Char → Bool} {cs : List Char} (h : isName cs = true)
    (hp : ∀ c, isWord c = true → p c = false) (rest : List Char) : Stops p (cs ++ rest) := by
  cases cs with
  | nil => cases h
  | cons c cs =>
    simp only [isName, Bool.and_eq_true] at h
    exact stops_cons.2 (hp c (isWord_of_isAlpha h.1))

theorem isAlpha_head_of_isName {cs : List Char} (h : isName cs = true) (rest : List Char) :
    (cs ++ rest).head?.any Char.isAlpha = true := by
  cases cs with
  | nil => cases h
  | cons c cs =>
    simp only [isName, Bool.and_eq_true] at h
    simpa using h.1

end Text

/-! ### Gaps -/

namespace Gap

structure Spelled (gap : Gap) : Prop where
  before : gap.before.all isBlank = true
  after : ∀ after ∈ gap.after, after.all isBlank = true

/-- What may come after a gap: it goes on with blanks, and with a `>` if it has none so far. -/
def EndsBefore (gap : Gap) (rest : List Char) : Prop :=
  match gap.after with
  | none => Stops starts rest
  | some _ => Stops isBlank rest

theorem spelled_read (cs : List Char) :
    (read cs).1.Spelled ∧ (read cs).1.EndsBefore (read cs).2 := by
  unfold read
  split
  · refine ⟨⟨all_takeWhile isBlank cs, ?_⟩, stops_dropWhile isBlank _⟩
    rintro after ⟨⟩
    exact all_takeWhile isBlank _
  · next hnot =>
    refine ⟨⟨all_takeWhile isBlank cs, by simp⟩, ?_⟩
    intro c hc
    have hblank := stops_dropWhile isBlank cs c hc
    have harrow : c ≠ '>' := by
      rintro rfl
      obtain ⟨tail, htail⟩ := List.head?_eq_some_iff.1 hc
      exact hnot tail htail
    simp [starts, hblank, harrow]

theorem EndsBefore.stops_isBlank {gap : Gap} {rest : List Char} (h : gap.EndsBefore rest) :
    Stops isBlank rest := by
  unfold EndsBefore at h
  split at h
  · exact h.mono fun c hc => by simp [starts, hc]
  · exact h

theorem endsBefore_of_stops (gap : Gap) {rest : List Char} (h : Stops starts rest) :
    gap.EndsBefore rest := by
  unfold EndsBefore
  split
  · exact h
  · exact h.mono fun c hc => by simp [starts, hc]

/-- A gap is read exactly from its own text, if it ends before the rest. -/
theorem read_eq_iff {cs rest : List Char} {gap : Gap} :
    read cs = (gap, rest) ↔ gap.Spelled ∧ gap.EndsBefore rest ∧ gap.text ++ rest = cs := by
  constructor
  · intro h
    have hspelled := spelled_read cs
    have htext := text_append_read cs
    rw [h] at hspelled htext
    exact ⟨hspelled.1, hspelled.2, htext⟩
  · rintro ⟨hspelled, hends, rfl⟩
    have hblank := hends.stops_isBlank
    obtain ⟨before, after⟩ := gap
    cases after with
    | none =>
      simp only [text, List.append_nil, read, takeWhile_run hspelled.before hblank,
        dropWhile_run hspelled.before hblank]
      split
      · cases hends '>' rfl
      · rfl
    | some after =>
      have hafter := hspelled.after after rfl
      have harrow : Stops isBlank ('>' :: (after ++ rest)) := stops_cons.2 (by decide)
      simp only [text, List.append_assoc, List.cons_append, read,
        takeWhile_run hspelled.before harrow, dropWhile_run hspelled.before harrow,
        takeWhile_run hafter hblank, dropWhile_run hafter hblank]

theorem starts_eq_false_of_isWord {c : Char} (h : isWord c = true) : starts c = false := by
  rw [starts, isBlank_eq_false_of_isWord h, Bool.false_or]
  by_contra hc
  have hgt : c = '>' := by simpa using hc
  rw [hgt] at h
  exact absurd h (by decide)

theorem exists_text_cons {gap : Gap} (h : gap.Spelled) (hne : gap.text ≠ []) :
    ∃ c cs, gap.text = c :: cs ∧ starts c = true := by
  obtain ⟨before, after⟩ := gap
  cases before with
  | nil =>
    cases after with
    | none => exact absurd rfl hne
    | some after => exact ⟨'>', after, rfl, rfl⟩
  | cons c before =>
    have hc := List.all_eq_true.1 h.before c List.mem_cons_self
    exact ⟨c, _, rfl, by rw [starts, hc, Bool.true_or]⟩

end Gap

/-! ### Parts of a block -/

/-- How a value can be written after an operator. A test for presence has none but a quoted one. -/
def BlockValue.Readable (matching : Matching) : BlockValue → Prop
  | absent => matching = .present
  | bare text => matching ≠ .present ∧ text.all isWord = true
  | quoted quote text => quote.char ∉ text

/-- A block that is what is read from its text. Blanks belong to the first part that can take
them. -/
structure Block.Readable (block : Block) : Prop where
  lead : block.lead.all isBlank = true
  name : isName block.name = true
  gap : block.gap.Spelled
  before : block.before.all isBlank = true
  before_nil : block.matching = .present → block.before = []
  value : block.value.Readable block.matching
  after : block.after.all isBlank = true
  after_nil : block.value.text = [] → block.after = []

namespace Block

/-! ### Stages -/

/-- The stages of reading a block, each from where the one before it stopped. -/
theorem stages_of_read {cs rest : List Char} {block : Block} (h : read cs = .ok (block, rest)) :
    ∃ afterName afterOperator afterValue,
      readName (cs.dropWhile isBlank) = .ok (block.name, afterName) ∧
      readMatching (Gap.read afterName).2 = .ok (block.matching, afterOperator) ∧
      readValue block.matching (afterOperator.dropWhile isBlank) =
        .ok (block.value, afterValue) ∧
      readClose (afterValue.dropWhile isBlank) = .ok rest := by
  unfold read at h
  simp only [bind, Except.bind] at h
  split at h
  · cases h
  · next hname =>
    split at h
    · cases h
    · next hmatching =>
      split at h
      · cases h
      · next hvalue =>
        split at h
        · cases h
        · next hclose =>
          cases h
          exact ⟨_, _, _, hname, hmatching, hvalue, hclose⟩

/-- A block can be read if each of its stages can. -/
theorem read_of_stages {cs name afterName afterOperator afterValue rest : List Char}
    {matching : Matching} {value : BlockValue}
    (hname : readName (cs.dropWhile isBlank) = .ok (name, afterName))
    (hmatching : readMatching (Gap.read afterName).2 = .ok (matching, afterOperator))
    (hvalue : readValue matching (afterOperator.dropWhile isBlank) = .ok (value, afterValue))
    (hclose : readClose (afterValue.dropWhile isBlank) = .ok rest) :
    read cs = .ok (⟨cs.takeWhile isBlank, name, (Gap.read afterName).1, matching,
      afterOperator.takeWhile isBlank, value, afterValue.takeWhile isBlank⟩, rest) := by
  simp only [read, bind, Except.bind, hname, hmatching, hvalue, hclose]
  rfl

theorem isName_of_readName {cs name rest : List Char} (h : readName cs = .ok (name, rest)) :
    isName name = true := by
  unfold readName at h
  split at h
  · next hhead =>
    cases h
    exact isName_takeWhile hhead
  · cases h

theorem readName_append {name rest : List Char} (h : isName name = true)
    (hrest : Stops isWord rest) : readName (name ++ rest) = .ok (name, rest) := by
  have hword := all_isWord_of_isName h
  rw [readName, if_pos (isAlpha_head_of_isName h rest), takeWhile_run hword hrest,
    dropWhile_run hword hrest]

theorem all_isOperatorSign (matching : Matching) :
    matching.operator.toList.all isOperatorSign = true := by
  cases matching <;> decide

theorem readMatching_append (matching : Matching) {rest : List Char}
    (hrest : Stops isOperatorSign rest) :
    readMatching (matching.operator.toList ++ rest) = .ok (matching, rest) := by
  have hsigns := all_isOperatorSign matching
  have hfound := Matching.ofOperator?_eq_some_iff.2 (Eq.refl matching.operator)
  simp only [readMatching, takeWhile_run hsigns hrest, dropWhile_run hsigns hrest,
    String.ofList_toList, hfound]

theorem readValue_quoted {quote : Quote} {value : List Char} (h : quote.char ∉ value)
    (matching : Matching) (rest : List Char) :
    readValue matching (quote.enclose value ++ rest) = .ok (.quoted quote value, rest) := by
  have hrun : value.all (· != quote.char) = true := by
    rw [List.all_eq_true]
    intro c hc
    exact bne_iff_ne.2 fun heq => h (heq ▸ hc)
  have hstop : Stops (· != quote.char) (quote.char :: rest) := by simp
  have hquote : Quote.ofChar? quote.char = some quote := Quote.ofChar?_eq_some_iff.2 rfl
  have hwhole : quote.enclose value ++ rest = quote.char :: (value ++ quote.char :: rest) := by
    simp [Quote.enclose]
  simp only [hwhole, readValue, hquote, readQuoted, dropWhile_run hrun hstop,
    takeWhile_run hrun hstop]

theorem isOperatorSign_eq_false_of_isWord {c : Char} (h : isWord c = true) :
    isOperatorSign c = false := by
  by_contra hsign
  simp only [isOperatorSign, Bool.not_eq_false, Bool.or_eq_true, beq_iff_eq] at hsign
  rcases hsign with (((((rfl | rfl) | rfl) | rfl) | rfl) | rfl) | rfl <;>
    exact absurd h (by decide)

theorem isOperatorSign_eq_false_of_isBlank {c : Char} (h : isBlank c = true) :
    isOperatorSign c = false := by
  simp only [isBlank, Bool.or_eq_true, beq_iff_eq] at h
  rcases h with (((rfl | rfl) | rfl) | rfl) | rfl <;> decide

theorem readable_of_readValue {matching : Matching} {cs rest : List Char} {value : BlockValue}
    (h : readValue matching cs = .ok (value, rest)) : value.Readable matching := by
  have hbare (cs : List Char) : (readBare matching cs).1.Readable matching := by
    unfold readBare
    split
    · assumption
    · exact ⟨by assumption, all_takeWhile isWord cs⟩
  unfold readValue at h
  split at h
  · have hread := hbare []
    rwa [Except.ok.inj h] at hread
  · next c cs =>
    split at h
    · unfold readQuoted at h
      split at h
      · cases h
      · cases h
        intro hmem
        have hne := List.mem_takeWhile_imp hmem
        simp at hne
    · have hread := hbare (c :: cs)
      rwa [Except.ok.inj h] at hread

theorem readValue_of_stops {cs : List Char} (h : Stops (fun c => (Quote.ofChar? c).isSome) cs)
    (matching : Matching) : readValue matching cs = .ok (readBare matching cs) := by
  cases cs with
  | nil => rfl
  | cons c cs =>
    have hc : Quote.ofChar? c = none := by simpa using h
    rw [readValue, hc]

/-! ### Reading back -/

namespace Readable

variable {block : Block} (h : block.Readable) (rest : List Char)
include h

theorem stops_value {p : Char → Bool} (hp : ['"', '\'', ']'].any p = false)
    (hword : block.matching ≠ .present → ∀ c, isWord c = true → p c = false) :
    Stops p (block.value.text ++ (block.after ++ ']' :: rest)) := by
  simp only [List.any_cons, List.any_nil, Bool.or_false, Bool.or_eq_false_iff] at hp
  have hvalue := h.value
  have hafter := h.after_nil
  cases hspelling : block.value with
  | absent =>
    rw [hspelling] at hafter
    rw [hafter rfl]
    exact stops_cons.2 hp.2.2
  | quoted quote text => cases quote <;> simp [BlockValue.text, Quote.enclose, Quote.char, hp]
  | bare text =>
    rw [hspelling] at hvalue hafter
    cases text with
    | nil =>
      rw [hafter rfl]
      exact stops_cons.2 hp.2.2
    | cons c text =>
      exact stops_cons.2 (hword hvalue.1 c (List.all_eq_true.1 hvalue.2 c List.mem_cons_self))

theorem stops_operator {p : Char → Bool}
    (hp : ['!', '=', '^', '$', '*', '|', '~', '"', '\'', ']'].any p = false) :
    Stops p (block.matching.operator.toList ++
      (block.before ++ (block.value.text ++ (block.after ++ ']' :: rest)))) := by
  simp only [List.any_cons, List.any_nil, Bool.or_false, Bool.or_eq_false_iff] at hp
  by_cases hpresent : block.matching = .present
  · rw [h.before_nil hpresent]
    have hvalue := h.stops_value rest (p := p) (by simp [hp]) (absurd hpresent)
    rw [hpresent]
    exact hvalue
  · cases hmatching : block.matching <;> simp_all [Matching.operator]

theorem readValue_append :
    readValue block.matching (block.value.text ++ (block.after ++ ']' :: rest)) =
      .ok (block.value, block.after ++ ']' :: rest) := by
  have hvalue := h.value
  have hafter := h.after_nil
  cases hspelling : block.value with
  | absent =>
    rw [hspelling] at hvalue hafter
    rw [hafter rfl, show block.matching = .present from hvalue]
    rfl
  | quoted quote text =>
    rw [hspelling] at hvalue
    exact readValue_quoted hvalue _ _
  | bare text =>
    rw [hspelling] at hvalue hafter
    obtain ⟨hmatching, htext⟩ := hvalue
    have hstop : Stops isWord (block.after ++ ']' :: rest) := by
      cases hblank : block.after with
      | nil => exact stops_cons.2 (by decide)
      | cons c after =>
        have hc := List.all_eq_true.1 h.after c (hblank ▸ List.mem_cons_self)
        refine stops_cons.2 ?_
        by_contra hword
        rw [isBlank_eq_false_of_isWord (Bool.not_eq_false _ ▸ hword)] at hc
        cases hc
    have hquote : Stops (fun c => (Quote.ofChar? c).isSome)
        (text ++ (block.after ++ ']' :: rest)) := by
      cases text with
      | nil =>
        rw [hafter rfl]
        exact stops_cons.2 (by decide)
      | cons c text =>
        have hc := List.all_eq_true.1 htext c List.mem_cons_self
        refine stops_cons.2 ?_
        by_contra hsome
        obtain ⟨quote, hquote⟩ := Option.isSome_iff_exists.1 (Bool.not_eq_false _ ▸ hsome)
        rw [Quote.ofChar?_eq_some_iff.1 hquote] at hc
        cases quote <;> exact absurd hc (by decide)
    rw [BlockValue.text, readValue_of_stops hquote, readBare, if_neg hmatching,
      takeWhile_run htext hstop, dropWhile_run htext hstop]

/-- The stages of reading a block lead through its parts. -/
theorem read_append : read (block.inner ++ rest) = .ok (block, rest) := by
  let afterOperator := block.before ++ (block.value.text ++ (block.after ++ ']' :: rest))
  let afterName := block.gap.text ++ (block.matching.operator.toList ++ afterOperator)
  have hinner : block.inner ++ rest = block.lead ++ (block.name ++ afterName) := by
    simp [inner, afterName, afterOperator]
  have hlead : Stops isBlank (block.name ++ afterName) :=
    stops_of_isName h.name (fun _ => isBlank_eq_false_of_isWord) afterName
  have hword : Stops isWord afterName := by
    by_cases hgap : block.gap.text = []
    · simpa [afterName, hgap] using h.stops_operator rest (p := isWord) (by decide)
    · obtain ⟨c, cs, htext, hstarts⟩ := Gap.exists_text_cons h.gap hgap
      simp only [afterName, htext, List.cons_append, stops_cons]
      by_contra hc
      rw [Gap.starts_eq_false_of_isWord (Bool.not_eq_false _ ▸ hc)] at hstarts
      cases hstarts
  have hgap : Gap.read afterName = (block.gap, block.matching.operator.toList ++ afterOperator) :=
    have hends := block.gap.endsBefore_of_stops (h.stops_operator rest (by decide))
    Gap.read_eq_iff.2 ⟨h.gap, hends, rfl⟩
  have hoperator : Stops isOperatorSign afterOperator := by
    cases hbefore : block.before with
    | nil =>
      simpa [afterOperator, hbefore] using h.stops_value rest (p := isOperatorSign) (by decide)
        fun _ _ => isOperatorSign_eq_false_of_isWord
    | cons c before =>
      have hc := List.all_eq_true.1 h.before c (hbefore ▸ List.mem_cons_self)
      simpa [afterOperator, hbefore] using isOperatorSign_eq_false_of_isBlank hc
  have hvalue : Stops isBlank (block.value.text ++ (block.after ++ ']' :: rest)) :=
    h.stops_value rest (by decide) fun _ _ => isBlank_eq_false_of_isWord
  have hclose : Stops isBlank (']' :: rest) := stops_cons.2 (by decide)
  have hreadName : readName ((block.lead ++ (block.name ++ afterName)).dropWhile isBlank) =
      .ok (block.name, afterName) := by
    rw [dropWhile_run h.lead hlead]
    exact readName_append h.name hword
  have hreadMatching : readMatching (Gap.read afterName).2 =
      .ok (block.matching, afterOperator) := by
    rw [hgap]
    exact readMatching_append block.matching hoperator
  have hreadValue : readValue block.matching (afterOperator.dropWhile isBlank) =
      .ok (block.value, block.after ++ ']' :: rest) := by
    rw [dropWhile_run h.before hvalue]
    exact h.readValue_append rest
  have hreadClose : readClose ((block.after ++ ']' :: rest).dropWhile isBlank) = .ok rest := by
    rw [dropWhile_run h.after hclose]
    rfl
  rw [hinner, read_of_stages hreadName hreadMatching hreadValue hreadClose,
    takeWhile_run h.lead hlead, hgap, takeWhile_run h.before hvalue, takeWhile_run h.after hclose]

end Readable

theorem readable_of_read {cs rest : List Char} {block : Block}
    (h : read cs = .ok (block, rest)) : block.Readable := by
  obtain ⟨afterName, afterOperator, afterValue, hname, hmatching, hvalue, hclose⟩ :=
    stages_of_read h
  obtain ⟨hspelled, hends⟩ := Gap.spelled_read afterName
  have hblock := read_of_stages hname hmatching hvalue hclose
  obtain ⟨lead, name, gap, matching, before, value, after⟩ := block
  simp only [h, Except.ok.injEq, Prod.mk.injEq, mk.injEq, true_and, and_true] at hblock
  obtain ⟨rfl, rfl, rfl, rfl⟩ := hblock
  refine ⟨all_takeWhile _ _, isName_of_readName hname, hspelled, all_takeWhile _ _, ?_,
    readable_of_readValue hvalue, all_takeWhile _ _, ?_⟩
  · rintro rfl
    have happend : afterOperator = (Gap.read afterName).2 := append_of_readMatching hmatching
    rw [happend]
    exact takeWhile_of_stops hends.stops_isBlank
  · intro hnil
    have happend := append_of_readValue hvalue
    rw [show value.text = [] from hnil, List.nil_append] at happend
    rw [happend]
    exact takeWhile_of_stops (stops_dropWhile isBlank _)

/-- A block can be read exactly from its own text, whatever follows it. -/
theorem read_eq_ok_iff {cs rest : List Char} {block : Block} :
    read cs = .ok (block, rest) ↔ block.Readable ∧ block.inner ++ rest = cs := by
  constructor
  · intro h
    exact ⟨readable_of_read h, inner_append_of_read h⟩
  · rintro ⟨h, rfl⟩
    exact h.read_append rest

/-! ### Faults -/

/-- Reading fails in one of the stages, after those before it have gone through. -/
theorem stages_of_read_eq_error {cs : List Char} {halt : Halt} (h : read cs = .error halt) :
    readName (cs.dropWhile isBlank) = .error halt ∨
    ∃ name afterName, readName (cs.dropWhile isBlank) = .ok (name, afterName) ∧
      (readMatching (Gap.read afterName).2 = .error halt ∨
      ∃ matching afterOperator,
        readMatching (Gap.read afterName).2 = .ok (matching, afterOperator) ∧
        (readValue matching (afterOperator.dropWhile isBlank) = .error halt ∨
        ∃ value afterValue,
          readValue matching (afterOperator.dropWhile isBlank) = .ok (value, afterValue) ∧
            readClose (afterValue.dropWhile isBlank) = .error halt)) := by
  unfold read at h
  simp only [bind, Except.bind] at h
  split at h
  · next hname =>
    cases h
    exact .inl hname
  · next hname =>
    refine .inr ⟨_, _, hname, ?_⟩
    split at h
    · next hmatching =>
      cases h
      exact .inl hmatching
    · next hmatching =>
      refine .inr ⟨_, _, hmatching, ?_⟩
      split at h
      · next hvalue =>
        cases h
        exact .inl hvalue
      · next hvalue =>
        refine .inr ⟨_, _, hvalue, ?_⟩
        split at h
        · next hclose =>
          cases h
          exact hclose
        · cases h

/-! A stage that fails does so before the text that it was to read. -/

theorem rest_of_readName {cs : List Char} {halt : Halt} (h : readName cs = .error halt) :
    halt.rest = cs := by
  unfold readName at h
  split at h
  · cases h
  · cases h
    rfl

theorem rest_of_readMatching {cs : List Char} {halt : Halt} (h : readMatching cs = .error halt) :
    halt.rest = cs := by
  simp only [readMatching] at h
  split at h
  · cases h
  · cases h
    rfl

theorem rest_of_readValue {matching : Matching} {cs : List Char} {halt : Halt}
    (h : readValue matching cs = .error halt) : halt.rest = cs := by
  unfold readValue at h
  split at h
  · cases h
  · split at h
    · unfold readQuoted at h
      split at h
      · cases h
        rfl
      · cases h
    · cases h

theorem rest_of_readClose {cs : List Char} {halt : Halt} (h : readClose cs = .error halt) :
    halt.rest = cs := by
  unfold readClose at h
  split at h
  · cases h
    rfl
  · split at h
    · cases h
    · cases h
      rfl

/-- A fault is met before some end of the text. -/
theorem rest_suffix_of_read {cs : List Char} {halt : Halt} (h : read cs = .error halt) :
    halt.rest <:+ cs := by
  have hlead := List.dropWhile_suffix (l := cs) isBlank
  rcases stages_of_read_eq_error h with hname | ⟨name, afterName, hname, h⟩
  · rwa [rest_of_readName hname]
  have hafterName : afterName <:+ cs := List.IsSuffix.trans ⟨name, append_of_readName hname⟩ hlead
  have hgap : (Gap.read afterName).2 <:+ cs :=
    List.IsSuffix.trans ⟨_, Gap.text_append_read afterName⟩ hafterName
  rcases h with hmatching | ⟨matching, afterOperator, hmatching, h⟩
  · rwa [rest_of_readMatching hmatching]
  have hafterOperator : afterOperator.dropWhile isBlank <:+ cs :=
    (List.dropWhile_suffix isBlank).trans
      (List.IsSuffix.trans ⟨_, append_of_readMatching hmatching⟩ hgap)
  rcases h with hvalue | ⟨value, afterValue, hvalue, hclose⟩
  · rwa [rest_of_readValue hvalue]
  · rw [rest_of_readClose hclose]
    exact (List.dropWhile_suffix isBlank).trans
      (List.IsSuffix.trans ⟨_, append_of_readValue hvalue⟩ hafterOperator)

end Block

end SelectorPath
