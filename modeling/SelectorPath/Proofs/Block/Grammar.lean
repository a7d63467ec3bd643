import SelectorPath.Proofs.Selector.Combination

/-! The grammar of attribute blocks, which says how the parts of a block may be spelled and nothing
about how they are found. It leaves open to which part some of the blanks belong, so the text of a
block may have several such spellings. Reading gives the blanks to the first part that can take
them, and still accepts all that the grammar allows: no part takes what a later one needs. So no
text starts with two different blocks. -/

namespace SelectorPath

open Text

/-! ### Gaps -/

theorem Text.count_arrow_of_blank {cs : List Char} (h : cs.all isBlank = true) :
    cs.count '>' = 0 := by
  rw [List.count_eq_zero]
  intro hmem
  exact absurd (List.all_eq_true.1 h _ hmem) (by decide)

namespace Gap

/-- Blanks with at most one `>` among them. -/
def Writes (cs : List Char) : Prop :=
  (∀ c ∈ cs, isBlank c = true ∨ c = '>') ∧ cs.count '>' ≤ 1

theorem Spelled.writes {gap : Gap} (h : gap.Spelled) : Writes gap.text := by
  obtain ⟨before, after⟩ := gap
  have hbefore : ∀ c ∈ before, isBlank c = true ∨ c = '>' :=
    fun c hc => .inl (List.all_eq_true.1 h.before c hc)
  cases after with
  | none =>
    simp only [text, List.append_nil]
    exact ⟨hbefore, by rw [count_arrow_of_blank h.before]; omega⟩
  | some after =>
    have hafter := h.after after rfl
    refine ⟨fun c hc => ?_, ?_⟩
    · rcases List.mem_append.1 hc with hc | hc
      · exact hbefore c hc
      · rcases List.mem_cons.1 hc with rfl | hc
        · exact .inr rfl
        · exact .inl (List.all_eq_true.1 hafter c hc)
    · simp only [text]
      rw [List.count_append, List.count_cons_self, count_arrow_of_blank h.before,
        count_arrow_of_blank hafter]

theorem Writes.exists_gap {cs : List Char} (h : Writes cs) :
    ∃ gap : Gap, gap.Spelled ∧ gap.text = cs := by
  obtain ⟨hclass, hcount⟩ := h
  by_cases hone : cs.count '>' = 1
  · have hchild : Combinator.child.Spells cs := ⟨hclass, hone⟩
    obtain ⟨gap, hspelled, htext, _⟩ := hchild.exists_gap
    exact ⟨gap, hspelled, htext⟩
  · have hnone : '>' ∉ cs := List.count_eq_zero.1 (by omega)
    have hblank : cs.all isBlank = true := by
      rw [List.all_eq_true]
      intro c hc
      refine (hclass c hc).resolve_right ?_
      rintro rfl
      exact hnone hc
    exact ⟨⟨cs, none⟩, ⟨hblank, by simp⟩, by simp [text]⟩

theorem Writes.append_blanks {cs blanks : List Char} (h : Writes cs)
    (hblanks : blanks.all isBlank = true) : Writes (cs ++ blanks) := by
  refine ⟨fun c hc => ?_, ?_⟩
  · rcases List.mem_append.1 hc with hc | hc
    · exact h.1 c hc
    · exact .inl (List.all_eq_true.1 hblanks c hc)
  · rw [List.count_append, count_arrow_of_blank hblanks]
    exact h.2

end Gap

/-! ### Blocks -/

/-- The texts that write a value after an operator, and the value. -/
inductive BlockValue.Writes (matching : Matching) : List Char → Option String → Prop
  | quoted {quote : Quote} {text : List Char} (free : quote.char ∉ text) :
      Writes matching (quote.enclose text) (some (String.ofList text))
  | bare {text : List Char} (operator : matching ≠ .present) (word : text.all isWord = true) :
      Writes matching text (some (String.ofList text))
  | absent (presence : matching = .present) : Writes matching [] none

theorem BlockValue.writes_iff {matching : Matching} {text : List Char} {content : Option String} :
    Writes matching text content ↔
      ∃ value : BlockValue, value.Readable matching ∧ value.text = text ∧
        value.content = content := by
  constructor
  · rintro (free | ⟨operator, word⟩ | presence)
    · exact ⟨.quoted _ _, free, rfl, rfl⟩
    · exact ⟨.bare _, ⟨operator, word⟩, rfl, rfl⟩
    · exact ⟨.absent, presence, rfl, rfl⟩
  · rintro ⟨value, h, rfl, rfl⟩
    cases value with
    | absent => exact .absent h
    | bare text => exact .bare h.1 h.2
    | quoted quote text => exact .quoted h

namespace Block

/-- The texts of attribute blocks, and the tests that they write. -/
inductive Writes : List Char → AttributeTest → Prop
  | intro {lead name gap before value after : List Char} {matching : Matching}
      {content : Option String} (lead_blank : lead.all isBlank = true)
      (named : isName name = true) (gapped : Gap.Writes gap)
      (before_blank : before.all isBlank = true)
      (valued : BlockValue.Writes matching value content)
      (after_blank : after.all isBlank = true) :
      Writes ('[' :: (lead ++ name ++ gap ++ matching.operator.toList ++ before ++ value ++
        after ++ [']'])) ⟨String.ofList name, matching, content⟩

theorem Readable.writes {block : Block} (h : block.Readable) : Writes block.text block.test := by
  have hvalue := BlockValue.writes_iff.2 ⟨block.value, h.value, rfl, rfl⟩
  exact .intro h.lead h.name h.gap.writes h.before hvalue h.after

/-- Blanks after an empty value can be moved before it. -/
theorem exists_blanks_around (value : List Char) {before after : List Char}
    (hbefore : before.all isBlank = true) (hafter : after.all isBlank = true) :
    ∃ before' after' : List Char, before'.all isBlank = true ∧ after'.all isBlank = true ∧
      (value = [] → after' = []) ∧ before' ++ (value ++ after') = before ++ (value ++ after) := by
  by_cases hempty : value = []
  · refine ⟨before ++ after, [], ?_, rfl, fun _ => rfl, by simp [hempty]⟩
    rw [List.all_append, hbefore, hafter, Bool.and_self]
  · exact ⟨before, after, hbefore, hafter, fun h => absurd h hempty, rfl⟩

/-- Where there is no operator, the blanks before the value can be moved into the gap. -/
theorem exists_gap_around (matching : Matching) {gap before : List Char} (hgap : Gap.Writes gap)
    (hbefore : before.all isBlank = true) :
    ∃ (gap' : Gap) (before' : List Char), gap'.Spelled ∧ before'.all isBlank = true ∧
      (matching = .present → before' = []) ∧
      gap'.text ++ (matching.operator.toList ++ before') =
        gap ++ (matching.operator.toList ++ before) := by
  by_cases hpresent : matching = .present
  · obtain ⟨gap', hspelled, htext⟩ := (hgap.append_blanks hbefore).exists_gap
    exact ⟨gap', [], hspelled, rfl, fun _ => rfl, by simp [hpresent, Matching.operator, htext]⟩
  · obtain ⟨gap', hspelled, htext⟩ := hgap.exists_gap
    exact ⟨gap', before, hspelled, hbefore, fun h => absurd h hpresent, by rw [htext]⟩

/-- All that the grammar allows can be spelled as it is read. -/
theorem Writes.exists_readable {text : List Char} {test : AttributeTest} (h : Writes text test) :
    ∃ block : Block, block.Readable ∧ block.text = text ∧ block.test = test := by
  obtain @⟨lead, name, gap, before, _, after, matching, _, hlead, hname, hgap, hbefore, hvalue,
    hafter⟩ := h
  obtain ⟨value, hreadable, rfl, rfl⟩ := BlockValue.writes_iff.1 hvalue
  -- The value comes first: blanks that leave its end may have to go on into the gap.
  obtain ⟨before', after', hbefore', hafter', hafterNil, hvalueText⟩ :=
    exists_blanks_around value.text hbefore hafter
  obtain ⟨gap', before'', hgap', hbefore'', hbeforeNil, hgapText⟩ :=
    exists_gap_around matching hgap hbefore'
  refine ⟨⟨lead, name, gap', matching, before'', value, after'⟩,
    ⟨hlead, hname, hgap', hbefore'', hbeforeNil, hreadable, hafter', hafterNil⟩, ?_, rfl⟩
  calc '[' :: (lead ++ name ++ gap'.text ++ matching.operator.toList ++ before'' ++ value.text ++
        after' ++ [']'])
    _ = '[' :: (lead ++ name ++ (gap'.text ++ (matching.operator.toList ++ before'')) ++
        value.text ++ after' ++ [']']) := by simp
    _ = '[' :: (lead ++ name ++ gap ++ matching.operator.toList ++
        (before' ++ (value.text ++ after')) ++ [']']) := by rw [hgapText]; simp
    _ = '[' :: (lead ++ name ++ gap ++ matching.operator.toList ++ before ++ value.text ++
        after ++ [']']) := by rw [hvalueText]; simp

theorem exists_read_iff {cs text rest : List Char} {test : AttributeTest} :
    (∃ block, read cs = .ok (block, rest) ∧ block.text = text ∧ block.test = test) ↔
      Writes text test ∧ text ++ rest = '[' :: cs := by
  constructor
  · rintro ⟨block, hread, rfl, rfl⟩
    obtain ⟨hreadable, happend⟩ := read_eq_ok_iff.1 hread
    exact ⟨hreadable.writes, congrArg ('[' :: ·) happend⟩
  · rintro ⟨hwrites, happend⟩
    obtain ⟨block, hreadable, rfl, rfl⟩ := hwrites.exists_readable
    exact ⟨block, read_eq_ok_iff.2 ⟨hreadable, (List.cons.inj happend).2⟩, rfl, rfl⟩

/-- Reading after an opening bracket takes exactly what the grammar allows: it succeeds with the
text and the test of a block that the whole text starts with. There is at most one such block, and
where there is none, reading fails. -/
theorem read_iff_writes (cs : List Char) :
    (∀ text rest test,
      (∃ block, read cs = .ok (block, rest) ∧ block.text = text ∧ block.test = test) ↔
        Writes text test ∧ text ++ rest = '[' :: cs) ∧
    (∀ text rest test text' rest' test', Writes text test ∧ text ++ rest = '[' :: cs →
      Writes text' test' ∧ text' ++ rest' = '[' :: cs → text = text' ∧ test = test') ∧
    ((∃ halt, read cs = .error halt) ↔
      ∀ text rest test, text ++ rest = '[' :: cs → ¬Writes text test) := by
  refine ⟨fun _ _ _ => exists_read_iff, ?_, ?_, ?_⟩
  · intro text rest test text' rest' test' h h'
    obtain ⟨block, hread, rfl, rfl⟩ := exists_read_iff.2 h
    obtain ⟨block', hread', rfl, rfl⟩ := exists_read_iff.2 h'
    rw [hread] at hread'
    cases hread'
    exact ⟨rfl, rfl⟩
  · rintro ⟨halt, herror⟩ text rest test happend hwrites
    obtain ⟨block, hread, _⟩ := exists_read_iff.2 ⟨hwrites, happend⟩
    rw [hread] at herror
    cases herror
  · intro hnone
    cases hread : read cs with
    | error halt => exact ⟨halt, rfl⟩
    | ok found =>
      obtain ⟨hwrites, happend⟩ := exists_read_iff.1 ⟨found.1, hread, rfl, rfl⟩
      exact absurd hwrites (hnone _ _ _ happend)

end Block

end SelectorPath
