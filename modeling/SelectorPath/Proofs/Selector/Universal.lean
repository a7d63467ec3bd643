import SelectorPath.Proofs.Block.Grammar
import SelectorPath.Proofs.Selector.Oddity

/-! Compounds that ask nothing. Where a text has no star and no `>`, a compound that is ended was
begun by a simple selector, so it asks something. Only the last compound is not ended by anything:
it asks nothing exactly if the text stops at a stray character, which ends the compound before it
and starts one that is never begun. -/

namespace SelectorPath

open Text

/-! ### Compounds under way -/

theorem Compound.isUniversal_joinedBy (compound : Compound) (combinator : Combinator) :
    (compound.joinedBy combinator).isUniversal = compound.isUniversal := by
  cases combinator <;> rfl

theorem SimpleSelector.isUniversal_addTo {selector : SimpleSelector} (h : selector ≠ universal)
    (compound : Compound) : (selector.addTo compound).isUniversal = false := by
  cases selector with
  | universal => exact absurd rfl h
  | element | shorthand | block | pseudo =>
    simp [addTo, Compound.isUniversal, Compound.named, Compound.addAttribute, Compound.addPseudo]

theorem Gap.EndsBefore.stops_starts {gap : Gap} {rest : List Char} (h : gap.EndsBefore rest)
    (harrow : '>' ∉ gap.text) : Stops starts rest := by
  unfold EndsBefore at h
  split at h
  · exact h
  · next hafter => exact absurd (by simp [text, hafter]) harrow

namespace Selector

/-- The stage of the last compound after a token. -/
def Stage.after : Token → Stage
  | .gap _ => joined
  | .simple _ => begun
  | .stray _ => fresh

/-- The stage of the last compound after all tokens. -/
def Stage.final (stage : Stage) (tokens : List Token) : Stage :=
  tokens.getLast?.elim stage after

theorem Stage.final_cons (stage : Stage) (token : Token) (tokens : List Token) :
    final stage (token :: tokens) = final (after token) tokens := by
  rw [final, final, List.getLast?_cons]
  cases tokens.getLast? <;> rfl

/-- How a compound is under way before `cs`: it asks something exactly if it was begun, and a gap
before it was read as a whole. -/
structure Stage.Fits (stage : Stage) (compound : Compound) (cs : List Char) : Prop where
  isUniversal_iff : compound.isUniversal = true ↔ stage ≠ begun
  stops : stage = joined → Stops Gap.starts cs

theorem Stage.fits_fresh {compound : Compound} (h : compound.isUniversal = true)
    (cs : List Char) : fresh.Fits compound cs :=
  ⟨iff_of_true h (by decide), fun h => by cases h⟩

theorem Stage.fits_begun {compound : Compound} (h : compound.isUniversal = false)
    (cs : List Char) : begun.Fits compound cs :=
  ⟨iff_of_false (by simp [h]) (by simp), fun h => by cases h⟩

theorem Stage.fits_joined {compound : Compound} {cs : List Char}
    (h : compound.isUniversal = true) (hstops : Stops Gap.starts cs) : joined.Fits compound cs :=
  ⟨iff_of_true h (by decide), fun _ => hstops⟩

/-- All compounds but the last ask something, and the last one does if it was begun. -/
def Completed (selector : Selector) (stage : Stage) : Prop :=
  ∃ init last, selector = init ++ [last] ∧ (∀ compound ∈ init, compound.isUniversal = false) ∧
    (last.isUniversal = true ↔ stage ≠ .begun)

theorem Completed.cons {selector : Selector} {stage : Stage} (h : Completed selector stage)
    {compound : Compound} (hcompound : compound.isUniversal = false) :
    Completed (compound :: selector) stage := by
  obtain ⟨init, last, rfl, hinit, hlast⟩ := h
  exact ⟨compound :: init, last, rfl, List.forall_mem_cons.2 ⟨hcompound, hinit⟩, hlast⟩

theorem Completed.forall_mem_dropLast {selector : Selector} {stage : Stage}
    (h : Completed selector stage) :
    ∀ compound ∈ selector.dropLast, compound.isUniversal = false := by
  obtain ⟨init, last, rfl, hinit, -⟩ := h
  rwa [List.dropLast_concat]

theorem Completed.exists_isUniversal_iff {selector : Selector} {stage : Stage}
    (h : Completed selector stage) :
    (∃ compound ∈ selector, compound.isUniversal = true) ↔ stage ≠ .begun := by
  obtain ⟨init, last, rfl, hinit, hlast⟩ := h
  rw [← hlast]
  constructor
  · rintro ⟨compound, hmem, huniversal⟩
    rcases List.mem_append.1 hmem with hmem | hmem
    · rw [hinit compound hmem] at huniversal
      cases huniversal
    · rwa [← List.mem_singleton.1 hmem]
  · exact fun hlast => ⟨last, by simp, hlast⟩

/-- Each token keeps the compound under way as it should be. -/
theorem completed_assemble {tokens : List Token} {cs : List Char} (h : Tokens.Cuts [] tokens cs)
    (hstar : '*' ∉ cs) (harrow : '>' ∉ cs) {compound : Compound} {stage : Stage}
    (hfits : stage.Fits compound cs) :
    Completed (assemble compound stage tokens) (stage.final tokens) := by
  induction h generalizing compound stage with
  | nil => exact ⟨[], compound, rfl, by simp, hfits.isUniversal_iff⟩
  | @cons token tokens cs readable ends tail ih =>
    rw [List.mem_append, not_or] at hstar harrow
    rw [Stage.final_cons]
    replace ih := @ih hstar.2 harrow.2
    cases token with
    | simple selector =>
      refine ih (Stage.fits_begun (SimpleSelector.isUniversal_addTo ?_ compound) cs)
      rintro rfl
      exact hstar.1 List.mem_cons_self
    | stray char =>
      rw [assemble]
      split
      · next hbegun =>
        refine (ih (Stage.fits_fresh rfl cs)).cons ?_
        simpa [hbegun] using hfits.isUniversal_iff
      · next hbegun => exact ih (Stage.fits_fresh (hfits.isUniversal_iff.2 hbegun) cs)
    | gap spelling =>
      have hstops : Stops Gap.starts cs := Gap.EndsBefore.stops_starts ends harrow.1
      rw [assemble]
      split
      · next hfresh =>
        refine ih (Stage.fits_joined ?_ hstops)
        rw [Compound.isUniversal_joinedBy, hfits.isUniversal_iff, hfresh]
        decide
      · next hfresh =>
        have hjoined : stage ≠ .joined := by
          intro hjoined
          obtain ⟨c, tail, htext, hstarts⟩ := Gap.exists_text_cons readable.1 readable.2
          have hstop := hfits.stops hjoined c (by simp [Token.text, htext])
          rw [hstarts] at hstop
          cases hstop
        have hbegun : stage = .begun := by
          cases stage with
          | fresh => exact absurd rfl hfresh
          | joined => exact absurd rfl hjoined
          | begun => rfl
        refine (ih (Stage.fits_joined rfl hstops)).cons ?_
        simpa [hbegun] using hfits.isUniversal_iff

end Selector

/-! ### The end of a text -/

namespace Tokens

/-- A text that is trimmed and has no `>` does not end in a gap. -/
theorem Cuts.last_ne_gap {tokens : List Token} {cs : List Char}
    (h : Cuts [] tokens (trim cs)) (harrow : '>' ∉ trim cs) (gap : Gap) :
    tokens.getLast? ≠ some (.gap gap) := by
  intro hlast
  obtain ⟨init, rfl⟩ := List.getLast?_eq_some_iff.1 hlast
  obtain ⟨hspelled, hne⟩ : (Token.gap gap).Readable := h.readable _ (by simp)
  have htext : init.flatMap Token.text ++ gap.text = trim cs := by
    rw [← h.flatMap_text, List.flatMap_append, List.flatMap_singleton]
    rfl
  have hblank : ∀ c ∈ gap.text, isBlank c = true := by
    intro c hc
    refine (hspelled.writes.1 c hc).resolve_right ?_
    rintro rfl
    exact harrow (htext ▸ List.mem_append_right _ hc)
  have hdark : EndsDark (trim cs) := endsDark_trimEnd (by rw [← trim, ← htext]; simp [hne])
  obtain ⟨before, last, heq, hlast⟩ := (htext.symm ▸ hdark).of_append hne
  have hwhite := isWhite_of_isBlank (hblank last (by simp [heq]))
  rw [hlast] at hwhite
  cases hwhite

theorem Cuts.stray_mem_oddities_iff {tokens : List Token} {cs : List Char}
    (h : Cuts [] tokens cs) {char : Char} {offset : Nat} :
    .stray char offset ∈ oddities 0 tokens ↔
      ∃ before after, tokens = before ++ .stray char :: after ∧
        offset = byteSize (before.flatMap Token.text) := by
  obtain ⟨unclosed, hnoted, hoddities⟩ := h.exists_noted
  rw [hoddities, ← hnoted.mem_strays_iff, notes, List.mem_append]
  simp

/-- The last token is a stray character exactly if this character is noted at the end of the
text. -/
theorem Cuts.last_stray_iff {tokens : List Token} {cs : List Char} (h : Cuts [] tokens cs)
    {char : Char} :
    tokens.getLast? = some (.stray char) ↔
      ∃ before, cs = before ++ [char] ∧ .stray char (byteSize before) ∈ oddities 0 tokens := by
  simp only [h.stray_mem_oddities_iff]
  constructor
  · intro hlast
    obtain ⟨init, rfl⟩ := List.getLast?_eq_some_iff.1 hlast
    refine ⟨init.flatMap Token.text, ?_, init, [], rfl, rfl⟩
    rw [← h.flatMap_text, List.flatMap_append, List.flatMap_singleton]
    rfl
  · rintro ⟨before, hcs, init, after, rfl, hsize⟩
    -- The texts of the tokens after the character have no bytes, so there are no such tokens.
    have htext : init.flatMap Token.text ++ char :: after.flatMap Token.text = before ++ [char] := by
      rw [← hcs, ← h.flatMap_text, List.flatMap_append, List.flatMap_cons]
      rfl
    have hbytes := congrArg byteSize htext
    simp only [byteSize_append, byteSize_cons, byteSize_nil] at hbytes
    cases after with
    | nil => simp
    | cons token after =>
      have hpos := byteSize_pos (h.readable token (by simp)).text_ne_nil
      rw [List.flatMap_cons, byteSize_append] at hbytes
      omega

end Tokens

namespace Selector

theorem final_ne_begun_iff {tokens : List Token} {cs : List Char}
    (h : Tokens.Cuts [] tokens (trim cs)) (harrow : '>' ∉ trim cs) (hne : tokens ≠ []) :
    Stage.fresh.final tokens ≠ .begun ↔ ∃ char, tokens.getLast? = some (.stray char) := by
  cases hlast : tokens.getLast? with
  | none => exact absurd (List.getLast?_eq_none_iff.1 hlast) hne
  | some token =>
    rw [Stage.final, hlast]
    cases token with
    | gap spelling => exact absurd hlast (h.last_ne_gap harrow spelling)
    | simple selector => simp [Stage.after]
    | stray char => simp [Stage.after]

/-- Where a text has no star and no `>`, and more than one compound, all compounds but the last ask
something, and the last one asks nothing exactly if the text ends in a stray character. -/
theorem parse_universal_iff_stray {text : String} {selector : Selector}
    (hstar : '*' ∉ trim text.toList) (harrow : '>' ∉ trim text.toList)
    (h : (parse text).result = .ok selector) (hlength : 2 ≤ selector.length) :
    (∀ compound ∈ selector.dropLast, compound.isUniversal = false) ∧
    ((∃ compound ∈ selector, compound.isUniversal = true) ↔
      ∃ before char, trim text.toList = before ++ [char] ∧
        .stray char (byteSize before) ∈ (parse text).oddities) := by
  obtain ⟨hhalt, rfl⟩ := result_read_eq_ok_iff.1 h
  have hcuts := Tokens.cuts_read hhalt
  rw [parse, oddities_read]
  generalize (Tokens.read (trim text.toList)).list = tokens at *
  have hcompleted : Completed (ofTokens tokens) (Stage.fresh.final tokens) :=
    completed_assemble hcuts hstar harrow (Stage.fits_fresh rfl _)
  have hne : tokens ≠ [] := by
    rintro rfl
    exact absurd hlength (by decide)
  refine ⟨hcompleted.forall_mem_dropLast, ?_⟩
  rw [hcompleted.exists_isUniversal_iff, final_ne_begun_iff hcuts harrow hne, exists_comm]
  exact exists_congr fun char => hcuts.last_stray_iff

/-- Stray characters between two compounds, and none after them. -/
theorem parse_universal_iff_stray_between :
    let text := " a+ +~b "
    let selector : Selector := [{ element := some "a" }, { element := some "b" }]
    (parse text).result = .ok selector ∧
      (parse text).oddities = [.stray '+' 1, .stray '+' 3, .stray '~' 4] ∧
      ¬ ∃ compound ∈ selector, compound.isUniversal = true := by
  intro text selector
  have hresult : (parse text).result = .ok selector := by cbv
  have hoddities : (parse text).oddities = [.stray '+' 1, .stray '+' 3, .stray '~' 4] := by cbv
  have htrim : trim text.toList = ['a', '+', ' ', '+', '~', 'b'] := by cbv
  refine ⟨hresult, hoddities, ?_⟩
  rw [(parse_universal_iff_stray (by simp [htrim]) (by simp [htrim]) hresult (by decide)).2]
  rintro ⟨before, char, htext, hmem⟩
  rw [htrim] at htext
  obtain rfl : 'b' = char := by simpa using congrArg List.getLast? htext
  simp [hoddities] at hmem

/-- A stray character at the end leaves a compound that asks nothing. -/
theorem parse_universal_of_stray_end :
    let selector : Selector := [{ element := some "a" }, {}]
    (parse "a+").result = .ok selector ∧
      '*' ∉ trim "a+".toList ∧ '>' ∉ trim "a+".toList ∧ 2 ≤ selector.length ∧
      ∃ compound ∈ selector, compound.isUniversal = true := by
  refine ⟨by cbv, by decide, by decide, by decide, {}, by decide, rfl⟩

end Selector

end SelectorPath
