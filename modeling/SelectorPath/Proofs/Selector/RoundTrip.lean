import SelectorPath.Proofs.Selector.Printer

/-! Selectors and their texts. The tokens that are read from the text of a selector put the same
selector together again; nothing about them is odd, and there is no white space to trim. So reading
a well-formed selector from its text gives it back, and what is read from any text is well-formed,
unless an argument was left open. -/

namespace SelectorPath

open Text

/-! ### Putting compounds together -/

theorem foldl_addTo_blocks (compound : Compound) (tests : List AttributeTest) :
    (tests.map fun test => SimpleSelector.block test.block).foldl
        (fun compound simple => simple.addTo compound) compound =
      { compound with attributes := compound.attributes ++ tests } := by
  induction tests generalizing compound with
  | nil => simp
  | cons test tests ih =>
    rw [List.map_cons, List.foldl_cons, ih]
    simp [SimpleSelector.addTo, Compound.addAttribute]

theorem foldl_addTo_pseudos (compound : Compound) (pseudos : List Pseudo) :
    (pseudos.map Pseudo.simple).foldl (fun compound simple => simple.addTo compound) compound =
      { compound with pseudos := compound.pseudos ++ pseudos } := by
  induction pseudos generalizing compound with
  | nil => simp
  | cons pseudo pseudos ih =>
    have hpseudo : pseudo.simple.addTo compound = compound.addPseudo pseudo := by
      obtain ⟨name, argument⟩ := pseudo
      cases argument <;> simp [Pseudo.simple, SimpleSelector.addTo]
    rw [List.map_cons, List.foldl_cons, ih, hpseudo]
    simp [Compound.addPseudo]

theorem foldl_addTo_simples (compound : Compound) :
    compound.simples.foldl (fun compound simple => simple.addTo compound)
      { combinator := compound.combinator } = compound := by
  obtain ⟨combinator, element, attributes, pseudos⟩ := compound
  unfold Compound.simples Compound.conditions
  split
  · next h =>
    simp only [Compound.isUniversal, Bool.and_eq_true, Option.isNone_iff_eq_none,
      List.isEmpty_iff] at h
    obtain ⟨⟨rfl, rfl⟩, rfl⟩ := h
    rfl
  · rw [List.foldl_append, List.foldl_append, foldl_addTo_blocks, foldl_addTo_pseudos]
    cases element <;> simp [SimpleSelector.addTo, Compound.named]

theorem Compound.simples_ne_nil (compound : Compound) : compound.simples ≠ [] := by
  unfold simples conditions
  split
  · exact List.cons_ne_nil _ _
  · next h =>
    obtain ⟨combinator, element, attributes, pseudos⟩ := compound
    cases element <;> cases attributes <;> cases pseudos <;> simp_all [isUniversal]

namespace Selector

theorem assemble_simples_begun (compound : Compound) (simples : List SimpleSelector)
    (tokens : List Token) :
    assemble compound .begun (simples.map .simple ++ tokens) =
      assemble (simples.foldl (fun compound simple => simple.addTo compound) compound) .begun
        tokens := by
  induction simples generalizing compound with
  | nil => rfl
  | cons simple simples ih => exact ih _

theorem assemble_simples (compound : Compound) (stage : Stage) (tokens : List Token) :
    assemble { combinator := compound.combinator } stage
        (compound.simples.map .simple ++ tokens) = assemble compound .begun tokens := by
  have hfold := foldl_addTo_simples compound
  obtain ⟨simple, simples, h⟩ := List.exists_cons_of_ne_nil compound.simples_ne_nil
  rw [h] at hfold ⊢
  rw [List.map_cons, List.cons_append, assemble, assemble_simples_begun]
  rw [List.foldl_cons] at hfold
  rw [hfold]

theorem assemble_followingTokens (compound : Compound) (rest : Selector) :
    assemble compound .begun (followingTokens rest) = compound :: rest := by
  induction rest generalizing compound with
  | nil => rfl
  | cons next rest ih =>
    rw [followingTokens, assemble, if_neg (by decide), Combinator.combinator_gap, assemble_simples,
      ih]

end Selector

/-! ### Nothing is odd -/

def Token.Quiet (token : Token) : Prop :=
  ∀ offset, Tokens.oddity? offset token = none

theorem Tokens.oddities_eq_nil {tokens : List Token} (h : ∀ token ∈ tokens, token.Quiet)
    (offset : Nat) : oddities offset tokens = [] := by
  induction tokens generalizing offset with
  | nil => rfl
  | cons token tokens ih =>
    obtain ⟨htoken, htokens⟩ := List.forall_mem_cons.1 h
    rw [oddities, htoken, ih htokens]
    rfl

theorem Pseudo.quiet_simple (pseudo : Pseudo) : (Token.simple pseudo.simple).Quiet := by
  intro offset
  obtain ⟨name, argument⟩ := pseudo
  cases argument <;> rfl

theorem Compound.quiet_simples (compound : Compound) :
    ∀ token ∈ compound.simples.map Token.simple, token.Quiet := by
  intro token htoken
  obtain ⟨simple, hsimple, rfl⟩ := List.mem_map.1 htoken
  unfold simples conditions at hsimple
  split at hsimple
  · obtain rfl := List.mem_singleton.1 hsimple
    exact fun _ => rfl
  · simp only [List.mem_append, List.mem_map] at hsimple
    rcases hsimple with ⟨name, _, rfl⟩ | ⟨test, _, rfl⟩ | ⟨pseudo, _, rfl⟩
    · exact fun _ => rfl
    · exact fun _ => rfl
    · exact pseudo.quiet_simple

theorem Selector.quiet_followingTokens (selector : Selector) :
    ∀ token ∈ selector.followingTokens, token.Quiet := by
  induction selector with
  | nil => exact fun _ h => absurd h List.not_mem_nil
  | cons compound rest ih =>
    rw [followingTokens, List.forall_mem_cons, List.forall_mem_append]
    exact ⟨fun _ => rfl, compound.quiet_simples, ih⟩

/-! ### Nothing is trimmed -/

namespace Text

/-- The last character of the text is not white space. -/
def EndsDark (cs : List Char) : Prop :=
  ∃ init last, cs = init ++ [last] ∧ isWhite last = false

theorem trimEnd_of_endsDark {cs : List Char} (h : EndsDark cs) : trimEnd cs = cs := by
  obtain ⟨init, last, rfl, hlast⟩ := h
  induction init with
  | nil => simp [trimEnd, hlast]
  | cons c init ih =>
    change (if (trimEnd (init ++ [last])).isEmpty && isWhite c then []
      else c :: trimEnd (init ++ [last])) = _
    rw [ih]
    simp

theorem trim_of_endsDark {cs : List Char} (hstart : Stops isWhite cs) (hend : EndsDark cs) :
    trim cs = cs := by
  rw [trim, dropWhile_of_stops hstart, trimEnd_of_endsDark hend]

theorem EndsDark.append {cs : List Char} (h : EndsDark cs) (before : List Char) :
    EndsDark (before ++ cs) := by
  obtain ⟨init, last, rfl, hlast⟩ := h
  exact ⟨before ++ init, last, by simp, hlast⟩

theorem endsDark_of_forall {cs : List Char} (hne : cs ≠ []) (h : ∀ c ∈ cs, isWhite c = false) :
    EndsDark cs :=
  ⟨cs.dropLast, cs.getLast hne, (List.dropLast_append_getLast hne).symm,
    h _ (List.getLast_mem hne)⟩

theorem endsDark_flatMap {α : Type} {xs : List α} {text : α → List Char} (hne : xs ≠ [])
    (h : ∀ x ∈ xs, EndsDark (text x)) : EndsDark (xs.flatMap text) := by
  obtain ⟨init, last, rfl⟩ := List.eq_nil_or_concat xs |>.resolve_left hne
  have hlast := h last (by simp)
  rw [List.concat_eq_append, List.flatMap_append, List.flatMap_singleton]
  exact hlast.append _

end Text

theorem AttributeTest.endsDark_text (test : AttributeTest) : EndsDark test.text := by
  have hbracket : EndsDark [']'] := ⟨[], ']', rfl, by decide⟩
  exact hbracket.append ('[' :: (_ ++ _ ++ _))

theorem Pseudo.WellFormed.endsDark_text {pseudo : Pseudo} (h : pseudo.WellFormed) :
    EndsDark pseudo.text := by
  cases hargument : pseudo.argument with
  | none =>
    refine endsDark_of_forall (List.cons_ne_nil _ _) ?_
    simp only [text, hargument, List.append_nil, List.forall_mem_cons]
    refine ⟨by decide, fun c hc => ?_⟩
    exact isWhite_eq_false_of_isWord (SimpleSelector.isWord_of_isPseudoLetter
      (List.all_eq_true.1 h.name c hc))
  | some argument =>
    have hclose : EndsDark [')'] := ⟨[], ')', rfl, by decide⟩
    rw [text, hargument]
    exact ((hclose.append ('(' :: argument.toList)).append pseudo.name.toList).append [':']

theorem Compound.WellFormed.endsDark_text {compound : Compound} (h : compound.WellFormed) :
    EndsDark compound.text := by
  unfold Compound.text
  split
  · exact ⟨[], '*', rfl, by decide⟩
  · next huniversal =>
    by_cases hpseudos : compound.pseudos = []
    · rw [hpseudos, List.flatMap_nil, List.append_nil]
      by_cases hattributes : compound.attributes = []
      · rw [hattributes, List.flatMap_nil, List.append_nil]
        cases helement : compound.element with
        | none => simp [Compound.isUniversal, helement, hattributes, hpseudos] at huniversal
        | some name =>
          have hname := h.element name helement
          have hne : name.toList ≠ [] := by
            intro hnil
            rw [hnil] at hname
            cases hname
          refine endsDark_of_forall hne fun c hc => ?_
          exact isWhite_eq_false_of_isWord (List.all_eq_true.1 (all_isWord_of_isName hname) c hc)
      · exact (endsDark_flatMap hattributes fun test _ => test.endsDark_text).append _
    · exact (endsDark_flatMap hpseudos fun pseudo hpseudo =>
        (h.pseudos pseudo hpseudo).endsDark_text).append _

theorem Selector.endsDark_followingText {compound : Compound} {rest : Selector}
    (h : ∀ c ∈ compound :: rest, c.WellFormed) :
    EndsDark (compound.text ++ followingText rest) := by
  induction rest generalizing compound with
  | nil =>
    rw [followingText, List.append_nil]
    exact (h compound List.mem_cons_self).endsDark_text
  | cons next rest ih =>
    rw [followingText_cons]
    exact ((ih (List.forall_mem_cons.1 h).2).append _).append _

/-! ### The first compound -/

/-- The tokens before the first compound: a gap, if it is a child. -/
def Combinator.leadTokens : Combinator → List Token
  | descendant => []
  | child => [.gap ⟨[], some [' ']⟩]

namespace Selector

theorem text_cons (compound : Compound) (rest : Selector) :
    text (compound :: rest) =
      compound.combinator.leadTokens.flatMap Token.text ++
        (compound.text ++ followingText rest) := by
  rw [text, List.append_assoc]
  cases compound.combinator <;> rfl

section Cons

variable {compound : Compound} {rest : Selector}

theorem cuts_text_cons (h : ∀ c ∈ compound :: rest, c.WellFormed) :
    Tokens.Cuts [] (compound.combinator.leadTokens ++
      (compound.simples.map .simple ++ followingTokens rest)) (text (compound :: rest)) := by
  obtain ⟨hcompound, hrest⟩ := List.forall_mem_cons.1 h
  have htail : Tokens.Cuts [] (compound.simples.map .simple ++ followingTokens rest)
      (compound.text ++ followingText rest) :=
    (hcompound.cuts_text (stops_followingText rest)).append (cuts_followingText hrest)
  rw [text_cons]
  cases compound.combinator with
  | descendant => exact htail
  | child =>
    have hstops : Stops Gap.starts (compound.text ++ followingText rest) :=
      hcompound.stops_text (fun _ => Gap.starts_eq_false_of_isWord) (by decide) _
    have hspelled : Gap.Spelled ⟨[], some [' ']⟩ := ⟨by decide, by simp [isBlank]⟩
    exact .gap hspelled (List.cons_ne_nil _ _) hstops htail

theorem trim_text_cons (h : ∀ c ∈ compound :: rest, c.WellFormed) :
    trim (text (compound :: rest)) = text (compound :: rest) := by
  obtain ⟨hcompound, _⟩ := List.forall_mem_cons.1 h
  have hstart : Stops isWhite (compound.text ++ followingText rest) :=
    hcompound.stops_text (fun _ => isWhite_eq_false_of_isWord) (by decide) _
  rw [text_cons]
  refine trim_of_endsDark ?_ ((endsDark_followingText h).append _)
  cases compound.combinator with
  | descendant => exact hstart
  | child => exact stops_cons.2 (by decide)

theorem ofTokens_cons (compound : Compound) (rest : Selector) :
    ofTokens (compound.combinator.leadTokens ++
      (compound.simples.map .simple ++ followingTokens rest)) = compound :: rest := by
  have hassemble := fun stage => assemble_simples compound stage (followingTokens rest)
  rw [← assemble_followingTokens compound rest]
  cases hcombinator : compound.combinator with
  | descendant =>
    rw [hcombinator] at hassemble
    exact hassemble .fresh
  | child =>
    rw [hcombinator] at hassemble
    exact hassemble .joined

end Cons

theorem read_text {selector : Selector} (h : selector.WellFormed) :
    read selector.text = ⟨[], .ok selector⟩ := by
  obtain ⟨compound, rest, rfl⟩ := List.exists_cons_of_ne_nil h.nonempty
  have hquiet : ∀ token ∈ compound.combinator.leadTokens ++
      (compound.simples.map .simple ++ followingTokens rest), token.Quiet := by
    rw [List.forall_mem_append, List.forall_mem_append]
    refine ⟨?_, compound.quiet_simples, quiet_followingTokens rest⟩
    cases compound.combinator with
    | descendant => exact fun _ h => absurd h List.not_mem_nil
    | child => exact List.forall_mem_singleton.2 fun _ => rfl
  rw [read, trim_text_cons h.compounds, Tokens.outcome,
    Tokens.read_eq_iff_cuts.2 (cuts_text_cons h.compounds)]
  simp only [Tokens.oddities_eq_nil hquiet]
  exact congrArg (Outcome.mk [] ∘ Except.ok) (ofTokens_cons compound rest)

/-- Reading is the inverse of writing: a well-formed selector is read back from its text, without
any oddity, and what is read from a text is well-formed unless an argument was left open. -/
theorem parse_text_and_wellFormed_of_parse :
    (∀ selector : Selector, selector.WellFormed →
      parse (String.ofList selector.text) = ⟨[], .ok selector⟩) ∧
    ∀ (text : String) (selector : Selector), (parse text).result = .ok selector →
      (∀ name offset, .unclosedArgument name offset ∉ (parse text).oddities) →
      selector.WellFormed := by
  refine ⟨fun selector h => ?_, fun text selector h hclosed => wellFormed_of_read h hclosed⟩
  rw [parse, String.toList_ofList]
  exact read_text h

theorem parse_text_and_wellFormed_of_parse_nested :
    let selector : Selector :=
      [⟨.child, some "a", [⟨"b", .endsWith, some "\"c"⟩], [⟨"not", some "(d)"⟩]⟩, {}]
    let text := "> a[b$='\"c']:not((d))+"
    parse text = ⟨[.stray '+' 21], .ok selector⟩ ∧ selector.WellFormed ∧
      parse (String.ofList selector.text) = ⟨[], .ok selector⟩ := by
  intro selector text
  have hparse : parse text = ⟨[.stray '+' 21], .ok selector⟩ := by cbv
  have hwellFormed : selector.WellFormed := by
    refine parse_text_and_wellFormed_of_parse.2 text selector (by rw [hparse]) ?_
    simp [hparse]
  exact ⟨hparse, hwellFormed, parse_text_and_wellFormed_of_parse.1 selector hwellFormed⟩

end Selector

end SelectorPath
