import SelectorPath.Proofs.Selector.RoundTrip

/-! Selectors put together with a combinator. If a text ends in a simple selector, then a gap and
another selector can follow: the compounds of the whole are those of both, with the combinator of
the gap before those of the second, and a fault of the second is met where it now stands. -/

namespace SelectorPath

open Text

/-! ### White space at the ends -/

namespace Text

theorem trimEnd_cons (c : Char) (cs : List Char) :
    trimEnd (c :: cs) = if (trimEnd cs).isEmpty && isWhite c then [] else c :: trimEnd cs :=
  rfl

theorem trimEnd_append {ds : List Char} (h : trimEnd ds ≠ []) (cs : List Char) :
    trimEnd (cs ++ ds) = cs ++ trimEnd ds := by
  induction cs with
  | nil => rfl
  | cons c cs ih =>
    rw [List.cons_append, trimEnd_cons, ih]
    simp [h]

theorem trimEnd_ne_nil {cs : List Char} (hne : cs ≠ []) (h : Stops isWhite cs) :
    trimEnd cs ≠ [] := by
  obtain ⟨c, cs, rfl⟩ := List.exists_cons_of_ne_nil hne
  rw [trimEnd_cons, stops_cons.1 h]
  simp

theorem endsDark_trimEnd {cs : List Char} (h : trimEnd cs ≠ []) : EndsDark (trimEnd cs) := by
  induction cs with
  | nil => exact absurd rfl h
  | cons c cs ih =>
    rw [trimEnd_cons] at h ⊢
    by_cases hrest : trimEnd cs = []
    · rw [hrest] at h ⊢
      cases hc : isWhite c with
      | true => simp [hc] at h
      | false => exact ⟨[], c, rfl, hc⟩
    · rw [if_neg (by simp [hrest])]
      exact (ih hrest).append [c]

theorem EndsDark.of_append {cs ds : List Char} (h : EndsDark (cs ++ ds)) (hne : ds ≠ []) :
    EndsDark ds := by
  obtain ⟨init, last, heq, hlast⟩ := h
  obtain ⟨init', last', rfl⟩ := List.eq_nil_or_concat ds |>.resolve_left hne
  rw [List.concat_eq_append, ← List.append_assoc] at heq
  obtain ⟨_, rfl⟩ := List.append_singleton_inj.1 heq
  exact ⟨init', last', List.concat_eq_append, hlast⟩

theorem EndsDark.dropWhile_append {cs : List Char} (h : EndsDark cs) (ds : List Char) :
    (cs ++ ds).dropWhile isWhite = cs.dropWhile isWhite ++ ds ∧
      EndsDark (cs.dropWhile isWhite) := by
  obtain ⟨init, last, rfl, hlast⟩ := h
  induction init with
  | nil =>
    refine ⟨by simp [hlast], [], last, by simp [hlast], hlast⟩
  | cons c init ih =>
    by_cases hc : isWhite c = true
    · simpa [hc] using ih
    · refine ⟨by simp [hc], c :: init, last, by simp [hc], hlast⟩

/-- Between two texts with no white space at the seams, nothing is trimmed. -/
theorem trim_append {cs ds : List Char} (hcs : EndsDark cs) (hne : ds ≠ [])
    (hds : Stops isWhite ds) (between : List Char) :
    trim (cs ++ (between ++ ds)) = trim cs ++ (between ++ trim ds) := by
  obtain ⟨hdrop, hdark⟩ := hcs.dropWhile_append (between ++ ds)
  have hend := trimEnd_ne_nil hne hds
  rw [trim, hdrop, ← List.append_assoc, trimEnd_append hend, List.append_assoc, trim,
    trimEnd_of_endsDark hdark, trim, dropWhile_of_stops hds]

theorem trim_of_endsDark_dropWhile {cs : List Char} (h : EndsDark cs) :
    trim cs = cs.dropWhile isWhite :=
  trimEnd_of_endsDark (h.dropWhile_append []).2

end Text

/-! ### Gaps and starts -/

/-- The texts that write a combinator: blanks, or blanks with one `>` among them. -/
def Combinator.Spells : Combinator → List Char → Prop
  | descendant, cs => cs ≠ [] ∧ ∀ c ∈ cs, isBlank c = true
  | child, cs => (∀ c ∈ cs, isBlank c = true ∨ c = '>') ∧ cs.count '>' = 1

theorem Combinator.Spells.exists_gap {combinator : Combinator} {cs : List Char}
    (h : combinator.Spells cs) :
    ∃ gap : Gap, gap.Spelled ∧ gap.text = cs ∧ cs ≠ [] ∧ gap.combinator = combinator := by
  cases combinator with
  | descendant =>
    refine ⟨⟨cs, none⟩, ⟨List.all_eq_true.2 h.2, by simp⟩, by simp [Gap.text], h.1, rfl⟩
  | child =>
    obtain ⟨hclass, hcount⟩ := h
    have hmem : '>' ∈ cs := List.count_pos_iff.1 (by omega)
    obtain ⟨before, after, rfl⟩ := List.append_of_mem hmem
    rw [List.count_append, List.count_cons_self] at hcount
    have hblank (part : List Char) (hpart : part.count '>' = 0)
        (hsub : ∀ c ∈ part, c ∈ before ++ '>' :: after) : part.all isBlank = true := by
      rw [List.all_eq_true]
      intro c hc
      refine (hclass c (hsub c hc)).resolve_right ?_
      rintro rfl
      exact List.count_eq_zero.1 hpart hc
    have hbefore := hblank before (by omega) (by simp +contextual)
    have hafter := hblank after (by omega) (by simp +contextual)
    exact ⟨⟨before, some after⟩, ⟨hbefore, by simpa using hafter⟩, rfl, by simp, rfl⟩

namespace SimpleSelector

/-- What holds of no word character and of no symbol holds of no start of a simple selector. -/
theorem eq_false_of_starts {p : Char → Bool} (hword : ∀ c, isWord c = true → p c = false)
    (hsymbol : ∀ c ∈ ['#', '.', '*', ':', '['], p c = false) {c : Char} (h : starts c = true) :
    p c = false := by
  by_cases halpha : c.isAlpha = true
  · exact hword c (isWord_of_isAlpha halpha)
  · refine hsymbol c ?_
    simpa [starts, halpha, or_assoc] using h

theorem isWhite_eq_false_of_starts {c : Char} (h : starts c = true) : isWhite c = false :=
  eq_false_of_starts (fun _ => isWhite_eq_false_of_isWord) (by simp [isWhite]) h

theorem gapStarts_eq_false_of_starts {c : Char} (h : starts c = true) : Gap.starts c = false :=
  eq_false_of_starts (fun _ => Gap.starts_eq_false_of_isWord) (by simp [Gap.starts, isBlank]) h

/-- A gap ends every simple selector, unless an argument is left open. -/
theorem endsBefore_of_starts {selector : SimpleSelector} {c : Char} (hc : Gap.starts c = true)
    (hclosed : ∀ name argument, selector = pseudo name (some argument) → argument.closed = true)
    (cs : List Char) : selector.EndsBefore (c :: cs) := by
  refine endsBefore_of_stops (stops_cons.2 ?_) hclosed
  have hword : isWord c = false := by
    by_contra hword
    rw [Gap.starts_eq_false_of_isWord (Bool.not_eq_false _ ▸ hword)] at hc
    cases hc
  have hparenthesis : c ≠ '(' := by
    rintro rfl
    exact absurd hc (by decide)
  simp [continues, hword, hparenthesis]

end SimpleSelector

theorem Token.exists_simple_of_read {c : Char} {cs rest : List Char} {token : Token}
    (h : read c cs = .ok (token, rest)) (hc : SimpleSelector.starts c = true) :
    ∃ selector, token = simple selector := by
  obtain ⟨hreadable, _, htext⟩ := read_eq_ok_iff.1 h
  cases token with
  | simple selector => exact ⟨selector, rfl⟩
  | gap spelling =>
    obtain ⟨d, ds, hd, hstarts⟩ := Gap.exists_text_cons hreadable.1 hreadable.2
    obtain rfl : d = c := by
      simp only [text, hd, List.cons_append] at htext
      exact (List.cons.inj htext).1
    rw [SimpleSelector.gapStarts_eq_false_of_starts hc] at hstarts
    cases hstarts
  | stray char =>
    obtain ⟨rfl, _⟩ : char = c ∧ rest = cs := List.cons.inj htext
    have hnot := hreadable.1
    rw [hc] at hnot
    cases hnot

/-! ### Compounds -/

theorem Compound.joinedBy_comm (compound : Compound) (first second : Combinator) :
    (compound.joinedBy first).joinedBy second = (compound.joinedBy second).joinedBy first := by
  cases first <;> cases second <;> rfl

theorem SimpleSelector.addTo_joinedBy (selector : SimpleSelector) (compound : Compound)
    (combinator : Combinator) :
    selector.addTo (compound.joinedBy combinator) =
      (selector.addTo compound).joinedBy combinator := by
  cases combinator <;> cases selector <;> rfl

namespace Selector

/-- The selector whose first compound hangs below what stands before it as a combinator says. -/
def joinedBy (selector : Selector) : Combinator → Selector
  | .descendant => selector
  | .child => selector.modifyHead (·.joinedBy .child)

theorem assemble_joinedBy (compound : Compound) (stage : Stage) (tokens : List Token)
    (combinator : Combinator) :
    assemble (compound.joinedBy combinator) stage tokens =
      joinedBy (assemble compound stage tokens) combinator := by
  cases combinator with
  | descendant => rfl
  | child =>
    fun_induction assemble compound stage tokens with
    | case1 compound stage => rfl
    | case2 compound gap tokens ih => rw [assemble, if_pos rfl, Compound.joinedBy_comm, ih]
    | case3 compound stage gap tokens hstage ih =>
      rw [assemble, if_neg hstage]
      rfl
    | case4 compound stage selector tokens ih =>
      rw [assemble, SimpleSelector.addTo_joinedBy, ih]
    | case5 compound char tokens ih =>
      rw [assemble, if_pos rfl]
      rfl
    | case6 compound stage char tokens hstage ih => rw [assemble, if_neg hstage, ih]

/-- A gap after a simple selector ends the last compound of what was read so far. -/
theorem assemble_append_gap (compound : Compound) (stage : Stage) (tokens : List Token)
    (simple : SimpleSelector) (gap : Gap) (rest : List Token) :
    assemble compound stage (tokens ++ .simple simple :: .gap gap :: rest) =
      assemble compound stage (tokens ++ [.simple simple]) ++
        assemble { combinator := gap.combinator } .joined rest := by
  induction tokens generalizing compound stage with
  | nil => rfl
  | cons token tokens ih =>
    cases token with
    | simple first => exact ih _ _
    | gap spelling =>
      simp only [List.cons_append, assemble]
      split
      · exact ih _ _
      · rw [ih, List.cons_append]
    | stray char =>
      simp only [List.cons_append, assemble]
      split
      · rw [ih, List.cons_append]
      · exact ih _ _

/-- What the tokens of a selector become after a gap. -/
theorem assemble_joined_simple (combinator : Combinator) (simple : SimpleSelector)
    (tokens : List Token) :
    assemble { combinator } .joined (.simple simple :: tokens) =
      joinedBy (ofTokens (.simple simple :: tokens)) combinator := by
  have hempty : ({ combinator } : Compound) = Compound.joinedBy {} combinator := by
    cases combinator <;> rfl
  rw [hempty, assemble_joinedBy]
  rfl

/-! ### A gap between two texts -/

/-- The last character of a text belongs to a simple selector. -/
def EndsInSimple (cs : List Char) : Prop :=
  ∃ simple, (Tokens.read (trim cs)).list.getLast? = some (.simple simple) ∧ simple.text <:+ cs

theorem EndsInSimple.endsDark {cs : List Char} (h : EndsInSimple cs)
    (hhalt : (Tokens.read (trim cs)).halt = none) : EndsDark cs := by
  obtain ⟨simple, hlast, before, hbefore⟩ := h
  obtain ⟨tokens, htokens⟩ := List.getLast?_eq_some_iff.1 hlast
  have hne : simple.text ≠ [] := by
    refine Tokens.forall_mem_read (P := fun token => token.text ≠ []) ?_ (trim cs)
      (.simple simple) (by simp [htokens])
    intro c cs rest token hread
    obtain ⟨tail, htail, _⟩ := Token.exists_text_of_read hread
    simp [htail]
  have htext : tokens.flatMap Token.text ++ simple.text = trim cs := by
    rw [← Tokens.flatMap_text_read hhalt, htokens, List.flatMap_append, List.flatMap_singleton]
    rfl
  have htrim : trim cs ≠ [] := by
    rw [← htext]
    simp [hne]
  have hdark : EndsDark (tokens.flatMap Token.text ++ simple.text) :=
    htext.symm ▸ endsDark_trimEnd htrim
  rw [← hbefore]
  exact (hdark.of_append hne).append before

section Combined

variable {first second : List Char} {selector : Selector} {gap : Gap}
  (hfirst : (read first).result = .ok selector) (hend : EndsInSimple first)
  (hclosed : ∀ name offset, .unclosedArgument name offset ∉ (read first).oddities)
  (hgap : gap.Spelled) (hne : gap.text ≠ [])
  (hstart : second.head?.any SimpleSelector.starts = true)

include hstart in
theorem exists_cons_of_starts :
    ∃ c cs, second = c :: cs ∧ SimpleSelector.starts c = true ∧ ∃ ds, trim second = c :: ds := by
  cases second with
  | nil => cases hstart
  | cons c cs =>
    have hc : SimpleSelector.starts c = true := hstart
    have hdark := SimpleSelector.isWhite_eq_false_of_starts hc
    refine ⟨c, cs, rfl, hc, trimEnd cs, ?_⟩
    rw [trim, List.dropWhile_cons_of_neg (by simp [hdark]), trimEnd_cons, hdark]
    simp

include hstart in
theorem exists_simple_of_starts (hhalt : (Tokens.read (trim second)).halt = none) :
    ∃ simple tokens, (Tokens.read (trim second)).list = .simple simple :: tokens := by
  obtain ⟨c, _, _, hc, ds, hds⟩ := exists_cons_of_starts hstart
  rw [hds] at hhalt ⊢
  cases hread : Token.read c ds with
  | error halt =>
    rw [Tokens.read_of_error hread] at hhalt
    cases hhalt
  | ok pair =>
    obtain ⟨simple, hsimple⟩ := Token.exists_simple_of_read hread hc
    rw [Tokens.read_of_ok hread, hsimple]
    exact ⟨simple, _, rfl⟩

include hfirst hend hstart in
theorem trim_combined :
    trim (first ++ (gap.text ++ second)) = trim first ++ (gap.text ++ trim second) := by
  obtain ⟨c, cs, rfl, hc, _⟩ := exists_cons_of_starts hstart
  have hdark := hend.endsDark (result_read_eq_ok_iff.1 hfirst).1
  exact trim_append hdark (List.cons_ne_nil _ _)
    (stops_cons.2 (SimpleSelector.isWhite_eq_false_of_starts hc)) gap.text

include hfirst hend hclosed hgap hne hstart

theorem read_tokens_combined :
    Tokens.read (trim (first ++ (gap.text ++ second))) =
      ⟨(Tokens.read (trim first)).list ++ .gap gap :: (Tokens.read (trim second)).list,
        (Tokens.read (trim second)).halt⟩ := by
  obtain ⟨c, cs, _, hc, ds, hds⟩ := exists_cons_of_starts hstart
  have hstops : Stops Gap.starts (trim second) := by
    rw [hds]
    exact stops_cons.2 (SimpleSelector.gapStarts_eq_false_of_starts hc)
  have hread : Tokens.Cuts (trim second) [.gap gap] (gap.text ++ trim second) :=
    .gap hgap hne hstops .nil
  have hlast : ∀ token ∈ (Tokens.read (trim first)).list.getLast?,
      token.EndsBefore (gap.text ++ trim second) := by
    obtain ⟨simple, hsimple, _⟩ := hend
    obtain ⟨d, tail, htext, hstarts⟩ := Gap.exists_text_cons hgap hne
    intro token htoken
    rw [hsimple] at htoken
    cases htoken
    rw [htext]
    refine SimpleSelector.endsBefore_of_starts hstarts ?_ _
    rintro name argument rfl
    simp only [oddities_read] at hclosed
    exact Tokens.closed_of_mem (List.mem_of_getLast? hsimple) hclosed
  rw [trim_combined hfirst hend hstart,
    Tokens.read_append (result_read_eq_ok_iff.1 hfirst).1 hlast, hread.read_eq]
  rfl

/-- If both texts can be read, the compounds of the second follow those of the first. -/
theorem result_read_combined_of_ok {others : Selector}
    (hsecond : (read second).result = .ok others) :
    (read (first ++ (gap.text ++ second))).result =
      .ok (selector ++ others.joinedBy gap.combinator) := by
  have htokens := read_tokens_combined hfirst hend hclosed hgap hne hstart
  obtain ⟨hhalt, hothers⟩ := result_read_eq_ok_iff.1 hsecond
  obtain ⟨_, hselector⟩ := result_read_eq_ok_iff.1 hfirst
  obtain ⟨last, hlast, _⟩ := hend
  obtain ⟨before, hbefore⟩ := List.getLast?_eq_some_iff.1 hlast
  obtain ⟨next, after, hafter⟩ := exists_simple_of_starts hstart hhalt
  refine result_read_eq_ok_iff.2 ⟨by rw [htokens]; exact hhalt, ?_⟩
  rw [hafter] at hothers
  rw [hbefore] at hselector
  rw [htokens, hbefore, hafter, ofTokens, List.append_assoc, List.singleton_append,
    assemble_append_gap, assemble_joined_simple, hothers]
  exact congrArg (· ++ _) hselector

/-- A fault of the second text is met later by the size of what stands before it. -/
theorem result_read_combined_of_error {error : SelectorError}
    (hsecond : (read second).result = .error error) :
    ∃ fault offset, error = .block fault offset ∧
      (read (first ++ (gap.text ++ second))).result =
        .error (.block fault
          (offset + (byteSize (first.dropWhile isWhite) + byteSize gap.text))) := by
  have htokens := read_tokens_combined hfirst hend hclosed hgap hne hstart
  obtain ⟨halt, hhalt, rfl⟩ := result_read_eq_error_iff.1 hsecond
  obtain ⟨before, hbefore⟩ := Tokens.rest_suffix_of_read hhalt
  have hdark := hend.endsDark (result_read_eq_ok_iff.1 hfirst).1
  refine ⟨_, _, rfl, result_read_eq_error_iff.2 ⟨halt, by rw [htokens]; exact hhalt, ?_⟩⟩
  have hwhole : trim (first ++ (gap.text ++ second)) =
      (first.dropWhile isWhite ++ gap.text ++ before) ++ halt.rest := by
    rw [trim_combined hfirst hend hstart, trim_of_endsDark_dropWhile hdark, ← hbefore]
    simp
  rw [hwhole, ← hbefore, offsetOf_append, offsetOf_append, byteSize_append, byteSize_append,
    Nat.add_comm]

end Combined

end Selector

end SelectorPath
