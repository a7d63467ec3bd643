import SelectorPath.Proofs.Outcome
import SelectorPath.Proofs.Token
import SelectorPath.SelectorList

/-! Where compounds come from. All that a compound asks was added by one of the tokens, so what is
known of the tokens of a text is known of its compounds: their names are names, and the argument of
a pseudo-class is shorter than the text. -/

namespace SelectorPath

open Text

namespace Text

theorem length_trimEnd_le (cs : List Char) : (trimEnd cs).length ≤ cs.length := by
  induction cs with
  | nil => exact Nat.le_refl 0
  | cons c cs ih =>
    change (if (trimEnd cs).isEmpty && isWhite c then [] else c :: trimEnd cs).length ≤ _
    split
    · exact Nat.zero_le _
    · exact Nat.succ_le_succ ih

theorem length_trim_le (cs : List Char) : (trim cs).length ≤ cs.length :=
  (length_trimEnd_le _).trans (List.dropWhile_suffix isWhite).length_le

end Text

theorem Shorthand.isName_attributeName (kind : Shorthand) :
    isName kind.attributeName.toList = true := by
  cases kind <;> decide

namespace Selector

theorem result_read_eq_ok_iff {cs : List Char} {selector : Selector} :
    (read cs).result = .ok selector ↔
      (Tokens.read (trim cs)).halt = none ∧ ofTokens (Tokens.read (trim cs)).list = selector := by
  rw [read, Outcome.result_map_eq_ok, Tokens.outcome]
  cases (Tokens.read (trim cs)).halt <;> simp

theorem result_read_eq_error_iff {cs : List Char} {error : SelectorError} :
    (read cs).result = .error error ↔
      ∃ halt, (Tokens.read (trim cs)).halt = some halt ∧
        .block halt.fault (offsetOf (trim cs) halt.rest) = error := by
  rw [read, Outcome.result_map, Tokens.outcome]
  cases (Tokens.read (trim cs)).halt <;> simp

theorem oddities_read (cs : List Char) :
    (read cs).oddities = Tokens.oddities 0 (Tokens.read (trim cs)).list := by
  rw [read, Outcome.oddities_map, Tokens.outcome]

/-- What holds of a compound that asks nothing, and is kept by joining and by each of the tokens,
holds of all compounds. -/
theorem forall_mem_assemble {P : Compound → Prop} {tokens : List Token}
    (empty : ∀ combinator, P { combinator })
    (joined : ∀ compound combinator, P compound → P (compound.joinedBy combinator))
    (added : ∀ selector compound, .simple selector ∈ tokens → P compound →
      P (selector.addTo compound))
    {compound : Compound} (start : P compound) (stage : Stage) :
    ∀ c ∈ assemble compound stage tokens, P c := by
  fun_induction assemble compound stage tokens with
  | case1 compound stage => simpa using start
  | case2 compound gap tokens ih =>
    exact ih (fun s c hs => added s c (List.mem_cons_of_mem _ hs)) (joined _ _ start)
  | case3 compound stage gap tokens hstage ih =>
    have htail := ih (fun s c hs => added s c (List.mem_cons_of_mem _ hs)) (empty _)
    simpa using ⟨start, htail⟩
  | case4 compound stage selector tokens ih =>
    exact ih (fun s c hs => added s c (List.mem_cons_of_mem _ hs))
      (added selector compound List.mem_cons_self start)
  | case5 compound char tokens ih =>
    have htail := ih (fun s c hs => added s c (List.mem_cons_of_mem _ hs)) (empty _)
    simpa using ⟨start, htail⟩
  | case6 compound stage char tokens hstage ih =>
    exact ih (fun s c hs => added s c (List.mem_cons_of_mem _ hs)) start

/-- The form in which this is used: of the compounds of a text that can be read. -/
theorem forall_mem_of_read {P : Compound → Prop} {cs : List Char} {selector : Selector}
    (h : (read cs).result = .ok selector)
    (empty : ∀ combinator, P { combinator })
    (joined : ∀ compound combinator, P compound → P (compound.joinedBy combinator))
    (added : ∀ simple compound, .simple simple ∈ (Tokens.read (trim cs)).list → simple.Readable →
      P compound → P (simple.addTo compound)) :
    ∀ compound ∈ selector, P compound := by
  obtain ⟨_, rfl⟩ := result_read_eq_ok_iff.1 h
  refine forall_mem_assemble empty joined ?_ (empty _) _
  intro simple compound hmem hcompound
  have hreadable := Tokens.forall_mem_read (P := Token.Readable)
    (fun h => (Token.readable_of_read h).1) (trim cs) _ hmem
  exact added simple compound hmem hreadable hcompound

/-- The name of every attribute is a name. -/
theorem isName_of_mem_attributes {cs : List Char} {selector : Selector}
    (h : (read cs).result = .ok selector) {compound : Compound} (hcompound : compound ∈ selector)
    {test : AttributeTest} (htest : test ∈ compound.attributes) :
    isName test.name.toList = true := by
  revert test
  refine forall_mem_of_read (P := fun compound => ∀ {test : AttributeTest},
    test ∈ compound.attributes → isName test.name.toList = true) h ?_ ?_ ?_ compound hcompound
  · intro combinator test htest
    cases htest
  · intro compound combinator hcompound
    cases combinator <;> exact hcompound
  · intro simple compound _ hreadable hcompound test htest
    cases simple with
    | universal | element | pseudo => exact hcompound htest
    | shorthand kind value =>
      rcases List.mem_append.1 htest with htest | htest
      · exact hcompound htest
      · obtain rfl := List.mem_singleton.1 htest
        exact kind.isName_attributeName
    | block spelling =>
      rcases List.mem_append.1 htest with htest | htest
      · exact hcompound htest
      · obtain rfl := List.mem_singleton.1 htest
        simpa [Block.test] using hreadable.name

/-- The argument of a pseudo-class is shorter than the text that it stands in. -/
theorem length_argument_lt {cs : List Char} {selector : Selector}
    (h : (read cs).result = .ok selector) {compound : Compound} (hcompound : compound ∈ selector)
    {pseudo : Pseudo} (hpseudo : pseudo ∈ compound.pseudos) {argument : String}
    (hargument : pseudo.argument = some argument) : argument.length < cs.length := by
  revert pseudo
  refine forall_mem_of_read (P := fun compound => ∀ {pseudo : Pseudo}, pseudo ∈ compound.pseudos →
    pseudo.argument = some argument → argument.length < cs.length) h ?_ ?_ ?_ compound hcompound
  · intro combinator pseudo hpseudo
    cases hpseudo
  · intro compound combinator hcompound
    cases combinator <;> exact hcompound
  · intro simple compound hmem _ hcompound pseudo hpseudo hargument
    cases simple with
    | universal | element | shorthand | block => exact hcompound hpseudo hargument
    | pseudo name spelling =>
      rcases List.mem_append.1 hpseudo with hpseudo | hpseudo
      · exact hcompound hpseudo hargument
      · obtain rfl := List.mem_singleton.1 hpseudo
        obtain ⟨spelling, rfl, rfl⟩ := Option.map_eq_some_iff.1 hargument
        have htokens := Tokens.flatMap_text_read (result_read_eq_ok_iff.1 h).1
        have htoken := (List.sublist_flatten_of_mem
          (List.mem_map_of_mem (f := Token.text) hmem)).length_le
        rw [← List.flatMap_def, htokens] at htoken
        have htrim := length_trim_le cs
        simp [Token.text, SimpleSelector.text, Argument.spelling] at htoken ⊢
        omega

end Selector

/-- No comma stands outside all brackets and quotes. -/
def Nesting.Undivided (nesting : Nesting) (cs : List Char) : Prop :=
  ∀ before after, cs = before ++ ',' :: after → nesting.after before ≠ .top

theorem Nesting.undivided_nil (nesting : Nesting) : nesting.Undivided [] := by
  intro before after h
  simp at h

theorem Nesting.undivided_cons_iff {nesting : Nesting} {c : Char} {cs : List Char} :
    nesting.Undivided (c :: cs) ↔
      ¬(c = ',' ∧ nesting = .top) ∧ (nesting.step c).Undivided cs := by
  constructor
  · intro h
    refine ⟨?_, fun before after hcs => ?_⟩
    · rintro ⟨rfl, htop⟩
      exact h [] cs rfl htop
    · exact h (c :: before) after (congrArg (c :: ·) hcs)
  · rintro ⟨hc, hcs⟩ before after h
    cases before with
    | nil =>
      intro htop
      exact hc ⟨(List.cons.inj h).1, htop⟩
    | cons b before =>
      obtain ⟨rfl, htail⟩ := List.cons.inj h
      exact hcs before after htail

namespace SelectorList

theorem splitFrom_of_undivided {nesting : Nesting} {cs : List Char} (h : nesting.Undivided cs) :
    splitFrom nesting cs = [cs] := by
  induction cs generalizing nesting with
  | nil => rfl
  | cons c cs ih =>
    obtain ⟨hc, hcs⟩ := Nesting.undivided_cons_iff.1 h
    rw [splitFrom, if_neg hc, ih hcs, List.modifyHead_cons]

theorem undivided_of_length_splitFrom {nesting : Nesting} {cs : List Char}
    (h : (splitFrom nesting cs).length = 1) : nesting.Undivided cs := by
  induction cs generalizing nesting with
  | nil => exact nesting.undivided_nil
  | cons c cs ih =>
    rw [splitFrom] at h
    split at h
    · have hlength := List.length_pos_iff.2 (splitFrom_ne_nil .top cs)
      rw [List.length_cons] at h
      omega
    · rw [List.length_modifyHead] at h
      exact Nesting.undivided_cons_iff.2 ⟨by assumption, ih h⟩

theorem length_le_of_mem_splitFrom {nesting : Nesting} {cs member : List Char}
    (h : member ∈ splitFrom nesting cs) : member.length ≤ cs.length := by
  induction cs generalizing nesting member with
  | nil =>
    obtain rfl := List.mem_singleton.1 h
    exact Nat.le_refl 0
  | cons c cs ih =>
    rw [splitFrom] at h
    split at h
    · rcases List.mem_cons.1 h with rfl | h
      · exact Nat.zero_le _
      · exact Nat.le_succ_of_le (ih h)
    · obtain ⟨piece, pieces, hpieces⟩ :=
        List.exists_cons_of_ne_nil (splitFrom_ne_nil (nesting.step c) cs)
      rw [hpieces, List.modifyHead_cons] at h
      rcases List.mem_cons.1 h with rfl | h
      · exact Nat.succ_le_succ (ih (hpieces ▸ List.mem_cons_self))
      · exact Nat.le_succ_of_le (ih (hpieces ▸ List.mem_cons_of_mem _ h))

/-- That a member is odd does not change its result. -/
theorem result_readMember (inList : Bool) (cs : List Char) :
    (readMember inList cs).result = (Selector.read cs).result := by
  unfold readMember memberIn
  split
  · exact Outcome.result_bind_of_ok (x := Outcome.note .emptyMember) rfl _
  · rfl

theorem read_eq_mapM (cs : List Char) :
    read cs = (split cs).mapM (readMember ((split cs).length > 1)) :=
  rfl

theorem result_read_eq_ok_iff {cs : List Char} {selectors : SelectorList} :
    (read cs).result = .ok selectors ↔
      List.Forall₂ (fun member selector => (Selector.read member).result = .ok selector)
        (split cs) selectors := by
  simp only [read_eq_mapM, Outcome.result_mapM_eq_ok, result_readMember]

theorem ne_nil_of_read {cs : List Char} {selectors : SelectorList}
    (h : (read cs).result = .ok selectors) : selectors ≠ [] := by
  rintro rfl
  have hsplit := List.forall₂_nil_right_iff.1 (result_read_eq_ok_iff.1 h)
  exact splitFrom_ne_nil _ _ hsplit

/-- Every selector of a list was read from a member that is no longer than the text. -/
theorem exists_member_of_mem {text : String} {selectors : SelectorList}
    (h : (parse text).result = .ok selectors) {selector : Selector} (hmem : selector ∈ selectors) :
    ∃ member : List Char, member.length ≤ text.length ∧
      (Selector.read member).result = .ok selector := by
  obtain ⟨member, hmember, hread⟩ := exists_left_of_forall₂ (result_read_eq_ok_iff.1 h) hmem
  exact ⟨member, length_le_of_mem_splitFrom hmember, hread⟩

theorem isName_of_mem_attributes {text : String} {selectors : SelectorList}
    (h : (parse text).result = .ok selectors) {selector : Selector} (hmem : selector ∈ selectors)
    {compound : Compound} (hcompound : compound ∈ selector) :
    ∀ test ∈ compound.attributes, isName test.name.toList = true := by
  intro test htest
  obtain ⟨member, _, hread⟩ := exists_member_of_mem h hmem
  exact Selector.isName_of_mem_attributes hread hcompound htest

end SelectorList

end SelectorPath
