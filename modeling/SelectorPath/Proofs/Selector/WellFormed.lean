import SelectorPath.Proofs.Selector

/-! Selectors that can be written: names are names, a value lacks one of the quotation marks, and
the parentheses of an argument are balanced. Whatever is read without meeting an unclosed argument
is of this kind. -/

namespace SelectorPath

open Text

structure AttributeTest.WellFormed (test : AttributeTest) : Prop where
  name : isName test.name.toList = true
  value : ∀ value ∈ test.value, '"' ∉ value.toList ∨ '\'' ∉ value.toList
  absent : test.value = none → test.matching = .present

structure Pseudo.WellFormed (pseudo : Pseudo) : Prop where
  name : pseudo.name.toList.all SimpleSelector.isPseudoLetter = true
  argument : ∀ argument ∈ pseudo.argument, Balanced argument.toList

structure Compound.WellFormed (compound : Compound) : Prop where
  element : ∀ name ∈ compound.element, isName name.toList = true
  attributes : ∀ test ∈ compound.attributes, test.WellFormed
  pseudos : ∀ pseudo ∈ compound.pseudos, pseudo.WellFormed

structure Selector.WellFormed (selector : Selector) : Prop where
  nonempty : selector ≠ []
  compounds : ∀ compound ∈ selector, compound.WellFormed

/-! ### Parts of a compound -/

theorem free_of_all_isWord {cs : List Char} (h : cs.all isWord = true) : '"' ∉ cs := by
  intro hmem
  have hword := List.all_eq_true.1 h _ hmem
  revert hword
  decide

theorem Shorthand.wellFormed_test (kind : Shorthand) {value : List Char}
    (h : value.all isWord = true) : (kind.test (String.ofList value)).WellFormed where
  name := kind.isName_attributeName
  value := by
    intro text htext
    cases htext
    left
    rw [String.toList_ofList]
    exact free_of_all_isWord h
  absent := by
    intro hnone
    cases hnone

theorem Block.Readable.wellFormed_test {block : Block} (h : block.Readable) :
    block.test.WellFormed := by
  have hvalue := h.value
  refine ⟨?_, ?_, ?_⟩
  · rw [test, String.toList_ofList]
    exact h.name
  · intro text htext
    rw [test] at htext
    cases hspelling : block.value with
    | absent =>
      rw [hspelling] at htext
      cases htext
    | bare text =>
      rw [hspelling] at htext hvalue
      cases htext
      left
      rw [String.toList_ofList]
      exact free_of_all_isWord hvalue.2
    | quoted quote text =>
      rw [hspelling] at htext hvalue
      cases htext
      rw [String.toList_ofList]
      cases quote with
      | single => exact .inr hvalue
      | double => exact .inl hvalue
  · intro hnone
    cases hspelling : block.value with
    | absent =>
      rw [hspelling] at hvalue
      exact hvalue
    | bare text | quoted quote text =>
      rw [test, hspelling] at hnone
      cases hnone

namespace Compound

theorem wellFormed_empty (combinator : Combinator) :
    ({ combinator } : Compound).WellFormed := by
  refine ⟨?_, ?_, ?_⟩ <;> simp

theorem WellFormed.joinedBy {compound : Compound} (h : compound.WellFormed)
    (combinator : Combinator) : (compound.joinedBy combinator).WellFormed := by
  cases combinator with
  | descendant => exact h
  | child => exact ⟨h.element, h.attributes, h.pseudos⟩

theorem WellFormed.addAttribute {compound : Compound} (h : compound.WellFormed)
    {test : AttributeTest} (htest : test.WellFormed) : (compound.addAttribute test).WellFormed := by
  refine ⟨h.element, ?_, h.pseudos⟩
  exact List.forall_mem_append.2 ⟨h.attributes, List.forall_mem_singleton.2 htest⟩

theorem WellFormed.addPseudo {compound : Compound} (h : compound.WellFormed)
    {pseudo : Pseudo} (hpseudo : pseudo.WellFormed) : (compound.addPseudo pseudo).WellFormed := by
  refine ⟨h.element, h.attributes, ?_⟩
  exact List.forall_mem_append.2 ⟨h.pseudos, List.forall_mem_singleton.2 hpseudo⟩

theorem WellFormed.named {compound : Compound} (h : compound.WellFormed)
    {name : String} (hname : isName name.toList = true) : (compound.named name).WellFormed := by
  refine ⟨?_, h.attributes, h.pseudos⟩
  intro name' hname'
  cases hname'
  exact hname

end Compound

/-! ### What is read -/

theorem Tokens.closed_of_mem {name : List Char} {argument : Argument} {tokens : List Token}
    {offset : Nat} (hmem : .simple (.pseudo name (some argument)) ∈ tokens)
    (hnone : ∀ name offset', .unclosedArgument name offset' ∉ oddities offset tokens) :
    argument.closed = true := by
  induction tokens generalizing offset with
  | nil => cases hmem
  | cons token tokens ih =>
    simp only [oddities, List.mem_append, not_or, forall_and] at hnone
    rcases List.mem_cons.1 hmem with rfl | hmem
    · by_contra hopen
      exact hnone.1 _ _ (Option.mem_toList.2 (if_neg hopen))
    · exact ih hmem hnone.2

/-- A selector that was read with every argument closed is well-formed. -/
theorem Selector.wellFormed_of_read {cs : List Char} {selector : Selector}
    (h : (read cs).result = .ok selector)
    (hclosed : ∀ name offset, .unclosedArgument name offset ∉ (read cs).oddities) :
    selector.WellFormed := by
  simp only [oddities_read] at hclosed
  constructor
  · obtain ⟨_, rfl⟩ := result_read_eq_ok_iff.1 h
    exact assemble_ne_nil _ _ _
  · refine forall_mem_of_read h Compound.wellFormed_empty ?_ ?_
    · intro compound combinator hcompound
      exact hcompound.joinedBy combinator
    · intro simple compound hmem hreadable hcompound
      cases simple with
      | universal => exact hcompound
      | element name =>
        refine hcompound.named ?_
        rw [String.toList_ofList]
        exact hreadable
      | shorthand kind value => exact hcompound.addAttribute (kind.wellFormed_test hreadable)
      | block spelling => exact hcompound.addAttribute hreadable.wellFormed_test
      | pseudo name argument =>
        refine hcompound.addPseudo ⟨?_, ?_⟩
        · rw [String.toList_ofList]
          exact hreadable.1
        · intro text htext
          obtain ⟨spelling, rfl, rfl⟩ := Option.map_eq_some_iff.1 htext
          have hclosed := Tokens.closed_of_mem hmem hclosed
          rw [String.toList_ofList]
          exact (hreadable.2 spelling rfl).balanced hclosed

end SelectorPath
