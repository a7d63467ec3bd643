import SelectorPath.Proofs.Selector.WellFormed
import SelectorPath.Proofs.Token.Cut
import SelectorPath.Selector.Printer

/-! How selectors are written. What is written is spelled as it should be, and what follows a part
of it cannot belong to it: after a word comes a bracket, a colon or a space, and after a gap the
start of a compound. So the text of a selector is cut where one part of it was put after another. -/

namespace SelectorPath

open Text
open SimpleSelector (continues)

/-! ### Attribute tests -/

namespace AttributeTest

/-- The block as which a test is written. -/
def block (test : AttributeTest) : Block where
  lead := []
  name := test.name.toList
  gap := ⟨[], none⟩
  matching := test.matching
  before := []
  value :=
    match test.value with
    | none => .absent
    | some value => .quoted (quoteFor value) value.toList
  after := []

@[simp] theorem test_block (test : AttributeTest) : test.block.test = test := by
  obtain ⟨name, matching, value⟩ := test
  cases value <;> simp [block, Block.test, BlockValue.content]

@[simp] theorem text_block (test : AttributeTest) : test.block.text = test.text := by
  obtain ⟨name, matching, value⟩ := test
  cases value <;> simp [block, Block.text, Block.inner, Gap.text, BlockValue.text, text]

theorem quoteFor_free {value : String} (h : '"' ∉ value.toList ∨ '\'' ∉ value.toList) :
    (quoteFor value).char ∉ value.toList := by
  unfold quoteFor
  split
  · next hdouble => exact h.resolve_left (not_not_intro hdouble)
  · next hdouble => exact hdouble

theorem WellFormed.readable_block {test : AttributeTest} (h : test.WellFormed) :
    test.block.Readable where
  lead := rfl
  name := h.name
  gap := ⟨rfl, by simp [block]⟩
  before := rfl
  before_nil _ := rfl
  value := by
    cases hvalue : test.value with
    | none => simpa [block, hvalue, BlockValue.Readable] using h.absent hvalue
    | some value =>
      simpa [block, hvalue, BlockValue.Readable] using quoteFor_free (h.value value hvalue)
  after := rfl
  after_nil _ := rfl

end AttributeTest

/-! ### Pseudo-classes -/

namespace Pseudo

/-- The pseudo-class as which it is written. -/
def simple (pseudo : Pseudo) : SimpleSelector :=
  .pseudo pseudo.name.toList (pseudo.argument.map fun argument => ⟨argument.toList, true⟩)

@[simp] theorem text_simple (pseudo : Pseudo) : pseudo.simple.text = pseudo.text := by
  obtain ⟨name, argument⟩ := pseudo
  cases argument <;> simp [simple, SimpleSelector.text, Argument.spelling, text]

theorem WellFormed.readable_simple {pseudo : Pseudo} (h : pseudo.WellFormed) :
    pseudo.simple.Readable := by
  refine ⟨h.name, fun argument hargument => ?_⟩
  obtain ⟨text, htext, rfl⟩ := Option.map_eq_some_iff.1 hargument
  exact h.argument text htext

theorem closed_of_simple {pseudo : Pseudo} {name : List Char} {argument : Argument}
    (h : pseudo.simple = .pseudo name (some argument)) : argument.closed = true := by
  obtain ⟨_, hargument⟩ := SimpleSelector.pseudo.inj h
  obtain ⟨text, _, rfl⟩ := Option.map_eq_some_iff.1 hargument
  rfl

end Pseudo

/-! ### Compounds -/

/-- A simple selector that is kept apart from what stands before it, and ends where a name would. -/
structure SimpleSelector.Separate (selector : SimpleSelector) : Prop where
  readable : selector.Readable
  starts : ∀ rest, Stops continues (selector.text ++ rest)
  ends : ∀ {rest}, Stops continues rest → selector.EndsBefore rest

theorem AttributeTest.WellFormed.separate {test : AttributeTest} (h : test.WellFormed) :
    (SimpleSelector.block test.block).Separate where
  readable := h.readable_block
  starts _ := stops_cons.2 (by decide)
  ends _ := trivial

theorem Pseudo.WellFormed.separate {pseudo : Pseudo} (h : pseudo.WellFormed) :
    pseudo.simple.Separate where
  readable := h.readable_simple
  starts rest := by
    rw [text_simple]
    exact stops_cons.2 (by decide)
  ends hrest := SimpleSelector.endsBefore_of_stops hrest fun _ _ => closed_of_simple

/-- Simple selectors that keep apart can be written one after the other. -/
theorem Tokens.cuts_separate {simples : List SimpleSelector}
    (h : ∀ simple ∈ simples, simple.Separate) {rest : List Char} (hrest : Stops continues rest) :
    Cuts rest (simples.map .simple) (simples.flatMap SimpleSelector.text ++ rest) ∧
      Stops continues (simples.flatMap SimpleSelector.text ++ rest) := by
  induction simples with
  | nil => exact ⟨.nil, hrest⟩
  | cons simple simples ih =>
    obtain ⟨hsimple, hsimples⟩ := List.forall_mem_cons.1 h
    obtain ⟨hcuts, hstops⟩ := ih hsimples
    rw [List.flatMap_cons, List.append_assoc]
    exact ⟨.cons hsimple.readable (hsimple.ends hstops) hcuts, hsimple.starts _⟩

namespace Compound

/-- The simple selectors as which a compound is written after its element name. -/
def conditions (compound : Compound) : List SimpleSelector :=
  compound.attributes.map (fun test => .block test.block) ++ compound.pseudos.map Pseudo.simple

/-- The simple selectors as which a compound is written. -/
def simples (compound : Compound) : List SimpleSelector :=
  if compound.isUniversal then [.universal]
  else compound.element.toList.map (fun name => .element name.toList) ++ compound.conditions

theorem text_conditions (compound : Compound) :
    compound.conditions.flatMap SimpleSelector.text =
      compound.attributes.flatMap AttributeTest.text ++ compound.pseudos.flatMap Pseudo.text := by
  have hblock (test : AttributeTest) : (SimpleSelector.block test.block).text = test.text :=
    test.text_block
  simp [conditions, List.flatMap_map, hblock]

theorem WellFormed.separate_conditions {compound : Compound} (h : compound.WellFormed) :
    ∀ simple ∈ compound.conditions, simple.Separate := by
  intro simple hsimple
  rcases List.mem_append.1 hsimple with hsimple | hsimple
  · obtain ⟨test, htest, rfl⟩ := List.mem_map.1 hsimple
    exact (h.attributes test htest).separate
  · obtain ⟨pseudo, hpseudo, rfl⟩ := List.mem_map.1 hsimple
    exact (h.pseudos pseudo hpseudo).separate

theorem WellFormed.cuts_text {compound : Compound} (h : compound.WellFormed) {rest : List Char}
    (hrest : Stops continues rest) :
    Tokens.Cuts rest (compound.simples.map .simple) (compound.text ++ rest) := by
  unfold text simples
  split
  · exact .cons trivial trivial .nil
  · obtain ⟨hcuts, hstops⟩ := Tokens.cuts_separate h.separate_conditions hrest
    rw [text_conditions] at hcuts hstops
    rw [List.append_assoc, List.append_assoc, ← List.append_assoc (compound.attributes.flatMap _)]
    cases helement : compound.element with
    | none => exact hcuts
    | some name =>
      have hname : (Token.simple (.element name.toList)).Readable := h.element name helement
      have hends : Stops isWord (compound.attributes.flatMap AttributeTest.text ++
          compound.pseudos.flatMap Pseudo.text ++ rest) :=
        hstops.mono fun c hc => by rw [continues, hc, Bool.true_or]
      exact .cons hname hends hcuts

/-- A compound starts with a name, a star, a bracket or a colon. -/
theorem WellFormed.stops_text {p : Char → Bool} {compound : Compound}
    (h : compound.WellFormed) (hword : ∀ c, isWord c = true → p c = false)
    (hp : ['*', '[', ':'].any p = false) (rest : List Char) :
    Stops p (compound.text ++ rest) := by
  simp only [List.any_cons, List.any_nil, Bool.or_false, Bool.or_eq_false_iff] at hp
  unfold text
  split
  · exact stops_cons.2 hp.1
  · next huniversal =>
    rw [List.append_assoc, List.append_assoc]
    cases helement : compound.element with
    | some name => exact stops_of_isName (h.element name helement) hword _
    | none =>
      cases hattributes : compound.attributes with
      | cons test tests => exact stops_cons.2 hp.2.1
      | nil =>
        cases hpseudos : compound.pseudos with
        | cons pseudo pseudos => exact stops_cons.2 hp.2.2
        | nil => simp [isUniversal, helement, hattributes, hpseudos] at huniversal

end Compound

/-! ### Selectors -/

/-- The gap before a compound that follows others. -/
def Combinator.gap : Combinator → Gap
  | descendant => ⟨[' '], none⟩
  | child => ⟨[' '], some [' ']⟩

theorem Combinator.spelled_gap (combinator : Combinator) : combinator.gap.Spelled := by
  cases combinator with
  | descendant => exact ⟨by decide, by simp [gap]⟩
  | child => exact ⟨by decide, by simp [gap, isBlank]⟩

theorem Combinator.combinator_gap (combinator : Combinator) :
    combinator.gap.combinator = combinator := by
  cases combinator <;> rfl

namespace Selector

def followingTokens : Selector → List Token
  | [] => []
  | compound :: rest =>
    .gap compound.combinator.gap :: (compound.simples.map .simple ++ followingTokens rest)

theorem followingText_cons (compound : Compound) (rest : Selector) :
    followingText (compound :: rest) =
      compound.combinator.gap.text ++ (compound.text ++ followingText rest) := by
  rw [followingText, List.append_assoc]
  cases compound.combinator <;> rfl

theorem stops_followingText (selector : Selector) : Stops continues (followingText selector) := by
  cases selector with
  | nil => exact stops_nil _
  | cons compound rest =>
    rw [followingText_cons]
    cases compound.combinator <;> exact stops_cons.2 (by decide)

theorem cuts_followingText {selector : Selector} (h : ∀ compound ∈ selector, compound.WellFormed) :
    Tokens.Cuts [] (followingTokens selector) (followingText selector) := by
  induction selector with
  | nil => exact .nil
  | cons compound rest ih =>
    obtain ⟨hcompound, hrest⟩ := List.forall_mem_cons.1 h
    have hstops : Stops Gap.starts (compound.text ++ followingText rest) :=
      hcompound.stops_text (fun _ => Gap.starts_eq_false_of_isWord) (by decide) _
    have hne : compound.combinator.gap.text ≠ [] := by
      cases compound.combinator <;> exact List.cons_ne_nil _ _
    rw [followingText_cons]
    refine .gap compound.combinator.spelled_gap hne hstops ?_
    exact (hcompound.cuts_text (stops_followingText rest)).append (ih hrest)

end Selector

end SelectorPath
