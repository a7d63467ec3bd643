import SelectorPath.Proofs.Query.Meaning
import SelectorPath.Proofs.Text.Search

/-! What the tests of attributes say. XPath can compare a text, search in it and look at its start;
the other ways to match are put together from these. On an element that has the attribute each test
is true exactly if the attribute is as the matching asks, but for the end of a text, where
underscores in the attribute are taken for the mark of the end. An attribute that is not there is
searched as an empty text, in which an empty value is found. -/

namespace SelectorPath

open Text XPath

/-- What a matching asks of the text of an attribute. -/
def Matching.Accepts (value text : String) : Matching → Prop
  | equals => text = value
  | startsWith => value.toList <+: text.toList
  | endsWith => value.toList <:+ text.toList
  | hasWord => value.toList ∈ splitOn ' ' text.toList
  | dashMatch =>
    text = value ∨ value.toList ++ [' '] <+: text.toList ∨ value.toList ++ ['-'] <+: text.toList
  | differs => text ≠ value
  | present => True
  | contains => value.toList <:+: text.toList

/-- Whether a matching looks for its value somewhere in the text. -/
def Matching.searches : Matching → Bool
  | startsWith | endsWith | hasWord | contains => true
  | equals | dashMatch | differs | present => false

/-! ### Comparisons -/

namespace XPath

/-- The text of an attribute, which is empty where the attribute is not there. -/
def Node.attributeText (node : Node) (name : String) : String :=
  (node.element.attribute? name).getD ""

namespace Expr

/-- Wherever it is evaluated, the expression has this text of the node. -/
def Gives (e : Expr) (text : Node → String) : Prop :=
  ∀ context, ∃ value, e.eval context = some value ∧ value.text = text context.node

variable (name value : String)

theorem gives_attr : (attr name).Gives (·.attributeText name) := by
  intro context
  exact ⟨_, by rw [eval], rfl⟩

theorem tests_attr :
    (attr name).Tests fun node => (node.element.attribute? name).isSome = true := by
  intro context
  exact ⟨_, by rw [eval], rfl, Iff.rfl⟩

theorem tests_equals_attr :
    (equals (attr name) (ofString value)).Tests
      fun node => node.element.attribute? name = some value := by
  intro context
  simp [equals, eval, Operator.apply, Value.equal?, Value.number?, Value.truth]

theorem tests_startsWith :
    (call .startsWith [attr name, ofString value]).Tests
      fun node => value.toList <+: (node.attributeText name).toList := by
  intro context
  simp [eval, evalAll, Function.apply, Value.text, Value.number?, Value.truth, Node.attributeText]

theorem tests_contains {e : Expr} {text : Node → String} (he : e.Gives text) :
    (call .contains [e, ofString value]).Tests
      fun node => value.toList <:+: (text node).toList := by
  intro context
  obtain ⟨whole, hwhole, htext⟩ := he context
  refine ⟨.boolean (occursIn value.toList whole.text.toList), ?_, rfl, ?_⟩
  · rw [eval, evalAll, hwhole, evalAll, eval_ofString, evalAll]
    rfl
  · rw [Value.truth, occursIn_iff_isInfix, htext]

end Expr

end XPath

/-! ### Tests -/

namespace AttributeTest

/-- What a test says of an attribute that may not be there. -/
def Says (test : AttributeTest) (found : Option String) : Prop :=
  let value := test.value.getD ""
  let text := (found.getD "").toList
  match test.matching with
  | .equals => found = some value
  | .startsWith => value.toList <+: text
  | .endsWith => value.toList ++ List.replicate 3 '_' <:+: text ++ List.replicate 3 '_'
  | .hasWord => ' ' :: (value.toList ++ [' ']) <:+: ' ' :: (text ++ [' '])
  | .dashMatch =>
    found = some value ∨ value.toList ++ [' '] <+: text ∨ value.toList ++ ['-'] <+: text
  | .differs => found ≠ some value
  | .present => found.isSome = true
  | .contains => value.toList <:+: text

theorem tests_says (test : AttributeTest) :
    test.expr.Tests fun node => test.Says (node.element.attribute? test.name) := by
  obtain ⟨name, matching, value⟩ := test
  cases matching with
  | equals => exact Expr.tests_equals_attr name _
  | startsWith => exact Expr.tests_startsWith name _
  | contains => exact Expr.tests_contains _ (Expr.gives_attr name)
  | present => exact Expr.tests_attr name
  | differs => exact (Expr.tests_equals_attr name _).not
  | dashMatch =>
    have hstart (text : String) := Expr.tests_startsWith name text
    refine (((Expr.tests_equals_attr name _).or (hstart _)).or (hstart _)).congr fun node => ?_
    simp [Says, or_assoc, Node.attributeText]
  | endsWith =>
    have hmarked : (Expr.call .concat [.attr name, .literal .double "___"]).Gives
        fun node => node.attributeText name ++ "___" := by
      intro context
      simp [Expr.eval, Expr.evalAll, Function.apply, Value.text, Node.attributeText]
    refine (Expr.tests_contains _ hmarked).congr fun node => ?_
    simp [Says, Node.attributeText]
  | hasWord =>
    have hmarked : (Expr.call .concat
        [.literal .double " ", .attr name, .literal .double " "]).Gives
        fun node => " " ++ (node.attributeText name ++ " ") := by
      intro context
      simp [Expr.eval, Expr.evalAll, Function.apply, Value.text, Node.attributeText]
    refine (Expr.tests_contains _ hmarked).congr fun node => ?_
    simp [Says, Node.attributeText]

/-- The text of a test is read as an expression that has a truth value: what the test says of the
attribute that is found. -/
theorem parse?_render_says {test : AttributeTest}
    (named : Lexeme.spellsName test.name.toList = true) :
    ∃ e, Expr.parse? test.expr.render = some e ∧
      ∀ context, ∃ value, e.eval context = some value ∧
        (value.truth = true ↔ test.Says (context.node.element.attribute? test.name)) := by
  refine ⟨test.expr, Expr.parse?_render (fits_expr named), fun context => ?_⟩
  obtain ⟨value, heval, _, htruth⟩ := test.tests_says context
  exact ⟨value, heval, htruth⟩

/-- On an attribute that is there, a test says what its matching asks; a word has no space in it. -/
theorem says_some_iff {test : AttributeTest} (hend : test.matching ≠ .endsWith)
    (hword : test.matching = .hasWord → ' ' ∉ (test.value.getD "").toList) (text : String) :
    test.Says (some text) ↔ test.matching.Accepts (test.value.getD "") text := by
  obtain ⟨name, matching, value⟩ := test
  cases matching with
  | endsWith => exact absurd rfl hend
  | hasWord => exact (mem_splitOn_iff_occurs (hword rfl)).symm
  | equals | startsWith | contains | present | differs | dashMatch =>
    simp [Says, Matching.Accepts]

/-- The text of a test is read as an expression that says of an attribute that is there what the
matching asks. -/
theorem parse?_render_accepts {test : AttributeTest}
    (named : Lexeme.spellsName test.name.toList = true) (hend : test.matching ≠ .endsWith)
    (hword : test.matching = .hasWord → ' ' ∉ (test.value.getD "").toList) :
    ∃ e, Expr.parse? test.expr.render = some e ∧
      ∀ context text, context.node.element.attribute? test.name = some text →
        ∃ value, e.eval context = some value ∧
          (value.truth = true ↔ test.matching.Accepts (test.value.getD "") text) := by
  obtain ⟨e, hparse, hsays⟩ := parse?_render_says named
  refine ⟨e, hparse, fun context text hfound => ?_⟩
  obtain ⟨value, heval, htruth⟩ := hsays context
  rw [hfound, says_some_iff hend hword] at htruth
  exact ⟨value, heval, htruth⟩

theorem parse?_render_accepts_word :
    let test : AttributeTest := ⟨"class", .hasWord, some "\"'"⟩
    Lexeme.spellsName test.name.toList = true ∧ test.matching ≠ .endsWith ∧
      (test.matching = .hasWord → ' ' ∉ (test.value.getD "").toList) ∧
      ∃ e, Expr.parse? test.expr.render = some e ∧
        ∀ context text, context.node.element.attribute? test.name = some text →
          ∃ value, e.eval context = some value ∧
            (value.truth = true ↔ test.matching.Accepts (test.value.getD "") text) := by
  intro test
  have named : Lexeme.spellsName test.name.toList = true := by decide
  have hend : test.matching ≠ .endsWith := by decide
  have hword : test.matching = .hasWord → ' ' ∉ (test.value.getD "").toList := by decide
  exact ⟨named, hend, hword, parse?_render_accepts named hend hword⟩

/-! ### The end of a text -/

/-- The test for the end of a text is also true where fewer than three underscores follow the value
at the end, or three of them anywhere. -/
theorem parse?_render_endsWith {test : AttributeTest}
    (named : Lexeme.spellsName test.name.toList = true) (hend : test.matching = .endsWith) :
    ∃ e, Expr.parse? test.expr.render = some e ∧
      ∀ context text, context.node.element.attribute? test.name = some text →
        ∃ value, e.eval context = some value ∧
          (value.truth = true ↔
            (∃ k < 3, (test.value.getD "").toList ++ List.replicate k '_' <:+ text.toList) ∨
              (test.value.getD "").toList ++ List.replicate 3 '_' <:+: text.toList) := by
  obtain ⟨e, hparse, hsays⟩ := parse?_render_says named
  refine ⟨e, hparse, fun context text hfound => ?_⟩
  obtain ⟨value, heval, htruth⟩ := hsays context
  rw [hfound, Says, hend] at htruth
  exact ⟨value, heval, htruth.trans append_replicate_infix_iff⟩

theorem parse?_render_endsWith_mark :
    let test : AttributeTest := ⟨"href", .endsWith, some "_\"'"⟩
    Lexeme.spellsName test.name.toList = true ∧ test.matching = .endsWith ∧
      ∃ e, Expr.parse? test.expr.render = some e ∧
        ∀ context text, context.node.element.attribute? test.name = some text →
          ∃ value, e.eval context = some value ∧
            (value.truth = true ↔
              (∃ k < 3, (test.value.getD "").toList ++ List.replicate k '_' <:+ text.toList) ∨
                (test.value.getD "").toList ++ List.replicate 3 '_' <:+: text.toList) := by
  intro test
  have named : Lexeme.spellsName test.name.toList = true := by decide
  exact ⟨named, rfl, parse?_render_endsWith named rfl⟩

/-- The test for an end `x` is true of `x_`. -/
theorem eval_endsWith_underscore :
    let node : Node := ⟨[0], .mk "e" [("a", "x_")] []⟩
    (SelectorList.parse "[a$=x]").result =
        .ok [[{ attributes := [⟨"a", .endsWith, some "x"⟩] }]] ∧
      ∃ e, Expr.parse? (AttributeTest.expr ⟨"a", .endsWith, some "x"⟩).render = some e ∧
        node.element.attribute? "a" = some "x_" ∧
        e.eval ⟨node, 1, 1⟩ = some (.boolean true) ∧ ¬"x".toList <:+ "x_".toList := by
  intro node
  refine ⟨by cbv, _, Expr.parse?_render (fits_expr (by decide)), rfl, by cbv, by decide⟩

/-! ### Attributes that are not there -/

theorem says_none_iff (test : AttributeTest) :
    test.Says none ↔
      test.matching = .differs ∨ test.matching.searches = true ∧ test.value.getD "" = "" := by
  obtain ⟨name, matching, value⟩ := test
  cases matching with
  | equals | present | differs | dashMatch | startsWith | contains =>
    simp [Says, Matching.searches]
  | endsWith =>
    have hmarks := marks_infix_iff [] (value.getD "").toList (List.replicate 3 '_')
    simpa [Says, Matching.searches] using hmarks
  | hasWord =>
    have hmarks := marks_infix_iff [' '] (value.getD "").toList [' ']
    simpa [Says, Matching.searches] using hmarks

/-- A test that was read from a selector, at an element without the attribute. It is false, but for
a test of difference, and for a search that is given an empty value. -/
theorem parse?_render_missing {text : String} {selector : Selector}
    (h : (Selector.parse text).result = .ok selector) {compound : Compound}
    (hcompound : compound ∈ selector) {test : AttributeTest}
    (htest : test ∈ compound.attributes) :
    ∃ e, Expr.parse? test.expr.render = some e ∧
      ∀ context, context.node.element.attribute? test.name = none →
        ∃ value, e.eval context = some value ∧
          (value.truth = true ↔ test.matching = .differs ∨
            test.matching.searches = true ∧ test.value.getD "" = "") := by
  have hname := Selector.isName_of_mem_attributes h hcompound htest
  obtain ⟨e, hparse, hsays⟩ := parse?_render_says (Lexeme.spellsName_of_isName hname)
  refine ⟨e, hparse, fun context hmissing => ?_⟩
  obtain ⟨value, heval, htruth⟩ := hsays context
  rw [hmissing, says_none_iff] at htruth
  exact ⟨value, heval, htruth⟩

/-- A dot with no class after it asks for the empty word. -/
theorem parse?_render_missing_class :
    let test : AttributeTest := ⟨"class", .hasWord, some ""⟩
    let compound : Compound := { attributes := [⟨"id", .equals, some ""⟩, test] }
    (Selector.parse "#.").result = .ok [compound] ∧ test ∈ compound.attributes ∧
      ∃ e, Expr.parse? test.expr.render = some e ∧
        ∀ context, context.node.element.attribute? test.name = none →
          ∃ value, e.eval context = some value ∧
            (value.truth = true ↔ test.matching = .differs ∨
              test.matching.searches = true ∧ test.value.getD "" = "") := by
  intro test compound
  have hparse : (Selector.parse "#.").result = .ok [compound] := by cbv
  have htest : test ∈ compound.attributes := by simp [compound]
  exact ⟨hparse, htest, parse?_render_missing hparse List.mem_cons_self htest⟩

/-- The test for an empty text in an attribute is true of an element without attributes. -/
theorem eval_contains_missing :
    let node : Node := ⟨[0], .mk "e" [] []⟩
    (Selector.parse "[a*='']").result =
        .ok [{ attributes := [⟨"a", .contains, some ""⟩] }] ∧
      ∃ e, Expr.parse? (AttributeTest.expr ⟨"a", .contains, some ""⟩).render = some e ∧
        node.element.attribute? "a" = none ∧ e.eval ⟨node, 1, 1⟩ = some (.boolean true) := by
  intro node
  exact ⟨by cbv, _, Expr.parse?_render (fits_expr (by decide)), rfl, by cbv⟩

end AttributeTest

end SelectorPath
