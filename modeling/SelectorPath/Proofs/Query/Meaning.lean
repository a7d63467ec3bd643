import SelectorPath.Proofs.Query.Intent
import SelectorPath.Proofs.XPath.Evaluation

/-! What a query selects. A node matches a compound if its name and its attributes are as the
compound asks and it matches nothing that the compound negates. A query whose only pseudo-class is
negation selects the nodes at the end of a chain: below the document element there is one node for
each compound of a selector, which matches the compound and hangs below the one before it as the
combinator says. -/

namespace SelectorPath

open XPath

/-! ### Matching -/

/-- The name and the attributes of a node are as a compound asks. -/
structure Compound.Admits (compound : Compound) (node : Node) : Prop where
  name : ∀ name, compound.element = some name → node.element.name = name
  attributes : ∀ test ∈ compound.attributes, test.expr.Holds node

/-- A node matches nothing of the argument of a negation. -/
def Excludes (node : Node) (argument : String) : Prop :=
  ∀ selectors, (parsed : (SelectorList.parse argument).result = .ok selectors) →
    ∀ selector, (hselector : selector ∈ selectors) →
      ∀ compound, (hcompound : compound ∈ selector) →
        ¬(compound.Admits node ∧ ∀ inner, (hinner : ⟨"not", some inner⟩ ∈ compound.pseudos) →
          Excludes node inner)
termination_by argument.length
decreasing_by
  -- An argument is shorter than the member that it stands in.
  obtain ⟨member, hle, hread⟩ := SelectorList.exists_member_of_mem parsed hselector
  have hlt := Selector.length_argument_lt hread hcompound hinner rfl
  omega

def Compound.Matches (compound : Compound) (node : Node) : Prop :=
  compound.Admits node ∧
    ∀ argument, ⟨"not", some argument⟩ ∈ compound.pseudos → Excludes node argument

theorem excludes_iff {node : Node} {argument : String} :
    Excludes node argument ↔
      ∀ selectors, (SelectorList.parse argument).result = .ok selectors →
        ∀ selector ∈ selectors, ∀ compound ∈ selector, ¬compound.Matches node := by
  rw [Excludes]
  rfl

def Combinator.Relates : Combinator → Node → Node → Prop
  | descendant => Node.IsDescendant
  | child => Node.IsChild

/-- From a node, a chain of nodes that match the compounds one after the other leads to another. -/
def Selector.Reaches : Selector → Node → Node → Prop
  | [], start, node => node = start
  | compound :: rest, start, node =>
    ∃ next, compound.combinator.Relates start next ∧ compound.Matches next ∧
      Reaches rest next node

/-- The text has no pseudo-class but negation, and neither have the arguments of its negations. -/
inductive SelectorList.NegationsOnly : String → Prop
  | intro {text : String} {selectors : SelectorList}
      (parsed : (SelectorList.parse text).result = .ok selectors)
      (named : ∀ selector ∈ selectors, ∀ compound ∈ selector, ∀ pseudo ∈ compound.pseudos,
        pseudo.name = "not")
      (inner : ∀ selector ∈ selectors, ∀ compound ∈ selector, ∀ pseudo ∈ compound.pseudos,
        ∀ argument, pseudo.argument = some argument → NegationsOnly argument) :
      NegationsOnly text

/-! ### Tests of a compound -/

theorem AttributeTest.tests_expr (test : AttributeTest) : test.expr.Tests test.expr.Holds := by
  obtain ⟨name, matching, value⟩ := test
  intro context
  cases matching <;>
    simp [AttributeTest.expr, Expr.equals, Expr.Holds, Expr.holds, Expr.eval, Expr.evalAll,
      Function.apply, Operator.apply, Value.equal?, Value.number?, Value.truth]

theorem tests_name (name : String) :
    (Expr.equals (.call .name []) (.ofString name)).Tests fun node => node.element.name = name := by
  intro context
  simp [Expr.equals, Expr.eval, Expr.evalAll, Function.apply, Operator.apply, Value.equal?,
    Value.number?, Value.truth]

namespace Compound

theorem tests_ownTests (compound : Compound) : ∀ e ∈ compound.ownTests, e.Tests e.Holds := by
  intro e he
  simp only [ownTests, List.mem_append, Option.mem_toList, List.mem_map] at he
  rcases he with helement | ⟨test, _, rfl⟩
  · obtain ⟨name, _, rfl⟩ := Option.map_eq_some_iff.1 helement
    exact (tests_name name).self
  · exact test.tests_expr

theorem holds_ownTests_iff {compound : Compound} {node : Node} :
    (∀ e ∈ compound.ownTests, e.Holds node) ↔ compound.Admits node := by
  rw [ownTests, List.forall_mem_append]
  constructor
  · rintro ⟨helement, hattributes⟩
    refine ⟨fun name hname => ?_, fun test htest => ?_⟩
    · have hholds := helement (.equals (.call .name []) (.ofString name)) (by simp [hname])
      exact ((tests_name name).holds_iff ⟨node, 1, 1⟩).1 hholds
    · exact hattributes _ (List.mem_map_of_mem htest)
  · rintro ⟨hname, hattributes⟩
    refine ⟨fun e he => ?_, fun e he => ?_⟩
    · obtain ⟨name, helement, rfl⟩ := Option.map_eq_some_iff.1 (Option.mem_toList.1 he)
      exact ((tests_name name).holds_iff ⟨node, 1, 1⟩).2 (hname name helement)
    · obtain ⟨test, htest, rfl⟩ := List.mem_map.1 he
      exact hattributes test htest

end Compound

theorem Pseudo.States.exists_negation {Negates : String → Expr → Prop} {pseudo : Pseudo} {e : Expr}
    (h : pseudo.States Negates e) (hname : pseudo.name = "not") :
    ∃ argument, pseudo = ⟨"not", some argument⟩ ∧ Negates argument e := by
  cases h with
  | negation negated => exact ⟨_, rfl, negated⟩
  | firstChild | lastChild | nthChild => simp [PseudoClass.name] at hname

section TestsWith

variable {negate : String → Outcome Expr} {compound : Compound} {tests : List Expr}
  (h : (compound.testsWith negate).result = .ok tests)
  (named : ∀ pseudo ∈ compound.pseudos, pseudo.name = "not")
  (negates : ∀ pseudo ∈ compound.pseudos, ∀ argument, pseudo.argument = some argument →
    ∀ e, (negate argument).result = .ok e → e.Tests (Excludes · argument))
include h named negates

theorem Compound.tests_of_testsWith : ∀ e ∈ tests, e.Tests e.Holds := by
  obtain ⟨pseudoTests, hpseudos, rfl⟩ := result_testsWith_eq_ok_iff.1 h
  intro e he
  rcases List.mem_append.1 he with he | he
  · exact compound.tests_ownTests e he
  · obtain ⟨pseudo, hpseudo, hstates⟩ := exists_left_of_forall₂ hpseudos he
    obtain ⟨argument, rfl, hnegate⟩ := hstates.exists_negation (named pseudo hpseudo)
    exact (negates _ hpseudo argument rfl e hnegate).self

theorem Compound.holds_tests_iff {node : Node} :
    (∀ e ∈ tests, e.Holds node) ↔ compound.Matches node := by
  obtain ⟨pseudoTests, hpseudos, rfl⟩ := result_testsWith_eq_ok_iff.1 h
  rw [List.forall_mem_append, holds_ownTests_iff, Matches, and_congr_right_iff]
  intro _
  constructor
  · intro hholds argument hargument
    obtain ⟨e, he, hstates⟩ := exists_right_of_forall₂ hpseudos hargument
    obtain ⟨_, hsame, hnegate⟩ := hstates.exists_negation rfl
    cases hsame
    have hexcludes := negates _ hargument argument rfl e hnegate
    exact (hexcludes.holds_iff ⟨node, 1, 1⟩).1 (hholds e he)
  · intro hexcludes e he
    obtain ⟨pseudo, hpseudo, hstates⟩ := exists_left_of_forall₂ hpseudos he
    obtain ⟨argument, rfl, hnegate⟩ := hstates.exists_negation (named pseudo hpseudo)
    have htests := negates _ hpseudo argument rfl e hnegate
    exact (htests.holds_iff ⟨node, 1, 1⟩).2 (hexcludes argument hpseudo)

end TestsWith

/-- The test for a negation says that nothing of its argument matches. -/
theorem Negation.tests_expr {levels : Nat} {argument : String} {e : Expr}
    (h : (expr levels argument).result = .ok e) (only : SelectorList.NegationsOnly argument) :
    e.Tests (Excludes · argument) := by
  induction levels generalizing argument e with
  | zero => exact absurd h (result_expr_zero_ne_ok argument e)
  | succ levels ih =>
    obtain ⟨compounds, alternatives, any, parsed, states, joined, rfl⟩ :=
      result_expr_eq_ok_iff.1 h
    obtain ⟨parsed', named, inner⟩ := only
    obtain rfl := Except.ok.inj (parsed.symm.trans parsed')
    -- Each alternative says that the node matches its compound.
    have halternatives : List.Forall₂ (fun compound e => e.Tests compound.Matches)
        compounds alternatives := by
      refine forall₂_imp_of_mem states ?_
      rintro compound hcompound e ⟨_, tests, htests, joined⟩
      have hmem : [compound] ∈ compounds.map ([·]) := List.mem_map_of_mem hcompound
      have named := named _ hmem compound List.mem_cons_self
      have inner := inner _ hmem compound List.mem_cons_self
      have negates : ∀ pseudo ∈ compound.pseudos, ∀ argument, pseudo.argument = some argument →
          ∀ e, (expr levels argument).result = .ok e → e.Tests (Excludes · argument) := by
        intro pseudo hpseudo argument hargument e he
        exact ih he (inner pseudo hpseudo argument hargument)
      have hall := Expr.tests_of_joined?_and joined
        (Compound.tests_of_testsWith htests named negates)
      exact hall.congr fun node => Compound.holds_tests_iff htests named negates
    have hany := Expr.tests_of_joined?_or joined fun e he => by
      obtain ⟨compound, _, htests⟩ := exists_left_of_forall₂ halternatives he
      exact htests.self
    refine hany.not.congr fun node => ?_
    rw [excludes_iff]
    constructor
    · intro hnone selectors hparsed selector hselector compound hcompound hmatches
      obtain rfl := Except.ok.inj (parsed.symm.trans hparsed)
      obtain ⟨_, hmem, rfl⟩ := List.mem_map.1 hselector
      obtain rfl := List.mem_singleton.1 hcompound
      obtain ⟨e, he, htests⟩ := exists_right_of_forall₂ halternatives hmem
      exact hnone ⟨e, he, (htests.holds_iff ⟨node, 1, 1⟩).2 hmatches⟩
    · rintro hnone ⟨e, he, hholds⟩
      obtain ⟨compound, hcompound, htests⟩ := exists_left_of_forall₂ halternatives he
      have hmatches := (htests.holds_iff ⟨node, 1, 1⟩).1 hholds
      exact hnone _ parsed [compound] (List.mem_map_of_mem hcompound) compound
        List.mem_cons_self hmatches

/-! ### Chains -/

theorem Combinator.mem_nodes_axis_iff {combinator : Combinator} {start node : Node} :
    node ∈ combinator.axis.nodes start ↔ combinator.Relates start node := by
  cases combinator with
  | descendant => exact Node.mem_descendants_iff
  | child => exact Node.mem_children_iff

theorem mem_foldl_select_iff {selector : Selector} {steps : List Step} {nodes : List Node}
    {node : Node}
    (h : List.Forall₂ (fun compound step => ∀ start next, next ∈ step.select start ↔
      compound.combinator.Relates start next ∧ compound.Matches next) selector steps) :
    node ∈ steps.foldl (fun nodes step => nodes.flatMap step.select) nodes ↔
      ∃ start ∈ nodes, selector.Reaches start node := by
  induction h generalizing nodes with
  | nil => simp [Selector.Reaches]
  | cons hstep _ ih =>
    rw [List.foldl_cons, ih]
    simp only [List.mem_flatMap, hstep, Selector.Reaches]
    grind

/-- A step leads from a node to those that hang below it as the compound says and match. -/
theorem Compound.mem_select_step_iff {compound : Compound} {step : Step}
    (h : compound.step.result = .ok step)
    (named : ∀ pseudo ∈ compound.pseudos, pseudo.name = "not")
    (inner : ∀ pseudo ∈ compound.pseudos, ∀ argument, pseudo.argument = some argument →
      SelectorList.NegationsOnly argument) (start next : Node) :
    next ∈ step.select start ↔
      compound.combinator.Relates start next ∧ compound.Matches next := by
  obtain ⟨haxis, htests⟩ := result_step_eq_ok_iff.1 h
  have negates : ∀ pseudo ∈ compound.pseudos, ∀ argument, pseudo.argument = some argument →
      ∀ e, (Negation.expr Negation.limit argument).result = .ok e →
        e.Tests (Excludes · argument) := by
    intro pseudo hpseudo argument hargument e he
    exact Negation.tests_expr he (inner pseudo hpseudo argument hargument)
  rw [Step.mem_select_iff (tests_of_testsWith htests named negates), haxis,
    Combinator.mem_nodes_axis_iff, holds_tests_iff htests named negates]

theorem mem_select_query_iff {text : String} {union : Union}
    (h : (query text).result = .ok union) (only : SelectorList.NegationsOnly text)
    {selectors : SelectorList} (parsed : (SelectorList.parse text).result = .ok selectors)
    (document : Element) (node : Node) :
    node ∈ union.select document ↔
      ∃ selector ∈ selectors, selector.Reaches ⟨[0], document⟩ node := by
  obtain ⟨selectors', parsed', hpaths⟩ := result_query_eq_ok_iff.1 h
  obtain rfl := Except.ok.inj (parsed.symm.trans parsed')
  obtain ⟨parsed', named, inner⟩ := only
  obtain rfl := Except.ok.inj (parsed.symm.trans parsed')
  have hpath : ∀ selector ∈ selectors, ∀ path : Path, selector.path.result = .ok path →
      (node ∈ path.select (.root document) ↔ selector.Reaches ⟨[0], document⟩ node) := by
    intro selector hselector path hpath
    obtain ⟨steps, hsteps, rfl⟩ := Selector.result_path_eq_ok_iff.1 hpath
    have hselect : List.Forall₂ (fun compound step => ∀ start next, next ∈ step.select start ↔
        compound.combinator.Relates start next ∧ compound.Matches next) selector steps := by
      refine forall₂_imp_of_mem hsteps ?_
      intro compound hcompound step hstep
      exact Compound.mem_select_step_iff hstep (named selector hselector compound hcompound)
        (inner selector hselector compound hcompound)
    -- The first step goes from the root to the document element.
    change node ∈ steps.foldl (fun nodes step => nodes.flatMap step.select) [⟨[0], document⟩] ↔ _
    rw [mem_foldl_select_iff hselect]
    simp
  rw [Union.select, List.mem_flatMap]
  constructor
  · rintro ⟨path, hmem, hnode⟩
    obtain ⟨selector, hselector, hstates⟩ := exists_left_of_forall₂ hpaths hmem
    exact ⟨selector, hselector, (hpath selector hselector path hstates).1 hnode⟩
  · rintro ⟨selector, hselector, hreaches⟩
    obtain ⟨path, hmem, hstates⟩ := exists_right_of_forall₂ hpaths hselector
    exact ⟨path, hmem, (hpath selector hselector path hstates).2 hreaches⟩

/-- Reading the text of a query and evaluating it finds, in every document, the nodes that end a
chain for some selector of the list. -/
theorem mem_select_xpath_iff {text x : String} (h : (xpath text).result = .ok x)
    (only : SelectorList.NegationsOnly text) :
    ∃ union selectors, Union.parse? x = some union ∧
      (SelectorList.parse text).result = .ok selectors ∧
      ∀ document node, node ∈ union.select document ↔
        ∃ selector ∈ selectors, selector.Reaches ⟨[0], document⟩ node := by
  obtain ⟨union, hquery, rfl⟩ := result_xpath_eq_ok_iff.1 h
  obtain ⟨selectors, parsed, _⟩ := result_query_eq_ok_iff.1 hquery
  exact ⟨union, selectors, Union.parse?_render (fits_of_query hquery), parsed,
    mem_select_query_iff hquery only parsed⟩

theorem mem_select_xpath_iff_child :
    let text := "u,> b:not(i)"
    let x := "/*/descendant::*[name() = \"u\"]|/*/*[name() = \"b\"][not(name() = \"i\")]"
    (xpath text).result = .ok x ∧ SelectorList.NegationsOnly text ∧
      ∃ union selectors, Union.parse? x = some union ∧
        (SelectorList.parse text).result = .ok selectors ∧
        ∀ document node, node ∈ union.select document ↔
          ∃ selector ∈ selectors, selector.Reaches ⟨[0], document⟩ node := by
  intro text x
  have hx : (xpath text).result = .ok x := by cbv
  have hparsed : (SelectorList.parse text).result = .ok [[{ element := some "u" }],
      [{ combinator := .child, element := some "b", pseudos := [⟨"not", some "i"⟩] }]] := by cbv
  have hinner : (SelectorList.parse "i").result = .ok [[{ element := some "i" }]] := by cbv
  have only : SelectorList.NegationsOnly text := by
    have hnone : SelectorList.NegationsOnly "i" := .intro hinner (by simp) (by simp)
    exact .intro hparsed (by simp) (by simp [hnone])
  exact ⟨hx, only, mem_select_xpath_iff hx only⟩

end SelectorPath
