import SelectorPath.Proofs.Query
import SelectorPath.Proofs.XPath.Reading
import SelectorPath.Proofs.XPath.Tree

/-! What the query of a selector list is meant to say: one path for each member, one step for each
compound, and as predicates the tests of the compound, in which a value stands as the text that it
is. The text of a query can be read again, and what is read says exactly this, whatever the names,
values and arguments hold. -/

namespace SelectorPath

open XPath

/-! ### What is meant -/

namespace XPath

/-- What a step says. -/
@[ext] structure StepTree where
  axis : Axis
  predicates : List Tree

def Step.tree (step : Step) : StepTree :=
  ⟨step.axis, step.predicates.map Expr.tree⟩

/-- What a path says. -/
abbrev PathTree := List StepTree

def Path.tree (path : Path) : PathTree :=
  path.map Step.tree

end XPath

def AttributeTest.tree (test : AttributeTest) : Tree :=
  let attr := Tree.attr test.name
  let value := test.value.getD ""
  match test.matching with
  | .equals => .binary .equal attr (.text value)
  | .startsWith => .call .startsWith [attr, .text value]
  | .endsWith => .call .contains [.call .concat [attr, .text "___"], .text (value ++ "___")]
  | .hasWord =>
    .call .contains
      [.call .concat [.text " ", attr, .text " "], .text (" " ++ value ++ " ")]
  | .dashMatch =>
    .binary .or
      (.binary .or (.binary .equal attr (.text value))
        (.call .startsWith [attr, .text (value ++ " ")]))
      (.call .startsWith [attr, .text (value ++ "-")])
  | .differs => .call .not [.binary .equal attr (.text value)]
  | .present => attr
  | .contains => .call .contains [attr, .text value]

def Formula.tree : Formula → Tree
  | index position => .binary .equal (.call .position []) (.ofInt position)
  | linear factor offset =>
    let position := Tree.call .position []
    let shifted : Tree :=
      .binary (if 0 < offset then .minus else .plus) position (.number offset.natAbs)
    let cycle : Tree := .binary .equal (.binary .mod shifted (.number factor.natAbs)) (.number 0)
    if factor = 0 then .binary .equal position (.ofInt offset)
    else if factor < 0 then .binary .and cycle (.binary .atMost position (.ofInt offset))
    else if 0 ≤ offset then .binary .and cycle (.binary .atLeast position (.ofInt offset))
    else cycle

/-- The tests of a compound in their order: the element name, the attributes, and the
pseudo-classes, which say what `tree` gives. -/
def Compound.trees (tree : Pseudo → Tree) (compound : Compound) : List Tree :=
  (compound.element.map fun name => .binary .equal (.call .name []) (.text name)).toList ++
    compound.attributes.map AttributeTest.tree ++ compound.pseudos.map tree

/-- What a pseudo-class is meant to say. A negation says that of the members of its argument, each a
single compound, there is none of which all tests hold; what is negated there is read in turn. -/
inductive Pseudo.Intends : Pseudo → Tree → Prop
  | firstChild {pseudo : Pseudo} (named : pseudo.name = "first-child") :
      Intends pseudo (.binary .equal (.call .position []) (.number 1))
  | lastChild {pseudo : Pseudo} (named : pseudo.name = "last-child") :
      Intends pseudo (.binary .equal (.call .position []) (.call .last []))
  | nthChild {pseudo : Pseudo} {argument : String} {formula : Formula}
      (named : pseudo.name = "nth-child") (given : pseudo.argument = some argument)
      (parsed : Formula.parse? argument = some formula) :
      Intends pseudo formula.tree
  | negation {pseudo : Pseudo} {argument : String} {compounds : List Compound}
      {tree : Pseudo → Tree} {alternatives : List Tree} {any : Tree}
      (named : pseudo.name = "not") (given : pseudo.argument = some argument)
      (parsed : (SelectorList.parse argument).result = .ok (compounds.map ([·])))
      (inner : ∀ compound ∈ compounds, ∀ pseudo ∈ compound.pseudos, Intends pseudo (tree pseudo))
      (conjunctions : List.Forall₂
        (fun compound e => Tree.joined? .and (compound.trees tree) = some e) compounds alternatives)
      (disjunction : Tree.joined? .or alternatives = some any) :
      Intends pseudo (.call .not [any])

structure Compound.Intends (compound : Compound) (step : StepTree) : Prop where
  axis : step.axis = .child ↔ compound.combinator = .child
  predicates : ∃ tree : Pseudo → Tree,
    (∀ pseudo ∈ compound.pseudos, pseudo.Intends (tree pseudo)) ∧
      step.predicates = compound.trees tree

/-- A member is meant as a path to the document element and on from there. -/
def Selector.Intends (member : List Char) (path : PathTree) : Prop :=
  ∃ selector steps, (Selector.read member).result = .ok selector ∧
    List.Forall₂ Compound.Intends selector steps ∧ path = ⟨.child, []⟩ :: steps

def SelectorList.Intends (text : String) (paths : List PathTree) : Prop :=
  List.Forall₂ Selector.Intends (SelectorList.split text.toList) paths

/-! ### It is one thing -/

theorem Compound.trees_congr {tree tree' : Pseudo → Tree} {compound : Compound}
    (h : ∀ pseudo ∈ compound.pseudos, tree pseudo = tree' pseudo) :
    compound.trees tree = compound.trees tree' := by
  rw [trees, trees, List.map_congr_left h]

theorem Pseudo.Intends.unique {pseudo : Pseudo} {t t' : Tree} (h : pseudo.Intends t)
    (h' : pseudo.Intends t') : t = t' := by
  induction h generalizing t' with
  | firstChild named =>
    cases h' with
    | firstChild => rfl
    | lastChild named' | nthChild named' | negation named' => simp [named] at named'
  | lastChild named =>
    cases h' with
    | lastChild => rfl
    | firstChild named' | nthChild named' | negation named' => simp [named] at named'
  | nthChild named given parsed =>
    cases h' with
    | nthChild _ given' parsed' =>
      obtain rfl := Option.some.inj (given.symm.trans given')
      rw [Option.some.inj (parsed.symm.trans parsed')]
    | firstChild named' | lastChild named' | negation named' => simp [named] at named'
  | negation named given parsed inner conjunctions disjunction ih =>
    cases h' with
    | negation _ given' parsed' inner' conjunctions' disjunction' =>
      obtain rfl := Option.some.inj (given.symm.trans given')
      have hcompounds := Except.ok.inj (parsed.symm.trans parsed')
      obtain rfl := List.map_injective_iff.2 List.singleton_injective hcompounds
      obtain rfl := eq_of_forall₂ conjunctions conjunctions' <| by
        intro compound hcompound e e' he he'
        rw [Compound.trees_congr fun pseudo hpseudo =>
          ih compound hcompound pseudo hpseudo (inner' compound hcompound pseudo hpseudo)] at he
        exact Option.some.inj (he.symm.trans he')
      rw [Option.some.inj (disjunction.symm.trans disjunction')]
    | firstChild named' | lastChild named' | nthChild named' => simp [named] at named'

theorem Compound.Intends.unique {compound : Compound} {step step' : StepTree}
    (h : compound.Intends step) (h' : compound.Intends step') : step = step' := by
  obtain ⟨haxis, tree, htree, hpredicates⟩ := h
  obtain ⟨haxis', tree', htree', hpredicates'⟩ := h'
  have htrees : compound.trees tree = compound.trees tree' :=
    trees_congr fun pseudo hpseudo => (htree pseudo hpseudo).unique (htree' pseudo hpseudo)
  refine StepTree.ext ?_ (hpredicates.trans (htrees.trans hpredicates'.symm))
  have hchild := haxis.trans haxis'.symm
  cases hstep : step.axis <;> cases hstep' : step'.axis <;> simp_all

theorem Selector.Intends.unique {member : List Char} {path path' : PathTree}
    (h : Selector.Intends member path) (h' : Selector.Intends member path') : path = path' := by
  obtain ⟨selector, steps, hread, hsteps, rfl⟩ := h
  obtain ⟨selector', steps', hread', hsteps', rfl⟩ := h'
  obtain rfl := Except.ok.inj (hread.symm.trans hread')
  rw [eq_of_forall₂ hsteps hsteps' fun _ _ _ _ hstep hstep' => hstep.unique hstep']

theorem SelectorList.Intends.unique {text : String} {paths paths' : List PathTree}
    (h : SelectorList.Intends text paths) (h' : SelectorList.Intends text paths') :
    paths = paths' :=
  eq_of_forall₂ h h' fun _ _ _ _ hpath hpath' => hpath.unique hpath'

/-! ### Tests can be written and say what they are meant to -/

namespace AttributeTest

@[simp] theorem tree_expr (test : AttributeTest) : test.expr.tree = test.tree := by
  obtain ⟨name, matching, value⟩ := test
  cases matching <;> simp [expr, AttributeTest.tree, Expr.tree, Tree.ofCall, Tree.text?]

theorem fits_expr {test : AttributeTest} (h : Lexeme.spellsName test.name.toList = true) :
    test.expr.Fits 0 := by
  obtain ⟨name, matching, value⟩ := test
  have hequals (level : Nat) (hlevel : level ≤ Operator.equal.level) (text : String) :
      (Expr.equals (.attr name) (.ofString text)).Fits level :=
    .binary hlevel (.attr h) (Expr.fits_ofString _ _)
  have hcall {level : Nat} (function : Function) {e : Expr} (he : e.Fits 0) (text : String) :
      (Expr.call function [e, .ofString text]).Fits level :=
    .call (by simp [he, Expr.fits_ofString])
  cases matching with
  | equals => exact hequals 0 (Nat.zero_le _) _
  | startsWith => exact hcall _ (.attr h) _
  | contains => exact hcall _ (.attr h) _
  | present => exact .attr h
  | dashMatch =>
    refine .binary (Nat.zero_le _) (.binary (Nat.le_refl _) ?_ ?_) ?_
    · exact hequals _ (by decide) _
    · exact hcall _ (.attr h) _
    · exact hcall _ (.attr h) _
  | differs =>
    refine .call fun argument hargument => ?_
    obtain rfl := List.mem_singleton.1 hargument
    exact hequals 0 (Nat.zero_le _) _
  | endsWith =>
    refine hcall _ (.call ?_) _
    simp [Expr.Fits.attr h, Expr.Fits.literal, Quote.char]
  | hasWord =>
    refine hcall _ (.call ?_) _
    simp [Expr.Fits.attr h, Expr.Fits.literal, Quote.char]

end AttributeTest

namespace Formula

@[simp] theorem tree_expr (formula : Formula) : formula.expr.tree = formula.tree := by
  cases formula with
  | index position => simp [expr, Formula.tree, Expr.tree, Tree.ofCall]
  | linear factor offset =>
    simp only [expr, Formula.tree]
    split_ifs <;> simp [Expr.tree, Tree.ofCall]

theorem fits_expr (formula : Formula) : formula.expr.Fits 0 := by
  have hposition (level : Nat) : (Expr.call .position []).Fits level := .call (by simp)
  cases formula with
  | index position => exact .binary (Nat.zero_le _) (hposition _) (Expr.fits_ofInt _ _)
  | linear factor offset =>
    have hshifted : (if 0 < offset then
        Expr.binary .minus (.call .position []) (.number offset.natAbs)
        else .binary .plus (.call .position []) (.number offset.natAbs)).Fits 0 := by
      split <;> exact .binary (Nat.zero_le _) (hposition _) .number
    have hcycle {level : Nat} (hlevel : level ≤ Operator.equal.level) {e : Expr} (he : e.Fits 0) :
        (Expr.equals (.binary .mod (.group e) (.number factor.natAbs)) (.number 0)).Fits level :=
      .binary hlevel (.binary (by decide) (.group he) .number) .number
    have hbound {operator : Operator} (hlevel : Operator.and.level + 1 ≤ operator.level) :
        (Expr.binary operator (.call .position []) (.ofInt offset)).Fits
          (Operator.and.level + 1) :=
      .binary hlevel (hposition _) (Expr.fits_ofInt _ _)
    by_cases hfactor : factor = 0
    · rw [expr, if_pos hfactor]
      exact .binary (Nat.zero_le _) (hposition _) (Expr.fits_ofInt _ _)
    · rw [expr, if_neg hfactor]
      by_cases hnegative : factor < 0
      · rw [if_pos hnegative]
        exact .binary (Nat.zero_le _) (hcycle (by decide) hshifted) (hbound (by decide))
      · rw [if_neg hnegative]
        split
        · exact .binary (Nat.zero_le _) (hcycle (by decide) hshifted) (hbound (by decide))
        · exact hcycle (Nat.zero_le _) hshifted

end Formula

/-! ### Negations -/

theorem Pseudo.States.fits {Negates : String → Expr → Prop} {pseudo : Pseudo} {e : Expr}
    (h : pseudo.States Negates e) (hnegates : ∀ argument e, Negates argument e → e.Fits 0) :
    e.Fits 0 := by
  cases h with
  | firstChild => exact .binary (Nat.zero_le _) (.call (by simp)) .number
  | lastChild => exact .binary (Nat.zero_le _) (.call (by simp)) (.call (by simp))
  | nthChild parsed => exact Formula.fits_expr _
  | negation negated => exact hnegates _ _ negated

theorem Pseudo.States.intends {Negates : String → Expr → Prop} {pseudo : Pseudo} {e : Expr}
    (h : pseudo.States Negates e)
    (hnegates : ∀ argument e, Negates argument e → Pseudo.Intends ⟨"not", some argument⟩ e.tree) :
    pseudo.Intends e.tree := by
  cases h with
  | firstChild =>
    simpa [Expr.tree, Tree.ofCall] using Pseudo.Intends.firstChild rfl
  | lastChild =>
    simpa [Expr.tree, Tree.ofCall] using Pseudo.Intends.lastChild rfl
  | nthChild parsed =>
    rw [Formula.tree_expr]
    exact .nthChild rfl rfl parsed
  | negation negated => exact hnegates _ _ negated

namespace Compound

theorem fits_of_testsWith {negate : String → Outcome Expr} {compound : Compound}
    {tests : List Expr} (h : (compound.testsWith negate).result = .ok tests)
    (hnames : ∀ test ∈ compound.attributes, Text.isName test.name.toList = true)
    (hnegate : ∀ argument e, (negate argument).result = .ok e → e.Fits 0) :
    ∀ e ∈ tests, e.Fits 0 := by
  obtain ⟨pseudoTests, hpseudos, rfl⟩ := result_testsWith_eq_ok_iff.1 h
  intro e he
  simp only [ownTests, List.mem_append, Option.mem_toList, List.mem_map] at he
  rcases he with (helement | ⟨test, htest, rfl⟩) | hpseudo
  · obtain ⟨name, _, rfl⟩ := Option.map_eq_some_iff.1 helement
    exact .binary (Nat.zero_le _) (.call (by simp)) (Expr.fits_ofString _ _)
  · exact AttributeTest.fits_expr (Lexeme.spellsName_of_isName (hnames test htest))
  · obtain ⟨pseudo, _, hstates⟩ := exists_left_of_forall₂ hpseudos hpseudo
    exact hstates.fits hnegate

end Compound

/-- The tree of the test of a pseudo-class, where it has one. -/
def Pseudo.treeWith (negate : String → Outcome Expr) (pseudo : Pseudo) : Tree :=
  match (pseudo.exprWith negate).result with
  | .ok e => e.tree
  | .error _ => .text ""

theorem Pseudo.treeWith_of_states {negate : String → Outcome Expr} {pseudo : Pseudo} {e : Expr}
    (h : pseudo.States (fun argument e => (negate argument).result = .ok e) e) :
    pseudo.treeWith negate = e.tree := by
  rw [treeWith, result_exprWith_eq_ok_iff.2 h]

namespace Compound

theorem map_tree_ownTests (compound : Compound) (tree : Pseudo → Tree) :
    compound.ownTests.map Expr.tree ++ compound.pseudos.map tree = compound.trees tree := by
  cases helement : compound.element <;>
    simp [ownTests, trees, helement, Expr.tree, Tree.ofCall]

theorem map_tree_of_testsWith {negate : String → Outcome Expr} {compound : Compound}
    {tests : List Expr} (h : (compound.testsWith negate).result = .ok tests) :
    tests.map Expr.tree = compound.trees (Pseudo.treeWith negate) := by
  obtain ⟨pseudoTests, hpseudos, rfl⟩ := result_testsWith_eq_ok_iff.1 h
  have htrees : pseudoTests.map Expr.tree = compound.pseudos.map (Pseudo.treeWith negate) := by
    rw [← List.forall₂_eq_eq_eq, List.forall₂_map_left_iff, List.forall₂_map_right_iff]
    exact (hpseudos.imp fun pseudo e hstates => (Pseudo.treeWith_of_states hstates).symm).flip
  rw [List.map_append, htrees, map_tree_ownTests]

theorem intends_of_testsWith {negate : String → Outcome Expr} {compound : Compound}
    {tests : List Expr} (h : (compound.testsWith negate).result = .ok tests)
    (hnegate : ∀ argument e, (negate argument).result = .ok e →
      Pseudo.Intends ⟨"not", some argument⟩ e.tree) :
    ∀ pseudo ∈ compound.pseudos, pseudo.Intends (pseudo.treeWith negate) := by
  obtain ⟨pseudoTests, hpseudos, _⟩ := result_testsWith_eq_ok_iff.1 h
  intro pseudo hpseudo
  obtain ⟨e, _, hstates⟩ := exists_right_of_forall₂ hpseudos hpseudo
  rw [Pseudo.treeWith_of_states hstates]
  exact hstates.intends hnegate

end Compound

namespace Negation

theorem fits_expr {levels : Nat} {argument : String} {e : Expr}
    (h : (expr levels argument).result = .ok e) : e.Fits 0 := by
  induction levels generalizing argument e with
  | zero => exact absurd h (result_expr_zero_ne_ok argument e)
  | succ levels ih =>
    obtain ⟨compounds, alternatives, any, parsed, states, joined, rfl⟩ :=
      result_expr_eq_ok_iff.1 h
    have halternatives : ∀ e ∈ alternatives, e.Fits 0 := by
      intro e he
      obtain ⟨compound, hcompound, _, tests, htests, joined⟩ := exists_left_of_forall₂ states he
      have hnames := SelectorList.isName_of_mem_attributes parsed
        (List.mem_map_of_mem hcompound) List.mem_cons_self
      exact Expr.fits_of_joined? joined
        (Compound.fits_of_testsWith htests hnames fun argument e => ih)
    refine .call fun argument hargument => ?_
    obtain rfl := List.mem_singleton.1 hargument
    exact Expr.fits_of_joined? joined halternatives

theorem intends_tree {levels : Nat} {argument : String} {e : Expr}
    (h : (expr levels argument).result = .ok e) :
    Pseudo.Intends ⟨"not", some argument⟩ e.tree := by
  induction levels generalizing argument e with
  | zero => exact absurd h (result_expr_zero_ne_ok argument e)
  | succ levels ih =>
    obtain ⟨compounds, alternatives, any, parsed, states, joined, rfl⟩ :=
      result_expr_eq_ok_iff.1 h
    have hinner : ∀ compound ∈ compounds, ∀ pseudo ∈ compound.pseudos,
        pseudo.Intends (pseudo.treeWith (expr levels)) := by
      intro compound hcompound
      obtain ⟨e, _, _, tests, htests, _⟩ := exists_right_of_forall₂ states hcompound
      exact Compound.intends_of_testsWith htests fun argument e => ih
    have hconjunctions : List.Forall₂ (fun compound e =>
        Tree.joined? .and (compound.trees (Pseudo.treeWith (expr levels))) = some e)
        compounds (alternatives.map Expr.tree) := by
      rw [List.forall₂_map_right_iff]
      refine states.imp fun compound e hstates => ?_
      obtain ⟨_, tests, htests, joined⟩ := hstates
      rw [← Compound.map_tree_of_testsWith htests]
      exact Expr.joined?_map_tree joined
    simpa [Expr.tree, Tree.ofCall] using
      Pseudo.Intends.negation rfl rfl parsed hinner hconjunctions (Expr.joined?_map_tree joined)

end Negation

/-! ### Queries -/

theorem fits_of_query {text : String} {union : Union} (h : (query text).result = .ok union) :
    union.Fits := by
  obtain ⟨selectors, parsed, hpaths⟩ := result_query_eq_ok_iff.1 h
  refine ⟨?_, ?_, ?_⟩
  · rintro rfl
    -- No paths would mean no selectors, and those no members.
    exact SelectorList.ne_nil_of_read parsed (List.forall₂_nil_right_iff.1 hpaths)
  · intro path hpath
    obtain ⟨selector, _, hselector⟩ := exists_left_of_forall₂ hpaths hpath
    obtain ⟨steps, _, rfl⟩ := Selector.result_path_eq_ok_iff.1 hselector
    exact List.cons_ne_nil _ _
  · intro path hpath step hstep e he
    obtain ⟨selector, hmem, hselector⟩ := exists_left_of_forall₂ hpaths hpath
    obtain ⟨steps, hsteps, rfl⟩ := Selector.result_path_eq_ok_iff.1 hselector
    rcases List.mem_cons.1 hstep with rfl | hstep
    · cases he
    · obtain ⟨compound, hcompound, hstates⟩ := exists_left_of_forall₂ hsteps hstep
      have htests := (Compound.result_step_eq_ok_iff.1 hstates).2
      have hnames := SelectorList.isName_of_mem_attributes parsed hmem hcompound
      exact Compound.fits_of_testsWith htests hnames (fun _ _ => Negation.fits_expr) e he

theorem Compound.intends_of_step {compound : Compound} {step : Step}
    (h : compound.step.result = .ok step) : compound.Intends step.tree := by
  obtain ⟨haxis, htests⟩ := Compound.result_step_eq_ok_iff.1 h
  refine ⟨?_, Pseudo.treeWith (Negation.expr Negation.limit), ?_, ?_⟩
  · rw [Step.tree, haxis]
    cases compound.combinator <;> simp [Combinator.axis]
  · exact Compound.intends_of_testsWith htests fun _ _ => Negation.intends_tree
  · exact Compound.map_tree_of_testsWith htests

theorem intends_of_query {text : String} {union : Union} (h : (query text).result = .ok union) :
    SelectorList.Intends text (union.map Path.tree) := by
  obtain ⟨selectors, parsed, hpaths⟩ := result_query_eq_ok_iff.1 h
  rw [SelectorList.Intends, List.forall₂_map_right_iff]
  refine (forall₂_comp (SelectorList.result_read_eq_ok_iff.1 parsed) hpaths).imp ?_
  rintro member path ⟨selector, hread, hpath⟩
  obtain ⟨steps, hsteps, rfl⟩ := Selector.result_path_eq_ok_iff.1 hpath
  refine ⟨selector, steps.map Step.tree, hread, ?_, rfl⟩
  rw [List.forall₂_map_right_iff]
  exact hsteps.imp fun _ _ => Compound.intends_of_step

/-- The text of a query is an XPath expression that says what the selector list means and nothing
else. -/
theorem parse?_xpath_intends {text x : String} (h : (xpath text).result = .ok x) :
    ∃ union, Union.parse? x = some union ∧
      ∀ paths, SelectorList.Intends text paths ↔ paths = union.map Path.tree := by
  obtain ⟨union, hquery, rfl⟩ := result_xpath_eq_ok_iff.1 h
  have hintends := intends_of_query hquery
  refine ⟨union, Union.parse?_render (fits_of_query hquery), fun paths => ⟨fun h => ?_, ?_⟩⟩
  · exact h.unique hintends
  · rintro rfl
    exact hintends

theorem parse?_xpath_intends_negation :
    let text := "[b='\"|]'],:not(i,:not(b))"
    let x := "/*/descendant::*[@b='\"|]']|" ++
      "/*/descendant::*[not((name() = \"i\") or (not(name() = \"b\")))]"
    (xpath text).result = .ok x ∧
      ∃ union, Union.parse? x = some union ∧
        ∀ paths, SelectorList.Intends text paths ↔ paths = union.map Path.tree := by
  intro text x
  have hx : (xpath text).result = .ok x := by cbv
  exact ⟨hx, parse?_xpath_intends hx⟩

end SelectorPath
