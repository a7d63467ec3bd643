import SelectorPath.Proofs.Selector
import SelectorPath.Query

/-! When a query exists and what it is made of. Each function that states a part of a selector in
XPath is opened here once: it succeeds exactly if its parts do, and then its tree is made of
theirs. -/

namespace SelectorPath

open XPath

/-! ### Compounds -/

namespace Pseudo

/-- The tests of the known pseudo-classes, where `Negates` relates the argument of a negation to its
test. -/
inductive States (Negates : String → Expr → Prop) : Pseudo → Expr → Prop
  | firstChild (argument : Option String) :
      States Negates ⟨PseudoClass.firstChild.name, argument⟩
        (.equals (.call .position []) (.number 1))
  | lastChild (argument : Option String) :
      States Negates ⟨PseudoClass.lastChild.name, argument⟩
        (.equals (.call .position []) (.call .last []))
  | nthChild {argument : String} {formula : Formula}
      (parsed : Formula.parse? argument = some formula) :
      States Negates ⟨PseudoClass.nthChild.name, some argument⟩ formula.expr
  | negation {argument : String} {e : Expr} (negated : Negates argument e) :
      States Negates ⟨PseudoClass.negation.name, some argument⟩ e

theorem class?_eq_ok_iff {pseudo : Pseudo} {known : PseudoClass} :
    pseudo.class? = .ok known ↔ pseudo.name = known.name := by
  rw [← PseudoClass.ofName?_eq_some_iff]
  unfold class?
  cases PseudoClass.ofName? pseudo.name <;> simp

theorem argumentOf_eq_ok_iff {pseudo : Pseudo} {known : PseudoClass} {argument : String} :
    pseudo.argumentOf known = .ok argument ↔ pseudo.argument = some argument := by
  unfold argumentOf
  cases pseudo.argument <;> simp

theorem formula_eq_ok_iff {argument : String} {parsed : Formula} :
    formula argument = .ok parsed ↔ Formula.parse? argument = some parsed := by
  unfold formula
  cases Formula.parse? argument <;> simp

theorem result_exprWith_eq_ok_iff {negate : String → Outcome Expr} {pseudo : Pseudo} {e : Expr} :
    (pseudo.exprWith negate).result = .ok e ↔
      pseudo.States (fun argument e => (negate argument).result = .ok e) e := by
  rw [exprWith, Outcome.result_bind_eq_ok]
  constructor
  · rintro ⟨known, hknown, he⟩
    obtain ⟨name, argument⟩ := pseudo
    obtain rfl := class?_eq_ok_iff.1 hknown
    cases known with
    | firstChild =>
      cases he
      exact .firstChild argument
    | lastChild =>
      cases he
      exact .lastChild argument
    | nthChild =>
      simp only [Outcome.result_bind_eq_ok] at he
      obtain ⟨text, htext, formula, hformula, he⟩ := he
      obtain rfl := argumentOf_eq_ok_iff.1 htext
      cases he
      exact .nthChild (formula_eq_ok_iff.1 hformula)
    | negation =>
      simp only [Outcome.result_bind_eq_ok] at he
      obtain ⟨text, htext, he⟩ := he
      obtain rfl := argumentOf_eq_ok_iff.1 htext
      exact .negation he
  · intro h
    cases h with
    | firstChild => exact ⟨.firstChild, rfl, rfl⟩
    | lastChild => exact ⟨.lastChild, rfl, rfl⟩
    | nthChild parsed =>
      refine ⟨.nthChild, rfl, ?_⟩
      simp only [Outcome.result_bind_eq_ok]
      exact ⟨_, rfl, _, formula_eq_ok_iff.2 parsed, rfl⟩
    | negation negated =>
      refine ⟨.negation, rfl, ?_⟩
      simp only [Outcome.result_bind_eq_ok]
      exact ⟨_, rfl, negated⟩

end Pseudo

namespace Compound

theorem result_testsWith_eq_ok_iff {negate : String → Outcome Expr} {compound : Compound}
    {tests : List Expr} :
    (compound.testsWith negate).result = .ok tests ↔
      ∃ pseudoTests, List.Forall₂
          (Pseudo.States fun argument e => (negate argument).result = .ok e)
          compound.pseudos pseudoTests ∧
        compound.ownTests ++ pseudoTests = tests := by
  simp only [testsWith, Outcome.result_bind_eq_ok, Outcome.result_mapM_eq_ok,
    Pseudo.result_exprWith_eq_ok_iff, Outcome.result_pure, Except.ok.injEq]

end Compound

/-! ### Negation -/

namespace Negation

/-- The test of one compound of the argument of a negation. -/
structure States (negate : String → Outcome Expr) (compound : Compound) (e : Expr) : Prop where
  combinator : compound.combinator = .descendant
  tests : ∃ tests, (compound.testsWith negate).result = .ok tests ∧
    Expr.joined? .and tests = some e

theorem result_alternative_eq_ok_iff {negate : String → Outcome Expr} {argument : String}
    {selector : Selector} {e : Expr} :
    (alternative negate argument selector).result = .ok e ↔
      ∃ compound, selector = [compound] ∧ States negate compound e := by
  constructor
  · intro h
    unfold alternative at h
    split at h
    · rename_i compound
      split at h
      · cases h
      · rename_i hchild
        obtain ⟨tests, htests, h⟩ := Outcome.result_bind_eq_ok.1 h
        refine ⟨compound, rfl, ?_, tests, htests, ?_⟩
        · cases hcombinator : compound.combinator with
          | descendant => rfl
          | child => exact absurd hcombinator hchild
        · split at h
          · rename_i joined
            cases h
            exact joined
          · cases h
    · cases h
  · rintro ⟨compound, rfl, hcombinator, tests, htests, joined⟩
    have hchild : compound.combinator ≠ .child := by simp [hcombinator]
    rw [alternative, if_neg hchild, Outcome.result_bind_of_ok htests, joined]
    rfl

theorem forall₂_alternative_iff {negate : String → Outcome Expr} {argument : String}
    {selectors : SelectorList} {alternatives : List Expr} :
    List.Forall₂ (fun selector e => (alternative negate argument selector).result = .ok e)
        selectors alternatives ↔
      ∃ compounds : List Compound, selectors = compounds.map ([·]) ∧
        List.Forall₂ (States negate) compounds alternatives := by
  simp only [result_alternative_eq_ok_iff]
  constructor
  · intro h
    induction h with
    | nil => exact ⟨[], rfl, .nil⟩
    | cons first _ ih =>
      obtain ⟨compound, rfl, hcompound⟩ := first
      obtain ⟨compounds, rfl, hcompounds⟩ := ih
      exact ⟨compound :: compounds, rfl, .cons hcompound hcompounds⟩
  · rintro ⟨compounds, rfl, h⟩
    exact List.forall₂_map_left_iff.2 (h.imp fun compound e hstates => ⟨compound, rfl, hstates⟩)

theorem result_exprWith_eq_ok_iff {negate : String → Outcome Expr} {argument : String} {e : Expr} :
    (exprWith negate argument).result = .ok e ↔
      ∃ (compounds : List Compound) (alternatives : List Expr) (any : Expr),
        (SelectorList.parse argument).result = .ok (compounds.map ([·])) ∧
        List.Forall₂ (States negate) compounds alternatives ∧
        Expr.joined? .or alternatives = some any ∧ e = .call .not [any] := by
  simp only [exprWith, Outcome.result_bind_eq_ok, Outcome.result_mapM_eq_ok,
    forall₂_alternative_iff]
  constructor
  · rintro ⟨_, hparse, alternatives, ⟨compounds, rfl, hcompounds⟩, h⟩
    split at h
    · rename_i any joined
      cases h
      exact ⟨compounds, alternatives, any, hparse, hcompounds, joined, rfl⟩
    · cases h
  · rintro ⟨compounds, alternatives, any, hparse, hcompounds, joined, rfl⟩
    refine ⟨_, hparse, alternatives, ⟨compounds, rfl, hcompounds⟩, ?_⟩
    rw [joined]
    rfl

theorem expr_succ (levels : Nat) (argument : String) :
    expr (levels + 1) argument = exprWith (expr levels) argument :=
  rfl

theorem result_expr_eq_ok_iff {levels : Nat} {argument : String} {e : Expr} :
    (expr (levels + 1) argument).result = .ok e ↔
      ∃ (compounds : List Compound) (alternatives : List Expr) (any : Expr),
        (SelectorList.parse argument).result = .ok (compounds.map ([·])) ∧
        List.Forall₂ (States (expr levels)) compounds alternatives ∧
        Expr.joined? .or alternatives = some any ∧ e = .call .not [any] := by
  rw [expr_succ, result_exprWith_eq_ok_iff]

/-- At the last level no argument is read. -/
theorem result_expr_zero_ne_ok (argument : String) (e : Expr) :
    (expr 0 argument).result ≠ .ok e := by
  rintro ⟨⟩

end Negation

/-! ### Paths -/

theorem Compound.result_step_eq_ok_iff {compound : Compound} {step : Step} :
    compound.step.result = .ok step ↔
      step.axis = compound.combinator.axis ∧ compound.tests.result = .ok step.predicates := by
  simp only [Compound.step, Compound.stepWith, Outcome.result_bind_eq_ok, Outcome.result_pure,
    Except.ok.injEq]
  constructor
  · rintro ⟨tests, htests, rfl⟩
    exact ⟨rfl, htests⟩
  · rintro ⟨haxis, htests⟩
    exact ⟨step.predicates, htests, by rw [← haxis]⟩

theorem Selector.path_eq_map (selector : Selector) :
    selector.path = (⟨.child, []⟩ :: ·) <$> selector.mapM Compound.step :=
  rfl

theorem Selector.result_path_eq_ok_iff {selector : Selector} {path : Path} :
    selector.path.result = .ok path ↔
      ∃ steps, List.Forall₂ (fun compound step => compound.step.result = .ok step) selector steps ∧
        ⟨.child, []⟩ :: steps = path := by
  rw [path_eq_map, Outcome.result_map_eq_ok]
  simp only [Outcome.result_mapM_eq_ok]

theorem SelectorList.union_eq_mapM (selectors : SelectorList) :
    selectors.union = selectors.mapM Selector.path :=
  rfl

theorem query_eq_bind (text : String) :
    query text = SelectorList.parse text >>= SelectorList.union :=
  rfl

/-- A query has one path for each member of the list. -/
theorem result_query_eq_ok_iff {text : String} {union : Union} :
    (query text).result = .ok union ↔
      ∃ selectors, (SelectorList.parse text).result = .ok selectors ∧
        List.Forall₂ (fun selector path => selector.path.result = .ok path) selectors union := by
  simp only [query_eq_bind, SelectorList.union_eq_mapM, Outcome.result_bind_eq_ok,
    Outcome.result_mapM_eq_ok]

/-- If there is a query, there are tests for every compound. -/
theorem exists_tests_of_mem {text : String} {union : Union} (h : (query text).result = .ok union)
    {selectors : SelectorList} (parsed : (SelectorList.parse text).result = .ok selectors)
    {selector : Selector} (hselector : selector ∈ selectors) {compound : Compound}
    (hcompound : compound ∈ selector) : ∃ tests, compound.tests.result = .ok tests := by
  obtain ⟨selectors', parsed', hpaths⟩ := result_query_eq_ok_iff.1 h
  obtain rfl := Except.ok.inj (parsed.symm.trans parsed')
  obtain ⟨path, _, hpath⟩ := exists_right_of_forall₂ hpaths hselector
  obtain ⟨steps, hsteps, _⟩ := Selector.result_path_eq_ok_iff.1 hpath
  obtain ⟨step, _, hstep⟩ := exists_right_of_forall₂ hsteps hcompound
  exact ⟨step.predicates, (Compound.result_step_eq_ok_iff.1 hstep).2⟩

theorem result_xpath_eq_ok_iff {text x : String} :
    (xpath text).result = .ok x ↔ ∃ union, (query text).result = .ok union ∧ union.render = x :=
  Outcome.result_map_eq_ok

end SelectorPath
