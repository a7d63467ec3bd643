import SelectorPath.Proofs.Query.Negation

/-! The limit on negations. Without it, stating a negation would still come to an end, since an
argument is shorter than the text that it stands in. The limit only cuts off: a query that is not
refused as too deep is the one that there is without the limit, and a query that there is without
the limit is refused exactly if negations nest deeper than that. -/

namespace SelectorPath

open Text XPath

/-! ### Outcomes that are cut off -/

namespace Outcome

variable {α : Type}

/-- The first outcome is the second, or it fails with an error that the second need not have. -/
def CutsOff (error : SelectorError) (x y : Outcome α) : Prop :=
  x.result = .error error ∨ x = y

theorem simulation_eq : Work.Simulation fun α => @Eq (Outcome α) where
  pure _ := rfl
  bind := by
    rintro α β x _ f g rfl h
    exact bind_congr h
  ofExcept _ := rfl
  note _ := rfl
  selector _ := rfl

theorem simulation_cutsOff (error : SelectorError) :
    Work.Simulation fun α => @CutsOff α error where
  pure _ := .inr rfl
  bind := by
    rintro α β x y f g (hx | rfl) h
    · left
      rw [bind_of_error hx]
    · by_cases hcut : ∃ a, x.result = .ok a ∧ (f a).result = .error error
      · obtain ⟨a, ha, hfa⟩ := hcut
        left
        rw [result_bind_of_ok ha, hfa]
      · right
        refine bind_congr fun a ha => (h a ha).resolve_left fun hfa => hcut ⟨a, ha, hfa⟩
  ofExcept _ := .inr rfl
  note _ := .inr rfl
  selector _ := .inr rfl

end Outcome

/-! ### No limit -/

theorem SelectorList.length_lt_of_negates {text argument : String} (h : Negates text argument) :
    argument.length < text.length := by
  obtain ⟨selectors, parsed, selector, hselector, compound, hcompound, hmem⟩ := h
  obtain ⟨member, hle, hread⟩ := exists_member_of_mem parsed hselector
  have hlt := Selector.length_argument_lt hread hcompound hmem rfl
  omega

namespace Negation

/-- The test of a negation without a limit. What is negated in an argument is shorter than the
argument, so nothing else is ever asked for. -/
def unlimited (argument : String) : Outcome Expr :=
  exprWith (fun inner =>
    if inner.length < argument.length then unlimited inner else Work.fail (.invalidNegation inner))
    argument
termination_by argument.length

/-- Stating a negation without a limit takes the same steps as with one. -/
theorem unlimited_eq (argument : String) : unlimited argument = exprWith unlimited argument := by
  rw [unlimited]
  refine Outcome.simulation_eq.negation_exprWith fun inner hinner => ?_
  rw [if_pos (SelectorList.length_lt_of_negates hinner)]

theorem expr_cutsOff (levels : Nat) (argument : String) :
    (expr levels argument).CutsOff (.negationTooDeep limit) (unlimited argument) := by
  induction levels generalizing argument with
  | zero => exact .inl rfl
  | succ levels ih =>
    rw [expr_succ, unlimited_eq]
    exact (Outcome.simulation_cutsOff _).negation_exprWith fun inner _ => ih inner

/-- The limit makes no difference where negations do not nest so deep. -/
theorem expr_eq_unlimited {n levels : Nat} {argument : String}
    (h : SelectorList.NestsAtMost n argument) (hlevels : n < levels) :
    expr levels argument = unlimited argument := by
  induction levels generalizing n argument with
  | zero => omega
  | succ levels ih =>
    rw [expr_succ, unlimited_eq]
    refine Outcome.simulation_eq.negation_exprWith fun inner hinner => ?_
    cases n with
    | zero => exact absurd hinner (h inner)
    | succ n => exact ih (h inner hinner) (by omega)

end Negation

/-- The text of the query of a selector list whose negations have no limit. -/
def xpathUnlimited (text : String) : Outcome String :=
  Union.render <$> queryWith Negation.unlimited text

theorem xpath_cutsOff (text : String) :
    (xpath text).CutsOff (.negationTooDeep Negation.limit) (xpathUnlimited text) := by
  have h := Outcome.simulation_cutsOff (.negationTooDeep Negation.limit)
  refine h.map ?_ _
  exact h.queryWith fun inner _ => Negation.expr_cutsOff Negation.limit inner

theorem xpath_eq_unlimited {text : String} (h : SelectorList.NestsAtMost Negation.limit text) :
    xpath text = xpathUnlimited text := by
  refine Outcome.simulation_eq.map ?_ _
  refine Outcome.simulation_eq.queryWith fun inner hinner => ?_
  exact Negation.expr_eq_unlimited (h inner hinner) (by decide)

/-! ### Levels that are needed -/

theorem Pseudo.States.exists_negated {Negates : String → Expr → Prop} {argument : String}
    {e : Expr} (h : Pseudo.States Negates ⟨"not", some argument⟩ e) : Negates argument e := by
  generalize hpseudo : (⟨"not", some argument⟩ : Pseudo) = pseudo at h
  cases h with
  | firstChild | lastChild | nthChild => simp [PseudoClass.name] at hpseudo
  | negation negated =>
    cases hpseudo
    exact negated

theorem Compound.exists_negate_of_testsWith {negate : String → Outcome Expr} {compound : Compound}
    {tests : List Expr} (h : (compound.testsWith negate).result = .ok tests) {argument : String}
    (hmem : ⟨"not", some argument⟩ ∈ compound.pseudos) :
    ∃ e, (negate argument).result = .ok e := by
  obtain ⟨pseudoTests, hpseudos, _⟩ := result_testsWith_eq_ok_iff.1 h
  obtain ⟨e, _, hstates⟩ := exists_right_of_forall₂ hpseudos hmem
  exact ⟨e, hstates.exists_negated⟩

theorem Negation.exists_expr_of_negates {levels : Nat} {argument inner : String} {e : Expr}
    (h : (expr (levels + 1) argument).result = .ok e)
    (hnegates : SelectorList.Negates argument inner) :
    ∃ e, (expr levels inner).result = .ok e := by
  obtain ⟨compounds, alternatives, any, parsed, states, _⟩ := result_expr_eq_ok_iff.1 h
  obtain ⟨selector, hselector, compound, hcompound, hmem⟩ :=
    (SelectorList.negates_iff parsed).1 hnegates
  obtain ⟨compound', hcompound', rfl⟩ := List.mem_map.1 hselector
  obtain rfl := List.mem_singleton.1 hcompound
  obtain ⟨_, _, _, tests, htests, _⟩ := exists_right_of_forall₂ states hcompound'
  exact Compound.exists_negate_of_testsWith htests hmem

theorem exists_expr_of_query {text inner : String} {union : Union}
    (h : (query text).result = .ok union) (hnegates : SelectorList.Negates text inner) :
    ∃ e, (Negation.expr Negation.limit inner).result = .ok e := by
  obtain ⟨selectors, parsed, selector, hselector, compound, hcompound, hmem⟩ := hnegates
  obtain ⟨tests, htests⟩ := exists_tests_of_mem h parsed hselector hcompound
  exact Compound.exists_negate_of_testsWith htests hmem

theorem Negation.nestsAtMost_of_expr {n : Nat} {argument : String} {e : Expr}
    (h : (expr (n + 1) argument).result = .ok e) : SelectorList.NestsAtMost n argument := by
  induction n generalizing argument e with
  | zero =>
    intro inner hinner
    obtain ⟨e', he'⟩ := exists_expr_of_negates h hinner
    exact result_expr_zero_ne_ok inner e' he'
  | succ n ih =>
    intro inner hinner
    obtain ⟨e', he'⟩ := exists_expr_of_negates h hinner
    exact ih he'

/-- What is not refused does not nest deeper than the limit. -/
theorem nestsAtMost_of_xpath {text x : String} (h : (xpath text).result = .ok x) :
    SelectorList.NestsAtMost Negation.limit text := by
  obtain ⟨union, hquery, _⟩ := result_xpath_eq_ok_iff.1 h
  intro inner hinner
  obtain ⟨e, he⟩ := exists_expr_of_query hquery hinner
  exact Negation.nestsAtMost_of_expr he

/-! ### Negations in negations -/

namespace Negation

/-- An element under so many negations. -/
def nested : Nat → String
  | 0 => "a"
  | n + 1 => text (nested n)

theorem openAfter_nested (n depth : Nat) (rest : List Char) :
    openAfter depth ((nested n).toList ++ rest) = openAfter depth rest := by
  induction n generalizing depth rest with
  | zero => rfl
  | succ n ih =>
    rw [nested, toList_text]
    simp only [List.cons_append, List.append_assoc, List.nil_append]
    show openAfter (depth + 1) ((nested n).toList ++ ')' :: rest) = openAfter depth rest
    rw [ih]
    rfl

theorem balanced_nested (n : Nat) : Balanced (nested n).toList := by
  have h := openAfter_nested n 0 []
  rwa [List.append_nil] at h

theorem undivided_nested (n : Nat) (nesting : Nesting) : nesting.Undivided (nested n).toList := by
  have hcomma : ',' ∉ (nested n).toList := by
    induction n with
    | zero => decide
    | succ n ih => simp [nested, toList_text, ih]
  intro before after h
  exact absurd (by simp [h]) hcomma

theorem parse_nested (n : Nat) :
    (SelectorList.parse (nested (n + 1))).result =
      .ok [[{ pseudos := [⟨"not", some (nested n)⟩] }]] :=
  parse_text (balanced_nested n) (undivided_nested n _)

theorem negates_nested_iff {n : Nat} {argument : String} :
    SelectorList.Negates (nested (n + 1)) argument ↔ argument = nested n := by
  rw [SelectorList.negates_iff (parse_nested n)]
  simp

theorem nestsAtMost_nested_iff {n levels : Nat} :
    SelectorList.NestsAtMost levels (nested n) ↔ n ≤ levels := by
  induction n generalizing levels with
  | zero =>
    have parsed : (SelectorList.parse (nested 0)).result = .ok [[{ element := some "a" }]] := by cbv
    have hnests := SelectorList.nestsAtMost_of_pseudos_nil parsed (by simp) levels
    simp [hnests]
  | succ n ih =>
    cases levels with
    | zero => simp [SelectorList.NestsAtMost, negates_nested_iff]
    | succ levels => simp [SelectorList.NestsAtMost, negates_nested_iff, ih]

theorem exists_expr_nested (n : Nat) : ∃ e, (expr (n + 1) (nested n)).result = .ok e := by
  induction n with
  | zero => exact ⟨.call .not [.equals (.call .name []) (.ofString "a")], by cbv⟩
  | succ n ih =>
    obtain ⟨e, he⟩ := ih
    refine ⟨_, result_expr_eq_ok_iff.2 ⟨[_], [e], e, parse_nested n, ?_, rfl, rfl⟩⟩
    refine .cons ⟨rfl, [e], ?_, rfl⟩ .nil
    exact Compound.result_testsWith_eq_ok_iff.2 ⟨[e], .cons (.negation he) .nil, rfl⟩

theorem exists_unlimited_nested (n : Nat) : ∃ e, (unlimited (nested n)).result = .ok e := by
  rw [← expr_eq_unlimited (nestsAtMost_nested_iff.2 (Nat.le_refl n)) (Nat.lt_succ_self n)]
  exact exists_expr_nested n

theorem exists_xpathUnlimited_nested (n : Nat) :
    ∃ x, (xpathUnlimited (nested n)).result = .ok x := by
  cases n with
  | zero =>
    have hnests : SelectorList.NestsAtMost limit (nested 0) := nestsAtMost_nested_iff.2 (by decide)
    rw [← xpath_eq_unlimited hnests]
    exact ⟨"/*/descendant::*[name() = \"a\"]", by cbv⟩
  | succ n =>
    obtain ⟨e, he⟩ := exists_unlimited_nested n
    have htests : (Compound.testsWith unlimited { pseudos := [⟨"not", some (nested n)⟩] }).result =
        .ok [e] :=
      Compound.result_testsWith_eq_ok_iff.2 ⟨[e], .cons (.negation he) .nil, rfl⟩
    refine ⟨(union e).render, Outcome.result_map_eq_ok.2 ⟨union e, ?_, rfl⟩⟩
    simp only [queryWith, SelectorList.unionWith, Selector.pathWith, Compound.stepWith,
      Outcome.result_bind_eq_ok, Outcome.result_mapM_eq_ok, Outcome.result_pure, Except.ok.injEq]
    exact ⟨_, parse_nested n, .cons ⟨_, .cons ⟨_, htests, rfl⟩ .nil, rfl⟩ .nil⟩

end Negation

/-- The limit only cuts off. A list that has a query without the limit has the same one with it if
negations nest at most so deep, and is refused as too deep if not; and where the limit does not
refuse, it changes nothing, be it a query, an error or what is reported on the way. Without the
limit a negation is stated in the same steps. -/
theorem xpath_limit_cuts_off (text : String) :
    (∀ argument, Negation.unlimited argument = Negation.exprWith Negation.unlimited argument) ∧
      (∀ x, (xpathUnlimited text).result = .ok x →
        (SelectorList.NestsAtMost 32 text → (xpath text).result = .ok x) ∧
          (¬SelectorList.NestsAtMost 32 text →
            (xpath text).result = .error (.negationTooDeep 32))) ∧
      ((xpath text).result ≠ .error (.negationTooDeep 32) → xpathUnlimited text = xpath text) := by
  refine ⟨Negation.unlimited_eq, fun x hx => ⟨fun hnests => ?_, fun hnests => ?_⟩, fun hne => ?_⟩
  · rw [xpath_eq_unlimited hnests, hx]
  · rcases xpath_cutsOff text with hcut | heq
    · exact hcut
    · rw [← heq] at hx
      exact absurd (nestsAtMost_of_xpath hx) hnests
  · exact ((xpath_cutsOff text).resolve_left hne).symm

theorem xpath_limit_cuts_off_nested :
    (∃ x, (xpathUnlimited (Negation.nested 32)).result = .ok x ∧
        SelectorList.NestsAtMost 32 (Negation.nested 32) ∧
        (xpath (Negation.nested 32)).result = .ok x) ∧
      (∃ x, (xpathUnlimited (Negation.nested 33)).result = .ok x ∧
        ¬SelectorList.NestsAtMost 32 (Negation.nested 33) ∧
        (xpath (Negation.nested 33)).result = .error (.negationTooDeep 32)) ∧
      (xpath ":not(:not(*))").result = .error (.invalidNegation "*") ∧
      (xpathUnlimited ":not(:not(*))").result = .error (.invalidNegation "*") := by
  refine ⟨?_, ?_, ?_⟩
  · obtain ⟨x, hx⟩ := Negation.exists_xpathUnlimited_nested 32
    have hnests : SelectorList.NestsAtMost 32 (Negation.nested 32) :=
      Negation.nestsAtMost_nested_iff.2 (by decide)
    exact ⟨x, hx, hnests, ((xpath_limit_cuts_off _).2.1 x hx).1 hnests⟩
  · obtain ⟨x, hx⟩ := Negation.exists_xpathUnlimited_nested 33
    have hnests : ¬SelectorList.NestsAtMost 32 (Negation.nested 33) :=
      Negation.nestsAtMost_nested_iff.not.2 (by decide)
    exact ⟨x, hx, hnests, ((xpath_limit_cuts_off _).2.1 x hx).2 hnests⟩
  · have hx : (xpath ":not(:not(*))").result = .error (.invalidNegation "*") := by cbv
    refine ⟨hx, ?_⟩
    rw [(xpath_limit_cuts_off _).2.2 (by simp [hx]), hx]

end SelectorPath
