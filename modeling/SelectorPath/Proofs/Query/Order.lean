import SelectorPath.Proofs.Query.Meaning
import SelectorPath.Proofs.Query.Position

/-! The order of pseudo-classes in a compound. Each of them becomes a predicate of its own, which
counts positions among the nodes that the predicates before it have left. So one that counts
positions cannot be exchanged with another, but those that look at nothing but the node can: the
step selects the same nodes as long as no pseudo-class moves past one that counts positions. -/

namespace SelectorPath

open XPath

/-- Whether a node passes depends neither on its position nor on the number of nodes. Positions
count from one up to this number. -/
def XPath.Expr.IgnoresPosition (e : Expr) : Prop :=
  ∀ node position size position' size', 1 ≤ position ∧ position ≤ size →
    1 ≤ position' ∧ position' ≤ size' →
    e.holds ⟨node, position, size⟩ = e.holds ⟨node, position', size'⟩

namespace Pseudo

/-- The test of a pseudo-class, where it has one, ignores the position. -/
def IgnoresPosition (pseudo : Pseudo) : Prop :=
  ∀ e, (pseudo.exprWith (Negation.expr Negation.limit)).result = .ok e → e.IgnoresPosition

/-- The same pseudo-classes in an order in which none has moved past one that counts positions: only
those that ignore the position are permuted, and only among their neighbours of this kind. -/
inductive Rearranged : List Pseudo → List Pseudo → Prop
  | stay (pseudo : Pseudo) : Rearranged [pseudo] [pseudo]
  | permute {run run' : List Pseudo} (ignores : ∀ pseudo ∈ run, pseudo.IgnoresPosition)
      (perm : run.Perm run') : Rearranged run run'
  | append {run run' rest rest' : List Pseudo} (first : Rearranged run run')
      (second : Rearranged rest rest') : Rearranged (run ++ rest) (run' ++ rest')

/-- A negation ignores the position if its argument has no other pseudo-class, however deep. -/
theorem ignoresPosition_of_negationsOnly {argument : String}
    (only : SelectorList.NegationsOnly argument) : IgnoresPosition ⟨"not", some argument⟩ := by
  intro e he node position size position' size' _ _
  obtain ⟨_, hsame, hnegate⟩ := (result_exprWith_eq_ok_iff.1 he).exists_negation rfl
  cases hsame
  have htests := Negation.tests_expr hnegate only
  rw [Bool.eq_iff_iff, htests.holds_iff, htests.holds_iff]

/-- A formula ignores the position exactly if it has all positions or none. -/
theorem ignoresPosition_nthChild_iff {argument : String} {formula : Formula}
    (parsed : Formula.parse? argument = some formula) :
    IgnoresPosition ⟨"nth-child", some argument⟩ ↔
      ∀ p q, 1 ≤ p → 1 ≤ q → (formula.Selects p ↔ formula.Selects q) := by
  have hexpr : (exprWith (Negation.expr Negation.limit) ⟨"nth-child", some argument⟩).result =
      .ok formula.expr := result_exprWith_eq_ok_iff.2 (.nthChild parsed)
  constructor
  · intro h p q hp hq
    let node : Node := .root (.mk "" [] [])
    have hsame := h _ hexpr node p p q q ⟨hp, Nat.le_refl p⟩ ⟨hq, Nat.le_refl q⟩
    rwa [Bool.eq_iff_iff, formula.holds_expr_iff, formula.holds_expr_iff] at hsame
  · intro h e he node position size position' size' hposition hposition'
    obtain rfl := Except.ok.inj (hexpr.symm.trans he)
    rw [Bool.eq_iff_iff, formula.holds_expr_iff, formula.holds_expr_iff]
    exact h position position' hposition.1 hposition'.1

end Pseudo

/-! ### Filters -/

theorem XPath.Expr.IgnoresPosition.filter_eq {e : Expr} (h : e.IgnoresPosition)
    (nodes : List Node) :
    Expr.filter nodes e = nodes.filter fun node => e.holds ⟨node, 1, 1⟩ := by
  conv_rhs => rw [← List.zipIdx_map_fst 1 nodes, List.filter_map]
  refine congrArg (List.map Prod.fst) (List.filter_congr fun numbered hnumbered => ?_)
  obtain ⟨hfirst, hlast, _⟩ := List.mem_zipIdx hnumbered
  exact h numbered.1 _ _ _ _ ⟨hfirst, by omega⟩ ⟨Nat.le_refl 1, Nat.le_refl 1⟩

namespace Pseudo

/-- The nodes that pass the test of a pseudo-class; if it has none, all of them do. -/
def narrow (nodes : List Node) (pseudo : Pseudo) : List Node :=
  match (pseudo.exprWith (Negation.expr Negation.limit)).result with
  | .ok e => Expr.filter nodes e
  | .error _ => nodes

theorem narrow_of_ok {pseudo : Pseudo} {e : Expr}
    (h : (pseudo.exprWith (Negation.expr Negation.limit)).result = .ok e) (nodes : List Node) :
    narrow nodes pseudo = Expr.filter nodes e := by
  rw [narrow, h]

theorem foldl_filter_eq {pseudos : List Pseudo} {tests : List Expr}
    (h : List.Forall₂ (fun pseudo e =>
      (exprWith (Negation.expr Negation.limit) pseudo).result = .ok e) pseudos tests)
    (nodes : List Node) : tests.foldl Expr.filter nodes = pseudos.foldl narrow nodes := by
  induction h generalizing nodes with
  | nil => rfl
  | cons hexpr _ ih => rw [List.foldl_cons, List.foldl_cons, narrow_of_ok hexpr, ih]

theorem IgnoresPosition.exists_filter {pseudo : Pseudo} (h : pseudo.IgnoresPosition) :
    ∃ keep : Node → Bool, ∀ nodes, narrow nodes pseudo = nodes.filter keep := by
  cases hexpr : (pseudo.exprWith (Negation.expr Negation.limit)).result with
  | ok e =>
    refine ⟨fun node => e.holds ⟨node, 1, 1⟩, fun nodes => ?_⟩
    rw [narrow_of_ok hexpr, (h e hexpr).filter_eq]
  | error error =>
    refine ⟨fun _ => true, fun nodes => ?_⟩
    rw [narrow, hexpr, List.filter_true]

theorem narrow_comm {first second : Pseudo} (hfirst : first.IgnoresPosition)
    (hsecond : second.IgnoresPosition) (nodes : List Node) :
    narrow (narrow nodes first) second = narrow (narrow nodes second) first := by
  obtain ⟨keep, hkeep⟩ := hfirst.exists_filter
  obtain ⟨keep', hkeep'⟩ := hsecond.exists_filter
  simp only [hkeep, hkeep', List.filter_filter, Bool.and_comm]

theorem Rearranged.foldl_narrow {pseudos others : List Pseudo} (h : Rearranged pseudos others)
    (nodes : List Node) : pseudos.foldl narrow nodes = others.foldl narrow nodes := by
  induction h generalizing nodes with
  | stay pseudo => rfl
  | permute ignores perm =>
    refine perm.foldl_eq' (fun first hfirst second hsecond nodes => ?_) nodes
    exact narrow_comm (ignores first hfirst) (ignores second hsecond) nodes
  | append _ _ ih ih' => rw [List.foldl_append, List.foldl_append, ih, ih']

end Pseudo

/-! ### Steps -/

namespace Compound

/-- A step goes through the pseudo-classes in their order, after the name and the attributes. -/
theorem select_step {compound : Compound} {step : Step} (h : compound.step.result = .ok step)
    (node : Node) :
    step.select node = compound.pseudos.foldl Pseudo.narrow
      (compound.ownTests.foldl Expr.filter (compound.combinator.axis.nodes node)) := by
  obtain ⟨haxis, htests⟩ := result_step_eq_ok_iff.1 h
  obtain ⟨pseudoTests, hpseudos, htests⟩ := result_testsWith_eq_ok_iff.1 htests
  rw [Step.select, haxis, ← htests, List.foldl_append]
  exact Pseudo.foldl_filter_eq (hpseudos.imp fun _ _ => Pseudo.result_exprWith_eq_ok_iff.2) _

theorem exists_step_of_perm {compound : Compound} {step : Step}
    (h : compound.step.result = .ok step) {pseudos : List Pseudo}
    (hperm : compound.pseudos.Perm pseudos) :
    ∃ other, ({ compound with pseudos } : Compound).step.result = .ok other := by
  obtain ⟨_, htests⟩ := result_step_eq_ok_iff.1 h
  obtain ⟨pseudoTests, hpseudos, _⟩ := result_testsWith_eq_ok_iff.1 htests
  obtain ⟨otherTests, hothers⟩ := exists_forall₂ fun pseudo hpseudo => by
    obtain ⟨e, _, hstates⟩ := exists_right_of_forall₂ hpseudos (hperm.mem_iff.2 hpseudo)
    exact ⟨e, hstates⟩
  refine ⟨⟨compound.combinator.axis, compound.ownTests ++ otherTests⟩, ?_⟩
  exact result_step_eq_ok_iff.2
    ⟨rfl, result_testsWith_eq_ok_iff.2 ⟨otherTests, hothers, rfl⟩⟩

theorem parse?_render_step {compound : Compound} {step : Step}
    (h : compound.step.result = .ok step)
    (named : ∀ test ∈ compound.attributes, Text.isName test.name.toList = true) :
    Union.parse? step.render = some [[step]] := by
  have hfits : Union.Fits [[step]] := by
    refine ⟨by simp, by simp, ?_⟩
    intro path hpath step' hstep e he
    obtain rfl := List.mem_singleton.1 hpath
    obtain rfl := List.mem_singleton.1 hstep
    exact fits_of_testsWith (result_step_eq_ok_iff.1 h).2 named (fun _ _ => Negation.fits_expr) e he
  have hrender : Union.render [[step]] = step.render := by simp [Union.render, Path.render]
  rw [← hrender]
  exact Union.parse?_render hfits

/-- A compound that was read and its pseudo-classes in any order. The step can be stated in every
order, and its text is read as that step; and if no pseudo-class has moved past one that counts
positions, it leads from every node to the same nodes. -/
theorem select_step_of_perm {text : String} {selector : Selector}
    (h : (Selector.parse text).result = .ok selector) {compound : Compound}
    (hcompound : compound ∈ selector) {step : Step} (hstep : compound.step.result = .ok step)
    {pseudos : List Pseudo} (hperm : compound.pseudos.Perm pseudos) :
    Union.parse? step.render = some [[step]] ∧
      ∃ other, ({ compound with pseudos } : Compound).step.result = .ok other ∧
        Union.parse? other.render = some [[other]] ∧
        (Pseudo.Rearranged compound.pseudos pseudos →
          ∀ node, other.select node = step.select node) := by
  have named : ∀ test ∈ compound.attributes, Text.isName test.name.toList = true :=
    fun test htest => Selector.isName_of_mem_attributes h hcompound htest
  obtain ⟨other, hother⟩ := exists_step_of_perm hstep hperm
  refine ⟨parse?_render_step hstep named, other, hother, parse?_render_step hother named, ?_⟩
  intro hrearranged node
  rw [select_step hother, select_step hstep, hrearranged.foldl_narrow]
  rfl

/-- A formula that has all positions, and a negation after it. -/
theorem select_step_of_perm_everyPosition :
    let every : Pseudo := ⟨"nth-child", some "n+1"⟩
    let negation : Pseudo := ⟨"not", some "p"⟩
    let compound : Compound := { element := some "li", pseudos := [every, negation] }
    let pseudos := [negation, every]
    let step : Step := ⟨.descendant, [.equals (.call .name []) (.ofString "li"),
      Formula.expr (.linear 1 1), .call .not [.equals (.call .name []) (.ofString "p")]]⟩
    (Selector.parse "li:nth-child(n+1):not(p)").result = .ok [compound] ∧
      compound.step.result = .ok step ∧ compound.pseudos.Perm pseudos ∧
      Pseudo.Rearranged compound.pseudos pseudos ∧
      ∃ other, ({ compound with pseudos } : Compound).step.result = .ok other ∧
        ∀ node, other.select node = step.select node := by
  intro every negation compound pseudos step
  have hparse : (Selector.parse "li:nth-child(n+1):not(p)").result = .ok [compound] := by cbv
  have hstep : compound.step.result = .ok step := by cbv
  have hperm : compound.pseudos.Perm pseudos := .swap _ _ _
  have hevery : every.IgnoresPosition := by
    have hformula : Formula.parse? "n+1" = some (.linear 1 1) := by cbv
    have hselects (p : Nat) (hp : 1 ≤ p) : (Formula.linear 1 1).Selects p := ⟨p - 1, by omega⟩
    exact (Pseudo.ignoresPosition_nthChild_iff hformula).2 fun p q hp hq =>
      iff_of_true (hselects p hp) (hselects q hq)
  have hnegation : negation.IgnoresPosition := by
    have hname : (SelectorList.parse "p").result = .ok [[{ element := some "p" }]] := by cbv
    exact Pseudo.ignoresPosition_of_negationsOnly (.intro hname (by simp) (by simp))
  have hrearranged : Pseudo.Rearranged compound.pseudos pseudos :=
    .permute (by simp [compound, hevery, hnegation]) hperm
  obtain ⟨_, other, hother, _, hselect⟩ :=
    select_step_of_perm hparse List.mem_cons_self hstep hperm
  exact ⟨hparse, hstep, hperm, hrearranged, other, hother, hselect hrearranged⟩

/-- Above the two children `p` and `q`, a test for the first element can be exchanged neither with a
negation nor with a test for the last. -/
theorem select_step_exchanged :
    let node : Node := ⟨[0], .mk "r" [] [.mk "p" [] [], .mk "q" [] []]⟩
    let first : Pseudo := ⟨"first-child", none⟩
    let last : Pseudo := ⟨"last-child", none⟩
    let other : Pseudo := ⟨"not", some "p"⟩
    ((Selector.parse ":first-child:not(p)").result = .ok [{ pseudos := [first, other] }] ∧
      ∃ s t : Step, (step { pseudos := [first, other] }).result = .ok s ∧
        (step { pseudos := [other, first] }).result = .ok t ∧
        (s.select node).map Node.place = [] ∧ (t.select node).map Node.place = [[0, 1]]) ∧
    (Selector.parse ":first-child:last-child").result = .ok [{ pseudos := [first, last] }] ∧
      ∃ s t : Step, (step { pseudos := [first, last] }).result = .ok s ∧
        (step { pseudos := [last, first] }).result = .ok t ∧
        (s.select node).map Node.place = [[0, 0]] ∧
        (t.select node).map Node.place = [[0, 1]] := by
  intro node first last other
  let isFirst : Expr := .equals (.call .position []) (.number 1)
  let isLast : Expr := .equals (.call .position []) (.call .last [])
  let isOther : Expr := .call .not [.equals (.call .name []) (.ofString "p")]
  constructor
  · exact ⟨by cbv, ⟨.descendant, [isFirst, isOther]⟩, ⟨.descendant, [isOther, isFirst]⟩,
      by cbv, by cbv, by cbv, by cbv⟩
  · exact ⟨by cbv, ⟨.descendant, [isFirst, isLast]⟩, ⟨.descendant, [isLast, isFirst]⟩,
      by cbv, by cbv, by cbv, by cbv⟩

end Compound

end SelectorPath
