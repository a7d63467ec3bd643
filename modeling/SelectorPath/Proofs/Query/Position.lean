import SelectorPath.Proofs.Query.Intent
import SelectorPath.XPath.Evaluation

/-! What the test of a position formula says. XPath has no sequences, so a formula becomes a test of
a remainder and a bound on one side, which depends on the signs of its two numbers. For all numbers,
the test is true at a position exactly if the position is one of the formula's. -/

namespace SelectorPath

open XPath

/-- A position is one of the formula's. -/
def Formula.Selects : Formula → Nat → Prop
  | index position, p => (p : Int) = position
  | linear factor offset, p => ∃ n : Nat, (p : Int) = factor * n + offset

/-! ### Multiples -/

/-- A multiple by a number that is not negative has the sign of the factor. -/
theorem exists_multiple_iff {factor d : Int} (h : factor ≠ 0) :
    (∃ n : Nat, d = factor * n) ↔ factor ∣ d ∧ 0 ≤ factor * d := by
  constructor
  · rintro ⟨n, rfl⟩
    refine ⟨Int.dvd_mul_right factor n, ?_⟩
    rw [← mul_assoc]
    exact mul_nonneg (mul_self_nonneg factor) (Int.natCast_nonneg n)
  · rintro ⟨⟨k, rfl⟩, hsign⟩
    rw [← mul_assoc, mul_nonneg_iff_of_pos_left (mul_self_pos.2 h)] at hsign
    exact ⟨k.toNat, by rw [Int.toNat_of_nonneg hsign]⟩

namespace Formula

theorem selects_linear_iff {factor offset : Int} {p : Nat} (h : factor ≠ 0) :
    (linear factor offset).Selects p ↔
      factor ∣ (p : Int) - offset ∧ 0 ≤ factor * ((p : Int) - offset) := by
  rw [← exists_multiple_iff h, Selects]
  simp only [sub_eq_iff_eq_add]

end Formula

/-! ### Parts of the test -/

namespace XPath.Expr

variable {context : Context}

theorem eval_position : (call .position []).eval context = some (.number context.position) := by
  simp [eval, evalAll, Function.apply]

theorem eval_ofInt (n : Int) : (ofInt n).eval context = some (.number n) := by
  cases n with
  | ofNat n => simp [ofInt, eval]
  | negSucc n => simp [ofInt, eval, Value.number?, Int.negSucc_eq]

theorem eval_binary {operator : Operator} {left right : Expr} {a b : Value}
    (hleft : left.eval context = some a) (hright : right.eval context = some b) :
    (binary operator left right).eval context = operator.apply a b := by
  rw [eval, hleft, hright]
  rfl

theorem eval_number (n : Nat) : (number n).eval context = some (.number n) := by
  rw [eval]

/-- To subtract a number that is not positive is to add its opposite. -/
theorem eval_shifted (context : Context) (offset : Int) :
    (if 0 < offset then binary .minus (call .position []) (number offset.natAbs)
      else binary .plus (call .position []) (number offset.natAbs)).eval context =
      some (.number (context.position - offset)) := by
  split
  · rw [eval_binary eval_position (eval_number _)]
    show some (Value.number (context.position - offset.natAbs)) = _
    rw [show (offset.natAbs : Int) = offset by omega]
  · rw [eval_binary eval_position (eval_number _)]
    show some (Value.number (context.position + offset.natAbs)) = _
    rw [show (offset.natAbs : Int) = -offset by omega, sub_eq_add_neg]

/-- The remainder is taken by a number that is not zero. -/
theorem eval_cycle {e : Expr} {d factor : Int} (he : e.eval context = some (.number d))
    (h : factor ≠ 0) :
    (equals (binary .mod (group e) (number factor.natAbs)) (number 0)).eval context =
      some (.boolean (decide (factor ∣ d))) := by
  have hgroup : (group e).eval context = some (.number d) := by rwa [eval]
  have hmod : (binary .mod (group e) (number factor.natAbs)).eval context =
      some (.number (d.tmod factor.natAbs)) := by
    rw [eval_binary hgroup (eval_number _)]
    show (if (factor.natAbs : Int) = 0 then none else _) = _
    rw [if_neg (by omega)]
    rfl
  have hdvd : d.tmod factor.natAbs = 0 ↔ factor ∣ d := by
    rw [← Int.dvd_iff_tmod_eq_zero, Int.natAbs_dvd]
  rw [equals, eval_binary hmod (eval_number 0)]
  show some (Value.boolean (decide (d.tmod factor.natAbs = 0))) = _
  rw [decide_eq_decide.2 hdvd]

theorem eval_equals_position (n : Int) :
    (equals (call .position []) (ofInt n)).eval context =
      some (.boolean (decide ((context.position : Int) = n))) :=
  eval_binary eval_position (eval_ofInt n)

theorem eval_atMost_position (n : Int) :
    (binary .atMost (call .position []) (ofInt n)).eval context =
      some (.boolean (decide ((context.position : Int) ≤ n))) :=
  eval_binary eval_position (eval_ofInt n)

theorem eval_atLeast_position (n : Int) :
    (binary .atLeast (call .position []) (ofInt n)).eval context =
      some (.boolean (decide ((context.position : Int) ≥ n))) :=
  eval_binary eval_position (eval_ofInt n)

end XPath.Expr

/-! ### The test -/

/-- Wherever it is evaluated, the test of a formula has a truth value: whether the position is one
of the formula's. -/
theorem Formula.eval_expr (formula : Formula) (context : Context) :
    ∃ value, formula.expr.eval context = some (.boolean value) ∧
      (value = true ↔ formula.Selects context.position) := by
  cases formula with
  | index position => exact ⟨_, Expr.eval_equals_position position, decide_eq_true_iff⟩
  | linear factor offset =>
    by_cases hzero : factor = 0
    · rw [expr, if_pos hzero]
      refine ⟨_, Expr.eval_equals_position offset, ?_⟩
      simp [Selects, hzero]
    · rw [expr, if_neg hzero, selects_linear_iff hzero]
      have hcycle := Expr.eval_cycle (Expr.eval_shifted context offset) hzero
      by_cases hnegative : factor < 0
      · rw [if_pos hnegative]
        have hsign : 0 ≤ factor * (context.position - offset) ↔
            (context.position : Int) ≤ offset := by
          rw [← neg_mul_neg, mul_nonneg_iff_of_pos_left (by omega)]
          omega
        refine ⟨_, Expr.eval_binary hcycle (Expr.eval_atMost_position offset), ?_⟩
        simp [Value.truth, hsign]
      · rw [if_neg hnegative]
        have hsign : 0 ≤ factor * (context.position - offset) ↔
            offset ≤ (context.position : Int) := by
          rw [mul_nonneg_iff_of_pos_left (by omega)]
          omega
        split
        · refine ⟨_, Expr.eval_binary hcycle (Expr.eval_atLeast_position offset), ?_⟩
          simp [Value.truth, hsign]
        · -- Every position is above a negative offset, so there is no bound to write.
          have habove : offset ≤ (context.position : Int) := by omega
          refine ⟨_, hcycle, ?_⟩
          simp [hsign, habove]

theorem Formula.holds_expr_iff (formula : Formula) (context : Context) :
    formula.expr.holds context = true ↔ formula.Selects context.position := by
  obtain ⟨value, heval, hvalue⟩ := formula.eval_expr context
  rw [Expr.holds, heval]
  exact hvalue

/-- The text of the test is read as an expression that is true at a position exactly if the position
is one of the formula's. It has a value at every position, so no remainder is taken by zero. -/
theorem Formula.eval_parse?_render (formula : Formula) :
    ∃ e, Expr.parse? formula.expr.render = some e ∧
      ∀ context, ∃ value, e.eval context = some (.boolean value) ∧
        (value = true ↔ formula.Selects context.position) :=
  ⟨formula.expr, Expr.parse?_render formula.fits_expr, formula.eval_expr⟩

end SelectorPath
