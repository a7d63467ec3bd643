import SelectorPath.Proofs.XPath.Lexemes

/-! Reading what was written. A chain of operators is read from left to right, so what holds of the
reader is not that it gives the expression back, but that it comes to the point where the expression
is what has been read so far: it may still be the left operand of what follows. Fuel goes down by
one for each operator on the way there, and twice the number of lexemes is enough for all of it. -/

namespace SelectorPath.XPath

theorem Operator.operator?_lexeme (operator : Operator) :
    operator.lexeme.operator? = some operator := by
  cases operator <;> rfl

theorem Operator.level_lt (operator : Operator) : operator.level < operandLevel := by
  cases operator <;> decide

theorem Function.ofName?_text (function : Function) : ofName? function.text = some function := by
  cases function <;> decide

namespace Expr

/-- How tight an expression holds together. -/
def level : Expr → Nat
  | binary operator _ _ => operator.level
  | _ => operandLevel

/-- The number of operators that are read one after the other, each with what was read before it as
its left operand. -/
def chain : Expr → Nat
  | binary _ left _ => left.chain + 1
  | _ => 0

/-- No operator that binds at least as tight as `level` comes first. -/
def Ends (level : Nat) (lexemes : List Lexeme) : Prop :=
  ∀ lexeme ∈ lexemes.head?, ∀ operator, lexeme.operator? = some operator → operator.level < level

theorem Ends.mono {level level' : Nat} {lexemes : List Lexeme} (h : Ends level lexemes)
    (hle : level ≤ level') : Ends level' lexemes := by
  intro lexeme hlexeme operator hoperator
  have := h lexeme hlexeme operator hoperator
  omega

theorem ends_of_operator? {lexeme : Lexeme} (h : lexeme.operator? = none) (level : Nat)
    (rest : List Lexeme) : Ends level (lexeme :: rest) := by
  intro lexeme' hlexeme operator hoperator
  cases hlexeme
  rw [h] at hoperator
  cases hoperator

theorem readOperators_of_ends {fuel level : Nat} {left : Expr} {rest : List Lexeme}
    (hfuel : 0 < fuel) (h : Ends level rest) :
    readOperators fuel level left rest = some (left, rest) := by
  obtain ⟨fuel, rfl⟩ : ∃ n, fuel = n + 1 := ⟨fuel - 1, by omega⟩
  cases rest with
  | nil => rw [readOperators]
  | cons lexeme rest =>
    rw [readOperators]
    split
    · rfl
    · next operator found => rw [if_pos (h lexeme rfl operator found)]

theorem Fits.le_level {level : Nat} {e : Expr} (h : Fits level e) (hle : level ≤ operandLevel) :
    level ≤ e.level := by
  cases h with
  | binary le _ _ => exact le
  | _ => exact hle

theorem chain_lt_length (e : Expr) : e.chain < e.lexemes.length := by
  match e with
  | binary _ left right =>
    have := chain_lt_length left
    simp only [chain, lexemes, List.length_append, List.length_cons]
    omega
  | literal .. | number .. | attr .. | call .. | negate .. | group .. =>
    simp [chain, lexemes]

/-- No expression starts with a closing parenthesis. -/
theorem exists_lexemes_cons (e : Expr) :
    ∃ lexeme rest, e.lexemes = lexeme :: rest ∧ lexeme ≠ .mark ')' := by
  match e with
  | binary _ left right =>
    obtain ⟨lexeme, rest, h, hne⟩ := exists_lexemes_cons left
    exact ⟨lexeme, rest ++ _, by rw [lexemes, h, List.cons_append], hne⟩
  | literal .. | number .. | attr .. | call .. | negate .. | group .. =>
    exact ⟨_, _, rfl, by simp⟩

/-- An operand is read whatever follows it. -/
def OperandReads (e : Expr) : Prop :=
  ∀ fuel rest, 2 * e.lexemes.length ≤ fuel + 1 →
    readOperand fuel (e.lexemes ++ rest) = some (e, rest)

/-- Reading comes to where the expression has been read and operators may follow. -/
def Reads (level : Nat) (e : Expr) : Prop :=
  ∀ level' ≤ level, ∀ fuel rest, 2 * e.lexemes.length ≤ e.chain + 1 + fuel →
    Ends (e.level + 1) rest →
    read (e.chain + 1 + fuel) level' (e.lexemes ++ rest) = readOperators fuel level' e rest

theorem OperandReads.reads {e : Expr} (h : e.OperandReads) (hchain : e.chain = 0) (level : Nat) :
    e.Reads level := by
  intro level' _ fuel rest hfuel _
  rw [hchain, Nat.zero_add] at hfuel ⊢
  rw [Nat.add_comm 1 fuel, read, h fuel rest (by omega)]
  rfl

/-- What is read whole, if no operator follows. -/
theorem Reads.read_eq {e : Expr} (h : e.Reads 0) {fuel : Nat} {rest : List Lexeme}
    (hfuel : 2 * e.lexemes.length ≤ fuel) (hrest : Ends 0 rest) :
    read fuel 0 (e.lexemes ++ rest) = some (e, rest) := by
  have hlength := chain_lt_length e
  obtain ⟨n, rfl⟩ : ∃ n, fuel = e.chain + 1 + n := ⟨fuel - (e.chain + 1), by omega⟩
  rw [h 0 (Nat.le_refl 0) n rest hfuel (hrest.mono (Nat.zero_le _))]
  exact readOperators_of_ends (by omega) hrest

theorem Reads.binary {level : Nat} {operator : Operator} {left right : Expr}
    (hle : level ≤ operator.level) (hleft : left.Reads operator.level)
    (hright : right.Reads (operator.level + 1)) (hloose : operator.level ≤ left.level)
    (htight : operator.level + 1 ≤ right.level) :
    (binary operator left right).Reads level := by
  intro level' hlevel fuel rest hfuel hrest
  change Ends (operator.level + 1) rest at hrest
  have hlengthLeft := chain_lt_length left
  have hlengthRight := chain_lt_length right
  simp only [lexemes, chain, List.length_append, List.length_cons] at hfuel
  have hends : Ends (left.level + 1) (operator.lexeme :: (right.lexemes ++ rest)) := by
    intro lexeme hlexeme operator' hoperator
    cases hlexeme
    rw [operator.operator?_lexeme] at hoperator
    cases hoperator
    omega
  -- The right operand takes its own chain off the fuel, and stops where this operator would.
  have hsecond : read fuel (operator.level + 1) (right.lexemes ++ rest) = some (right, rest) := by
    obtain ⟨n, rfl⟩ : ∃ n, fuel = right.chain + 1 + n := ⟨fuel - (right.chain + 1), by omega⟩
    rw [hright _ (Nat.le_refl _) n rest (by omega) (hrest.mono (by omega))]
    exact readOperators_of_ends (by omega) hrest
  rw [lexemes, List.append_assoc, List.cons_append, chain,
    show left.chain + 1 + 1 + fuel = left.chain + 1 + (fuel + 1) by omega,
    hleft level' (by omega) (fuel + 1) _ (by omega) hends]
  simp only [readOperators, operator.operator?_lexeme]
  rw [if_neg (by omega), hsecond]
  rfl

/-! ### Operands -/

theorem readList_argumentLexemes {arguments : List Expr} (hne : arguments ≠ [])
    (h : ∀ argument ∈ arguments, argument.Reads 0) {fuel : Nat} {rest : List Lexeme}
    (hfuel : 2 * (argumentLexemes arguments).length + 1 ≤ fuel) :
    readList fuel (argumentLexemes arguments ++ .mark ')' :: rest) = some (arguments, rest) := by
  induction arguments generalizing fuel with
  | nil => exact absurd rfl hne
  | cons argument arguments ih =>
    obtain ⟨fuel, rfl⟩ : ∃ n, fuel = n + 1 := ⟨fuel - 1, by omega⟩
    have hargument := h argument List.mem_cons_self
    cases arguments with
    | nil =>
      simp only [argumentLexemes] at hfuel ⊢
      rw [readList, hargument.read_eq (by omega) (ends_of_operator? rfl 0 _)]
      rfl
    | cons next arguments =>
      simp only [argumentLexemes, List.length_append, List.length_cons] at hfuel ⊢
      have hnext : readList fuel (argumentLexemes (next :: arguments) ++ .mark ')' :: rest) =
          some (next :: arguments, rest) :=
        ih (by simp) (fun a ha => h a (List.mem_cons_of_mem _ ha)) (by omega)
      rw [List.append_assoc, List.cons_append, readList,
        hargument.read_eq (by omega) (ends_of_operator? rfl 0 _)]
      simp only [Option.bind_eq_bind, Option.bind_some]
      rw [hnext]
      rfl

theorem readArguments_of_ne {fuel : Nat} {lexeme : Lexeme} {rest : List Lexeme}
    (h : lexeme ≠ .mark ')') :
    readArguments (fuel + 1) (lexeme :: rest) = readList fuel (lexeme :: rest) := by
  rw [readArguments]
  intro rest' heq
  cases heq
  exact h rfl

theorem readArguments_argumentLexemes {arguments : List Expr}
    (h : ∀ argument ∈ arguments, argument.Reads 0) {fuel : Nat} {rest : List Lexeme}
    (hfuel : 2 * (argumentLexemes arguments).length + 1 ≤ fuel) :
    readArguments (fuel + 1) (argumentLexemes arguments ++ .mark ')' :: rest) =
      some (arguments, rest) := by
  cases arguments with
  | nil => rfl
  | cons argument arguments =>
    obtain ⟨lexeme, first, hfirst, hne⟩ := exists_lexemes_cons argument
    have hhead : ∃ tail, argumentLexemes (argument :: arguments) = lexeme :: tail := by
      cases arguments with
      | nil => exact ⟨first, hfirst⟩
      | cons next arguments => exact ⟨_, by rw [argumentLexemes, hfirst, List.cons_append]; simp⟩
    obtain ⟨tail, htail⟩ := hhead
    have hlist : readList fuel (argumentLexemes (argument :: arguments) ++ .mark ')' :: rest) =
        some (argument :: arguments, rest) :=
      readList_argumentLexemes (List.cons_ne_nil argument arguments) h hfuel
    rw [htail, List.cons_append] at hlist ⊢
    rw [readArguments_of_ne hne, hlist]

theorem operandReads_call {function : Function} {arguments : List Expr}
    (h : ∀ argument ∈ arguments, argument.Reads 0) : (call function arguments).OperandReads := by
  intro fuel rest hfuel
  simp only [lexemes, List.length_cons, List.length_append, List.length_nil] at hfuel ⊢
  obtain ⟨fuel, rfl⟩ : ∃ n, fuel = n + 2 := ⟨fuel - 2, by omega⟩
  have harguments : readArguments (fuel + 1) (argumentLexemes arguments ++ .mark ')' :: rest) =
      some (arguments, rest) := readArguments_argumentLexemes h (by omega)
  simp only [List.cons_append, List.append_assoc, List.nil_append, readOperand]
  rw [String.ofList_toList, function.ofName?_text, harguments]
  rfl

theorem operandReads_group {inner : Expr} (h : inner.Reads 0) : (group inner).OperandReads := by
  intro fuel rest hfuel
  simp only [lexemes, List.length_cons, List.length_append, List.length_nil] at hfuel ⊢
  obtain ⟨fuel, rfl⟩ : ∃ n, fuel = n + 1 := ⟨fuel - 1, by omega⟩
  have hinner : read fuel 0 (inner.lexemes ++ .mark ')' :: rest) =
      some (inner, .mark ')' :: rest) := h.read_eq (by omega) (ends_of_operator? rfl 0 rest)
  simp only [List.cons_append, List.append_assoc, List.nil_append, readOperand]
  rw [hinner]
  rfl

theorem operandReads_negate {operand : Expr} (h : operand.OperandReads) :
    (negate operand).OperandReads := by
  intro fuel rest hfuel
  simp only [lexemes, List.length_cons] at hfuel ⊢
  obtain ⟨fuel, rfl⟩ : ∃ n, fuel = n + 1 := ⟨fuel - 1, by omega⟩
  simp only [List.cons_append, readOperand]
  rw [h fuel rest (by omega)]
  rfl

/-- What is one lexeme, or an attribute, is read at once. -/
theorem operandReads_of_step {e : Expr}
    (h : ∀ fuel rest, readOperand (fuel + 1) (e.lexemes ++ rest) = some (e, rest)) :
    e.OperandReads := by
  intro fuel rest hfuel
  have hlength := chain_lt_length e
  obtain ⟨fuel, rfl⟩ : ∃ n, fuel = n + 1 := ⟨fuel - 1, by omega⟩
  exact h fuel rest

theorem chain_eq_zero {e : Expr} (h : operandLevel ≤ e.level) : e.chain = 0 := by
  cases e with
  | binary operator left right => exact absurd h (Nat.not_le.2 operator.level_lt)
  | _ => rfl

/-- Both parts go by one induction: an operation is read through its operands, and the operand of a
minus sign must not be an operation. -/
theorem Fits.reads_and_operandReads {level : Nat} {e : Expr} (h : Fits level e) :
    (level ≤ operandLevel → e.Reads level) ∧ (e.chain = 0 → e.OperandReads) := by
  have operand {level : Nat} {e : Expr} (hchain : e.chain = 0) (h : e.OperandReads) :
      (level ≤ operandLevel → e.Reads level) ∧ (e.chain = 0 → e.OperandReads) :=
    ⟨fun _ => h.reads hchain level, fun _ => h⟩
  induction h with
  | literal _ =>
    exact operand rfl (operandReads_of_step fun fuel rest => by simp [lexemes, readOperand])
  | number =>
    exact operand rfl (operandReads_of_step fun fuel rest => by simp [lexemes, readOperand])
  | attr _ =>
    exact operand rfl (operandReads_of_step fun fuel rest => by simp [lexemes, readOperand])
  | call _ ih =>
    exact operand rfl (operandReads_call fun argument hargument =>
      (ih argument hargument).1 (Nat.zero_le _))
  | negate tight ih =>
    have hchain := chain_eq_zero (tight.le_level (Nat.le_refl _))
    exact operand rfl (operandReads_negate (ih.2 hchain))
  | group _ ih => exact operand rfl (operandReads_group (ih.1 (Nat.zero_le _)))
  | @binary level operator left right le first second ihFirst ihSecond =>
    have hlt := operator.level_lt
    refine ⟨fun _ => ?_, fun hchain => by simp [chain] at hchain⟩
    exact Reads.binary le (ihFirst.1 (by omega)) (ihSecond.1 (by omega))
      (first.le_level (by omega)) (second.le_level (by omega))

theorem Fits.reads {e : Expr} (h : Fits 0 e) : e.Reads 0 :=
  h.reads_and_operandReads.1 (Nat.zero_le _)

/-- An expression that can stand by itself is read back from its text. -/
theorem parse?_render {e : Expr} (h : Fits 0 e) : parse? e.render = some e := by
  have hlexemes := h.lexes [] (Text.stops_nil _)
  have hread : read (fuelFor e.lexemes) 0 (e.lexemes ++ []) = some (e, []) :=
    h.reads.read_eq (by simp only [fuelFor]; omega) (by simp [Ends])
  rw [List.append_nil] at hlexemes hread
  simp [parse?, hlexemes, hread]

end Expr

/-! ### Queries -/

/-- The lexemes do not start with this one. -/
def NotFirst (lexeme : Lexeme) (lexemes : List Lexeme) : Prop :=
  ∀ rest, lexemes ≠ lexeme :: rest

theorem Step.readPredicates_lexemes {predicates : List Expr} (h : ∀ e ∈ predicates, e.Fits 0)
    {fuel : Nat} {rest : List Lexeme}
    (hfuel : 2 * (predicateLexemes predicates).length + 1 ≤ fuel)
    (hrest : NotFirst (.mark '[') rest) :
    readPredicates fuel (predicateLexemes predicates ++ rest) = some (predicates, rest) := by
  obtain ⟨fuel, rfl⟩ : ∃ n, fuel = n + 1 := ⟨fuel - 1, by omega⟩
  induction predicates generalizing fuel with
  | nil =>
    change readPredicates (fuel + 1) rest = some ([], rest)
    rw [readPredicates]
    exact hrest
  | cons e predicates ih =>
    have htext : predicateLexemes (e :: predicates) ++ rest = .mark '[' ::
        (e.lexemes ++ .mark ']' :: (predicateLexemes predicates ++ rest)) := by
      simp [predicateLexemes]
    have hlength : (predicateLexemes (e :: predicates)).length =
        e.lexemes.length + 2 + (predicateLexemes predicates).length := by
      simp [predicateLexemes]; omega
    obtain ⟨fuel, rfl⟩ : ∃ n, fuel = n + 1 := ⟨fuel - 1, by omega⟩
    have hfirst : Expr.read (fuel + 1) 0
        (e.lexemes ++ .mark ']' :: (predicateLexemes predicates ++ rest)) =
        some (e, .mark ']' :: (predicateLexemes predicates ++ rest)) :=
      (h e List.mem_cons_self).reads.read_eq (by omega) (Expr.ends_of_operator? rfl 0 _)
    have hothers := ih (fun e he => h e (List.mem_cons_of_mem _ he)) fuel (by omega)
    rw [htext, readPredicates, hfirst]
    simp only [Option.bind_eq_bind, Option.bind_some]
    rw [hothers]
    rfl

theorem Axis.read_lexemes (axis : Axis) (rest : List Lexeme) :
    Axis.read (axis.lexemes ++ rest) = some (axis, rest) := by
  cases axis with
  | child => rfl
  | descendant => simp [Axis.lexemes, Axis.read]

theorem Path.notFirst_lexemes (path : Path) {rest : List Lexeme}
    (hrest : NotFirst (.mark '[') rest) : NotFirst (.mark '[') (path.lexemes ++ rest) := by
  cases path with
  | nil => exact hrest
  | cons step path =>
    intro tail heq
    simp [Path.lexemes, Step.lexemes] at heq

theorem Path.read_lexemes {path : Path} (h : ∀ step ∈ path, ∀ e ∈ step.predicates, e.Fits 0)
    {fuel : Nat} {rest : List Lexeme} (hfuel : 2 * path.lexemes.length + 1 ≤ fuel)
    (hbracket : NotFirst (.mark '[') rest) (hslash : NotFirst (.mark '/') rest) :
    Path.read fuel (path.lexemes ++ rest) = some (path, rest) := by
  obtain ⟨fuel, rfl⟩ : ∃ n, fuel = n + 1 := ⟨fuel - 1, by omega⟩
  induction path generalizing fuel with
  | nil =>
    change Path.read (fuel + 1) rest = some ([], rest)
    rw [Path.read]
    exact hslash
  | cons step path ih =>
    have htext : Path.lexemes (step :: path) ++ rest = .mark '/' :: (step.axis.lexemes ++
        (Step.predicateLexemes step.predicates ++ (Path.lexemes path ++ rest))) := by
      simp [Path.lexemes, Step.lexemes]
    have hlength : (Path.lexemes (step :: path)).length = 1 + step.axis.lexemes.length +
        (Step.predicateLexemes step.predicates).length + (Path.lexemes path).length := by
      simp [Path.lexemes, Step.lexemes]; omega
    obtain ⟨fuel, rfl⟩ : ∃ n, fuel = n + 1 := ⟨fuel - 1, by omega⟩
    have hpredicates : Step.readPredicates (fuel + 1)
        (Step.predicateLexemes step.predicates ++ (Path.lexemes path ++ rest)) =
        some (step.predicates, Path.lexemes path ++ rest) :=
      Step.readPredicates_lexemes (h step List.mem_cons_self) (by omega)
        (Path.notFirst_lexemes path hbracket)
    have hsteps := ih (fun step hstep => h step (List.mem_cons_of_mem _ hstep)) fuel (by omega)
    rw [htext, Path.read, Axis.read_lexemes]
    simp only [Option.bind_eq_bind, Option.bind_some]
    rw [hpredicates]
    simp only [Option.bind_some]
    rw [hsteps]
    rfl

theorem Union.read_lexemes {union : Union} (h : union.Fits) {fuel : Nat}
    (hfuel : 2 * union.lexemes.length + 2 ≤ fuel) :
    Union.read fuel union.lexemes = some union := by
  obtain ⟨fuel, rfl⟩ : ∃ n, fuel = n + 1 := ⟨fuel - 1, by omega⟩
  induction union generalizing fuel with
  | nil => exact absurd rfl h.nonempty
  | cons path paths ih =>
    obtain ⟨step, steps, rfl⟩ := List.exists_cons_of_ne_nil (h.steps path List.mem_cons_self)
    have hsteps := h.predicates _ List.mem_cons_self
    cases paths with
    | nil =>
      simp only [lexemes] at hfuel ⊢
      have hpath : Path.read fuel (Path.lexemes (step :: steps) ++ []) =
          some (step :: steps, []) :=
        Path.read_lexemes hsteps (by omega) (by simp [NotFirst]) (by simp [NotFirst])
      rw [List.append_nil] at hpath
      rw [Union.read, hpath]
      rfl
    | cons next paths =>
      simp only [lexemes, List.length_append, List.length_cons] at hfuel ⊢
      have hpath : Path.read fuel
          (Path.lexemes (step :: steps) ++ .mark '|' :: lexemes (next :: paths)) =
          some (step :: steps, .mark '|' :: lexemes (next :: paths)) :=
        Path.read_lexemes hsteps (by omega) (by simp [NotFirst]) (by simp [NotFirst])
      obtain ⟨fuel, rfl⟩ : ∃ n, fuel = n + 1 := ⟨fuel - 1, by omega⟩
      have hpaths := ih ⟨by simp, fun p hp => h.steps p (List.mem_cons_of_mem _ hp),
        fun p hp => h.predicates p (List.mem_cons_of_mem _ hp)⟩ fuel (by omega)
      rw [Union.read, hpath]
      simp only [Option.bind_eq_bind, Option.bind_some]
      rw [hpaths]
      rfl

/-- A query that can be written is read back from its text. -/
theorem Union.parse?_render {union : Union} (h : union.Fits) :
    Union.parse? union.render = some union := by
  rw [Union.parse?, Union.readAll_render h.predicates]
  exact Union.read_lexemes h (by simp only [fuelFor]; omega)

end SelectorPath.XPath
