import SelectorPath.Proofs.Text.Run
import SelectorPath.Text.Word
import SelectorPath.XPath.Reader

/-! The lexemes of printed expressions. A name and a number end where a character follows that
cannot stand in a name, and everything else ends by itself, so the lexemes of a text put before
another are found again, whatever the literals hold. -/

namespace SelectorPath.XPath

open Text

namespace Lexeme

/-! ### One lexeme before a text -/

theorem readAll_cons_of_read {c : Char} {cs rest : List Char} {lexeme : Lexeme}
    (hc : c.isWhitespace = false) (h : read c cs = some (lexeme, rest)) :
    readAll (c :: cs) = (readAll rest).map (lexeme :: ·) := by
  rw [readAll, if_neg (by simp [hc])]
  split
  · next h' => rw [h] at h'; cases h'
  · next h' => rw [h] at h'; cases h'; rfl

@[simp] theorem readAll_nil : readAll [] = some [] := by
  rw [readAll]

@[simp] theorem readAll_space (cs : List Char) : readAll (' ' :: cs) = readAll cs := by
  rw [readAll, if_pos (by decide)]

theorem read_mark {c : Char} (cs : List Char) (h : isMark c = true) :
    read c cs = some (mark c, cs) := by
  simp only [isMark, Bool.or_eq_true, beq_iff_eq] at h
  rcases h with
    ((((((((((rfl | rfl) | rfl) | rfl) | rfl) | rfl) | rfl) | rfl) | rfl) | rfl) | rfl) | rfl <;>
  rfl

/-- A class without quotation marks and spaces starts no literal and is not skipped. -/
theorem not_quote_of_class {p : Char → Bool} {c : Char} (hp : ['\'', '"'].any p = false)
    (hc : p c = true) : Quote.ofChar? c = none := by
  rw [Option.eq_none_iff_forall_ne_some]
  intro quote found
  rw [Quote.ofChar?_eq_some_iff.1 found] at hc
  cases quote <;> simp [Quote.char] at hc <;> simp [hc] at hp

theorem not_space_of_class {p : Char → Bool} {c : Char}
    (hp : [' ', '\t', '\r', '\n'].any p = false) (hc : p c = true) : c.isWhitespace = false := by
  by_contra hw
  simp only [Char.isWhitespace, Bool.not_eq_false, Bool.or_eq_true, decide_eq_true_eq] at hw
  rcases hw with ((rfl | rfl) | rfl) | rfl <;> simp [hc] at hp

theorem readAll_mark {c : Char} (cs : List Char) (h : isMark c = true) :
    readAll (c :: cs) = (readAll cs).map (mark c :: ·) :=
  readAll_cons_of_read (not_space_of_class (by decide) h) (read_mark cs h)

theorem isDigit_of_startsName {c : Char} (h : startsName c = true) : c.isDigit = false := by
  simp only [startsName, Bool.or_eq_true, beq_iff_eq] at h
  rcases h with h | rfl
  · simp only [Char.isAlpha, Char.isUpper, Char.isLower, Char.isDigit] at h ⊢
    grind
  · decide

theorem read_name {c : Char} {cs rest : List Char} (hc : startsName c = true)
    (hcs : cs.all inName = true) (hrest : Stops inName rest) :
    read c (cs ++ rest) = some (name (c :: cs), rest) := by
  have hquote : Quote.ofChar? c = none := not_quote_of_class (by decide) hc
  simp only [read, hquote, isDigit_of_startsName hc, hc, Bool.false_eq_true, if_false, if_true,
    takeWhile_run hcs hrest, dropWhile_run hcs hrest]

theorem readAll_name (c : Char) (cs : List Char) {rest : List Char} (hc : startsName c = true)
    (hcs : cs.all inName = true) (hrest : Stops inName rest) :
    readAll (c :: (cs ++ rest)) = (readAll rest).map (name (c :: cs) :: ·) :=
  readAll_cons_of_read (not_space_of_class (by decide) hc) (read_name hc hcs hrest)

theorem inName_of_isWord {c : Char} (h : isWord c = true) : inName c = true := by
  simp only [isWord, inName, Bool.or_eq_true] at h ⊢
  exact .inl h

/-- Whether a text is a name of XPath as a whole. -/
def spellsName : List Char → Bool
  | [] => false
  | c :: cs => startsName c && cs.all inName

theorem spellsName_of_isName {cs : List Char} (h : isName cs = true) : spellsName cs = true := by
  cases cs with
  | nil => cases h
  | cons c cs =>
    simp only [isName, spellsName, Bool.and_eq_true, List.all_eq_true] at h ⊢
    exact ⟨by simp [startsName, h.1], fun d hd => inName_of_isWord (h.2 d hd)⟩

theorem readAll_of_spellsName {cs rest : List Char} (h : spellsName cs = true)
    (hrest : Stops inName rest) :
    readAll (cs ++ rest) = (readAll rest).map (name cs :: ·) := by
  cases cs with
  | nil => cases h
  | cons c cs =>
    obtain ⟨hc, hcs⟩ := Bool.and_eq_true_iff.1 h
    exact readAll_name c cs hc hcs hrest

theorem inName_of_isDigit {c : Char} (h : c.isDigit = true) : inName c = true := by
  simp [inName, Char.isAlphanum, h]

theorem readAll_digits {c : Char} {cs rest : List Char} (hc : c.isDigit = true)
    (hcs : cs.all Char.isDigit = true) (hrest : Stops inName rest) :
    readAll (c :: (cs ++ rest)) = (readAll rest).map (number (ofDigits (c :: cs)) :: ·) := by
  have hstop := hrest.mono fun _ => inName_of_isDigit
  have hquote : Quote.ofChar? c = none := not_quote_of_class (by decide) hc
  refine readAll_cons_of_read (not_space_of_class (by decide) hc) ?_
  simp only [read, hquote, hc, if_true, takeWhile_run hcs hstop, dropWhile_run hcs hstop]

theorem readAll_number (n : Nat) {rest : List Char} (hrest : Stops inName rest) :
    readAll ((toString n).toList ++ rest) = (readAll rest).map (number n :: ·) := by
  have hvalue := ofDigits_toString n
  have hdigits : ∀ c ∈ (toString n).toList, c.isDigit = true := by
    intro c hc
    rw [show toString n = String.ofList (Nat.toDigits 10 n) from rfl, String.toList_ofList] at hc
    exact Nat.isDigit_of_mem_toDigits (by decide) (by decide) hc
  have hne : (toString n).toList ≠ [] := by
    rw [show toString n = String.ofList (Nat.toDigits 10 n) from rfl, String.toList_ofList]
    exact Nat.toDigits_ne_nil
  obtain ⟨c, cs, h⟩ := List.exists_cons_of_ne_nil hne
  rw [h] at hvalue hdigits ⊢
  rw [List.cons_append, readAll_digits (hdigits c List.mem_cons_self) _ hrest, hvalue]
  rw [List.all_eq_true]
  intro d hd
  exact hdigits d (List.mem_cons_of_mem c hd)

theorem read_literal {quote : Quote} {text : List Char} (h : quote.char ∉ text)
    (rest : List Char) :
    read quote.char (text ++ quote.char :: rest) = some (literal quote text, rest) := by
  have hall : text.all (· != quote.char) = true := by
    rw [List.all_eq_true]
    intro c hc
    simp only [bne_iff_ne, ne_eq]
    rintro rfl
    exact h hc
  have hstop : Stops (· != quote.char) (quote.char :: rest) := by simp
  rw [read, Quote.ofChar?_eq_some_iff.2 rfl]
  simp only [readLiteral, dropWhile_run hall hstop, takeWhile_run hall hstop]

theorem readAll_literal {quote : Quote} {text : List Char} (rest : List Char)
    (h : quote.char ∉ text) :
    readAll (quote.enclose text ++ rest) = (readAll rest).map (literal quote text :: ·) := by
  rw [Quote.enclose, List.cons_append, List.append_assoc, List.singleton_append]
  exact readAll_cons_of_read (by cases quote <;> rfl) (read_literal h rest)

end Lexeme

/-! ### The lexemes of an expression -/

/-- The lexeme of an operator. -/
def Operator.lexeme : Operator → Lexeme
  | or => .name ['o', 'r']
  | and => .name ['a', 'n', 'd']
  | equal => .mark '='
  | atMost => .atMost
  | atLeast => .atLeast
  | plus => .mark '+'
  | minus => .mark '-'
  | mod => .name ['m', 'o', 'd']

/-- The level of what is no operation; every operator binds less tight. -/
def operandLevel : Nat := 7

namespace Expr

mutual

def lexemes : Expr → List Lexeme
  | literal quote text => [.literal quote text.toList]
  | number value => [.number value]
  | attr name => [.mark '@', .name name.toList]
  | call function arguments =>
    .name function.text.toList :: .mark '(' :: (argumentLexemes arguments ++ [.mark ')'])
  | negate operand => .mark '-' :: operand.lexemes
  | binary operator left right => left.lexemes ++ operator.lexeme :: right.lexemes
  | group inner => .mark '(' :: (inner.lexemes ++ [.mark ')'])

def argumentLexemes : List Expr → List Lexeme
  | [] => []
  | [argument] => argument.lexemes
  | argument :: rest => argument.lexemes ++ .mark ',' :: argumentLexemes rest

end

/-- The expression can stand where operators bind at least as tight as `level`: what is less tight
is in parentheses, literals are free of their own mark, and attributes have names. -/
inductive Fits : Nat → Expr → Prop
  | literal {level : Nat} {quote : Quote} {text : String} (free : quote.char ∉ text.toList) :
      Fits level (literal quote text)
  | number {level value : Nat} : Fits level (number value)
  | attr {level : Nat} {name : String} (named : Lexeme.spellsName name.toList = true) :
      Fits level (attr name)
  | call {level : Nat} {function : Function} {arguments : List Expr}
      (each : ∀ argument ∈ arguments, Fits 0 argument) : Fits level (call function arguments)
  | negate {level : Nat} {operand : Expr} (tight : Fits operandLevel operand) :
      Fits level (negate operand)
  | binary {level : Nat} {operator : Operator} {left right : Expr} (le : level ≤ operator.level)
      (first : Fits operator.level left) (second : Fits (operator.level + 1) right) :
      Fits level (binary operator left right)
  | group {level : Nat} {inner : Expr} (free : Fits 0 inner) : Fits level (group inner)

end Expr

namespace Lexeme

theorem readAll_atMost (cs : List Char) :
    readAll ('<' :: '=' :: cs) = (readAll cs).map (atMost :: ·) :=
  readAll_cons_of_read rfl rfl

theorem readAll_atLeast (cs : List Char) :
    readAll ('>' :: '=' :: cs) = (readAll cs).map (atLeast :: ·) :=
  readAll_cons_of_read rfl rfl

theorem readAll_axis (cs : List Char) :
    readAll (':' :: ':' :: cs) = (readAll cs).map (axis :: ·) :=
  readAll_cons_of_read rfl rfl

/-- An operator is one lexeme where a space follows it. -/
theorem readAll_operator (operator : Operator) (rest : List Char) :
    readAll (operator.text.toList ++ ' ' :: rest) = (readAll rest).map (operator.lexeme :: ·) := by
  have hspace : Stops inName (' ' :: rest) := by simp; decide
  rw [← readAll_space rest]
  cases operator with
  | or => exact readAll_name 'o' ['r'] rfl rfl hspace
  | and => exact readAll_name 'a' ['n', 'd'] rfl rfl hspace
  | mod => exact readAll_name 'm' ['o', 'd'] rfl rfl hspace
  | equal => exact readAll_mark (c := '=') (' ' :: rest) rfl
  | plus => exact readAll_mark (c := '+') (' ' :: rest) rfl
  | minus => exact readAll_mark (c := '-') (' ' :: rest) rfl
  | atMost => exact readAll_atMost (' ' :: rest)
  | atLeast => exact readAll_atLeast (' ' :: rest)

theorem readAll_operatorText (operator : Operator) (left : Expr) (rest : List Char) :
    readAll ((Expr.operatorText operator left).toList ++ rest) =
      (readAll rest).map (operator.lexeme :: ·) := by
  unfold Expr.operatorText
  split
  · exact readAll_mark (c := '=') rest rfl
  · rw [String.toList_append, String.toList_append, List.append_assoc, List.append_assoc]
    exact (readAll_space _).trans (readAll_operator operator rest)

theorem readAll_function (function : Function) (rest : List Char) :
    readAll (function.text.toList ++ '(' :: rest) =
      (readAll ('(' :: rest)).map (name function.text.toList :: ·) := by
  have hopen : Stops inName ('(' :: rest) := by simp; decide
  cases function with
  | name => exact readAll_name 'n' "ame".toList rfl rfl hopen
  | position => exact readAll_name 'p' "osition".toList rfl rfl hopen
  | last => exact readAll_name 'l' "ast".toList rfl rfl hopen
  | not => exact readAll_name 'n' "ot".toList rfl rfl hopen
  | contains => exact readAll_name 'c' "ontains".toList rfl rfl hopen
  | startsWith => exact readAll_name 's' "tarts-with".toList rfl rfl hopen
  | concat => exact readAll_name 'c' "oncat".toList rfl rfl hopen

end Lexeme

namespace Expr

/-- An operator text starts with no character of a name, so it ends the operand before it. -/
theorem stops_operatorText (operator : Operator) (left : Expr) (rest : List Char) :
    Stops Lexeme.inName ((operatorText operator left).toList ++ rest) := by
  unfold operatorText
  split
  · exact stops_cons.2 rfl
  · rw [String.toList_append, String.toList_append, List.append_assoc, List.append_assoc]
    exact stops_cons.2 rfl

/-- The text of the expression gives its lexemes, if what follows does not run on from a name. -/
def Lexes (e : Expr) : Prop :=
  ∀ rest, Stops Lexeme.inName rest →
    Lexeme.readAll (e.render.toList ++ rest) = (Lexeme.readAll rest).map (e.lexemes ++ ·)

theorem toList_render_attr (name : String) : (attr name).render.toList = '@' :: name.toList := by
  simp [render]

theorem toList_render_call (function : Function) (arguments : List Expr) :
    (call function arguments).render.toList =
      function.text.toList ++ '(' :: ((renderArguments arguments).toList ++ [')']) := by
  simp [render]

theorem toList_render_negate (operand : Expr) :
    (negate operand).render.toList = '-' :: operand.render.toList := by
  simp [render]

theorem toList_render_group (inner : Expr) :
    (group inner).render.toList = '(' :: (inner.render.toList ++ [')']) := by
  simp [render]

theorem toList_renderArguments (argument next : Expr) (arguments : List Expr) :
    (renderArguments (argument :: next :: arguments)).toList =
      argument.render.toList ++ ',' :: ' ' :: (renderArguments (next :: arguments)).toList := by
  simp [renderArguments]

theorem readAll_renderArguments {arguments : List Expr}
    (h : ∀ argument ∈ arguments, argument.Lexes) {rest : List Char}
    (hrest : Stops Lexeme.inName rest) :
    Lexeme.readAll ((renderArguments arguments).toList ++ rest) =
      (Lexeme.readAll rest).map (argumentLexemes arguments ++ ·) := by
  induction arguments with
  | nil => simp [renderArguments, argumentLexemes]
  | cons argument arguments ih =>
    cases arguments with
    | nil => exact h argument (by simp) rest hrest
    | cons next arguments =>
      have hnext := ih fun a ha => h a (List.mem_cons_of_mem _ ha)
      rw [toList_renderArguments, List.append_assoc, List.cons_append, List.cons_append,
        h argument (by simp) _ (stops_cons.2 rfl), Lexeme.readAll_mark _ rfl, Lexeme.readAll_space,
        hnext]
      simp [argumentLexemes, Function.comp_def]

theorem Fits.lexes {level : Nat} {e : Expr} (h : Fits level e) : e.Lexes := by
  induction h with
  | literal free =>
    intro rest _
    simpa [render, lexemes] using Lexeme.readAll_literal rest free
  | number =>
    intro rest hrest
    simpa [render, lexemes] using Lexeme.readAll_number _ hrest
  | attr named =>
    intro rest hrest
    rw [toList_render_attr, List.cons_append, Lexeme.readAll_mark _ rfl,
      Lexeme.readAll_of_spellsName named hrest, Option.map_map]
    rfl
  | call _ ih =>
    intro rest hrest
    rw [toList_render_call, List.append_assoc, List.cons_append, List.append_assoc,
      List.singleton_append, Lexeme.readAll_function, Lexeme.readAll_mark _ rfl,
      readAll_renderArguments ih (stops_cons.2 rfl), Lexeme.readAll_mark _ rfl]
    simp [lexemes, Function.comp_def]
  | negate _ ih =>
    intro rest hrest
    rw [toList_render_negate, List.cons_append, Lexeme.readAll_mark _ rfl, ih rest hrest,
      Option.map_map]
    rfl
  | binary _ _ _ ihLeft ihRight =>
    intro rest hrest
    rw [render, String.toList_append, String.toList_append, List.append_assoc, List.append_assoc,
      ihLeft _ (stops_operatorText _ _ _), Lexeme.readAll_operatorText, ihRight rest hrest]
    simp [lexemes, Function.comp_def]
  | group _ ih =>
    intro rest hrest
    rw [toList_render_group, List.cons_append, List.append_assoc, List.singleton_append,
      Lexeme.readAll_mark _ rfl, ih _ (stops_cons.2 rfl), Lexeme.readAll_mark _ rfl]
    simp [lexemes, Function.comp_def]

end Expr

/-! ### The lexemes of a query -/

def Axis.lexemes : Axis → List Lexeme
  | child => [.mark '*']
  | descendant => [.name "descendant".toList, .axis, .mark '*']

def Step.predicateLexemes (predicates : List Expr) : List Lexeme :=
  predicates.flatMap fun e => .mark '[' :: (e.lexemes ++ [.mark ']'])

def Step.lexemes (step : Step) : List Lexeme :=
  .mark '/' :: (step.axis.lexemes ++ predicateLexemes step.predicates)

def Path.lexemes (path : Path) : List Lexeme :=
  path.flatMap Step.lexemes

def Union.lexemes : Union → List Lexeme
  | [] => []
  | [path] => path.lexemes
  | path :: rest => path.lexemes ++ .mark '|' :: lexemes rest

/-- A query that can be written: it has a path, and each path a step, and every predicate can stand
by itself. -/
structure Union.Fits (union : Union) : Prop where
  nonempty : union ≠ []
  steps : ∀ path ∈ union, path ≠ []
  predicates : ∀ path ∈ union, ∀ step ∈ path, ∀ e ∈ step.predicates, e.Fits 0

/-- Texts that end by themselves can be put one after the other. -/
theorem Lexeme.readAll_flatMap {α : Type} {xs : List α} {text : α → List Char}
    {lexemes : α → List Lexeme}
    (h : ∀ x ∈ xs, ∀ rest, readAll (text x ++ rest) = (readAll rest).map (lexemes x ++ ·))
    (rest : List Char) :
    readAll (xs.flatMap text ++ rest) = (readAll rest).map (xs.flatMap lexemes ++ ·) := by
  induction xs with
  | nil => simp
  | cons x xs ih =>
    have htail := ih fun y hy => h y (List.mem_cons_of_mem x hy)
    rw [List.flatMap_cons, List.append_assoc, h x List.mem_cons_self, htail]
    simp [Function.comp_def]

theorem Axis.readAll_text (axis : Axis) (rest : List Char) :
    Lexeme.readAll (axis.text.toList ++ '*' :: rest) =
      (Lexeme.readAll rest).map (axis.lexemes ++ ·) := by
  cases axis with
  | child => exact Lexeme.readAll_mark rest rfl
  | descendant =>
    have hstop : Stops Lexeme.inName (':' :: ':' :: '*' :: rest) := stops_cons.2 rfl
    have hname := Lexeme.readAll_name 'd' "escendant".toList rfl rfl hstop
    rw [Lexeme.readAll_axis, Lexeme.readAll_mark rest rfl, Option.map_map, Option.map_map] at hname
    exact hname

theorem Step.toList_render (step : Step) :
    step.render.toList = '/' :: (step.axis.text.toList ++
      '*' :: step.predicates.flatMap fun e => '[' :: (e.render.toList ++ [']'])) := by
  simp [Step.render, List.flatMap_map]

theorem Step.readAll_render {step : Step} (h : ∀ e ∈ step.predicates, e.Fits 0)
    (rest : List Char) :
    Lexeme.readAll (step.render.toList ++ rest) =
      (Lexeme.readAll rest).map (step.lexemes ++ ·) := by
  have hpredicates : Lexeme.readAll ((step.predicates.flatMap fun e =>
      '[' :: (e.render.toList ++ [']'])) ++ rest) =
      (Lexeme.readAll rest).map (predicateLexemes step.predicates ++ ·) := by
    refine Lexeme.readAll_flatMap ?_ rest
    intro e he rest
    rw [List.cons_append, List.append_assoc, List.singleton_append, Lexeme.readAll_mark _ rfl,
      (h e he).lexes _ (stops_cons.2 rfl), Lexeme.readAll_mark _ rfl]
    simp [Function.comp_def]
  rw [toList_render, List.cons_append, List.append_assoc, List.cons_append,
    Lexeme.readAll_mark _ rfl, Axis.readAll_text, hpredicates]
  simp [Step.lexemes, Function.comp_def]

theorem Path.readAll_render {path : Path} (h : ∀ step ∈ path, ∀ e ∈ step.predicates, e.Fits 0)
    (rest : List Char) :
    Lexeme.readAll (path.render.toList ++ rest) =
      (Lexeme.readAll rest).map (path.lexemes ++ ·) := by
  rw [Path.render, String.toList_join, List.flatMap_map]
  exact Lexeme.readAll_flatMap (fun step hstep => Step.readAll_render (h step hstep)) rest

theorem Union.readAll_render {union : Union}
    (h : ∀ path ∈ union, ∀ step ∈ path, ∀ e ∈ step.predicates, e.Fits 0) :
    Lexeme.readAll union.render.toList = some union.lexemes := by
  induction union with
  | nil => simp [Union.render, lexemes]
  | cons path paths ih =>
    have hpath := Path.readAll_render (h path List.mem_cons_self)
    cases paths with
    | nil => simpa [Union.render, lexemes] using hpath []
    | cons next paths =>
      have htail := ih fun p hp => h p (List.mem_cons_of_mem path hp)
      have htext : (render (path :: next :: paths)).toList =
          path.render.toList ++ '|' :: (render (next :: paths)).toList := by
        simp [Union.render, String.intercalate_cons_cons]
      rw [htext, hpath, Lexeme.readAll_mark _ rfl, htail]
      rfl

end SelectorPath.XPath
