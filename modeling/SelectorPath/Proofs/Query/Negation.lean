import SelectorPath.Proofs.Query.Intent
import SelectorPath.Proofs.Query.Simulation
import SelectorPath.Proofs.Selector.RoundTrip

/-! The negation of a selector list. If the members are single compounds that ask something of the
element itself, and there is a level left for one more negation, then the query of `:not(...)` is
made of the tests of these compounds. But the argument of a negation ends where its parentheses are
balanced, in quotes or not, and the list is cut at commas outside all brackets and quotes: so this
holds exactly if the parentheses of the list are balanced, and no comma of it is outside of all
brackets and quotes once one more parenthesis is open. -/

namespace SelectorPath

open Text XPath

/-! ### The text of a join -/

/-- The texts joined by an operator, each in parentheses if there are several. -/
def XPath.Operator.joinText (operator : Operator) : List String → String
  | [text] => text
  | texts => (" " ++ operator.text ++ " ").intercalate (texts.map fun text => "(" ++ text ++ ")")

namespace XPath.Expr

theorem render_foldl_group {operator : Operator} {e : Expr} {rest : List Expr}
    (h : operatorText operator e = " " ++ operator.text ++ " ") :
    (rest.foldl (fun left right => binary operator left (group right)) e).render =
      (" " ++ operator.text ++ " ").intercalate
        (e.render :: rest.map fun right => "(" ++ right.render ++ ")") := by
  induction rest generalizing e with
  | nil => rw [List.foldl_nil, List.map_nil, String.intercalate_singleton]
  | cons next rest ih =>
    have hbinary : operatorText operator (binary operator e (group next)) =
        " " ++ operator.text ++ " " := by
      cases operator <;> rfl
    rw [List.foldl_cons, ih hbinary, render, render, h, List.map_cons,
      String.intercalate_cons_cons, String.intercalate_cons_append]

theorem render_of_joined? {operator : Operator} {es : List Expr} {e : Expr}
    (h : joined? operator es = some e) : e.render = operator.joinText (es.map render) := by
  match es, h with
  | [_], h =>
    cases h
    rfl
  | first :: second :: rest, h =>
    cases h
    have hgroup : operatorText operator (group first) = " " ++ operator.text ++ " " := by
      cases operator <;> rfl
    rw [render_foldl_group hgroup, render]
    simp only [Operator.joinText, List.map_cons, List.map_map]
    rfl

theorem exists_joined? {es : List Expr} (h : es ≠ []) (operator : Operator) :
    ∃ e, joined? operator es = some e := by
  match es with
  | [e] => exact ⟨e, rfl⟩
  | first :: second :: rest => exact ⟨_, rfl⟩

end XPath.Expr

/-! ### Levels of negation -/

/-- Negations stand in each other at most so deep. -/
def SelectorList.NestsAtMost : Nat → String → Prop
  | 0, text => ∀ argument, ¬Negates text argument
  | levels + 1, text => ∀ argument, Negates text argument → NestsAtMost levels argument

theorem SelectorList.negates_iff {text argument : String} {selectors : SelectorList}
    (parsed : (parse text).result = .ok selectors) :
    Negates text argument ↔ ∃ selector ∈ selectors, ∃ compound ∈ selector,
      ⟨"not", some argument⟩ ∈ compound.pseudos := by
  constructor
  · rintro ⟨selectors', parsed', h⟩
    obtain rfl := Except.ok.inj (parsed.symm.trans parsed')
    exact h
  · intro h
    exact ⟨selectors, parsed, h⟩

theorem SelectorList.negates_of_mem {text argument : String} {compounds : List Compound}
    (parsed : (parse text).result = .ok (compounds.map ([·]))) {compound : Compound}
    (hcompound : compound ∈ compounds) (h : ⟨"not", some argument⟩ ∈ compound.pseudos) :
    Negates text argument :=
  (negates_iff parsed).2
    ⟨[compound], List.mem_map_of_mem hcompound, compound, List.mem_cons_self, h⟩

theorem SelectorList.nestsAtMost_of_pseudos_nil {text : String} {selectors : SelectorList}
    (parsed : (parse text).result = .ok selectors)
    (h : ∀ selector ∈ selectors, ∀ compound ∈ selector, compound.pseudos = []) (levels : Nat) :
    NestsAtMost levels text := by
  have hnone : ∀ argument, ¬Negates text argument := by
    intro argument hnegates
    obtain ⟨selector, hselector, compound, hcompound, hmem⟩ := (negates_iff parsed).1 hnegates
    rw [h selector hselector compound hcompound] at hmem
    cases hmem
  cases levels with
  | zero => exact hnone
  | succ levels => exact fun argument h => absurd h (hnone argument)

theorem Pseudo.States.mono {Negates Negates' : String → Expr → Prop} {pseudo : Pseudo} {e : Expr}
    (h : pseudo.States Negates e)
    (hmono : ∀ argument, pseudo = ⟨"not", some argument⟩ → Negates argument e →
      Negates' argument e) :
    pseudo.States Negates' e := by
  cases h with
  | firstChild argument => exact .firstChild argument
  | lastChild argument => exact .lastChild argument
  | nthChild parsed => exact .nthChild parsed
  | negation negated => exact .negation (hmono _ rfl negated)

theorem Compound.result_testsWith_mono {negate negate' : String → Outcome Expr}
    {compound : Compound} {tests : List Expr}
    (h : (compound.testsWith negate).result = .ok tests)
    (hmono : ∀ argument, ⟨"not", some argument⟩ ∈ compound.pseudos →
      ∀ e, (negate argument).result = .ok e → (negate' argument).result = .ok e) :
    (compound.testsWith negate').result = .ok tests := by
  obtain ⟨pseudoTests, hpseudos, rfl⟩ := result_testsWith_eq_ok_iff.1 h
  refine result_testsWith_eq_ok_iff.2 ⟨pseudoTests, ?_, rfl⟩
  refine forall₂_imp_of_mem hpseudos ?_
  intro pseudo hpseudo e hstates
  refine hstates.mono ?_
  rintro argument rfl hnegate
  exact hmono argument hpseudo e hnegate

/-- A test that can be stated does not depend on the levels left, if there are enough. -/
theorem Negation.result_expr_of_nestsAtMost {n levels levels' : Nat} {argument : String} {e : Expr}
    (h : (expr levels argument).result = .ok e) (hnests : SelectorList.NestsAtMost n argument)
    (hlevels : n < levels') : (expr levels' argument).result = .ok e := by
  induction levels' generalizing n levels argument e with
  | zero => exact absurd hlevels (Nat.not_lt_zero n)
  | succ levels' ih =>
    cases levels with
    | zero => exact absurd h (result_expr_zero_ne_ok argument e)
    | succ levels =>
      obtain ⟨compounds, alternatives, any, parsed, states, joined, rfl⟩ :=
        result_expr_eq_ok_iff.1 h
      refine result_expr_eq_ok_iff.2 ⟨compounds, alternatives, any, parsed, ?_, joined, rfl⟩
      refine forall₂_imp_of_mem states ?_
      rintro compound hcompound e ⟨hcombinator, tests, htests, hjoined⟩
      refine ⟨hcombinator, tests, Compound.result_testsWith_mono htests ?_, hjoined⟩
      intro inner hinner e he
      have hnegates := SelectorList.negates_of_mem parsed hcompound hinner
      cases n with
      | zero => exact absurd hnegates (hnests inner)
      | succ n => exact ih he (hnests inner hnegates) (Nat.lt_of_succ_lt_succ hlevels)

/-! ### Reading a negation -/

/-- The text of a negation. -/
def Negation.text (argument : String) : String :=
  ":not(" ++ argument ++ ")"

theorem Negation.toList_text (argument : String) :
    (text argument).toList = ':' :: 'n' :: 'o' :: 't' :: '(' :: (argument.toList ++ [')']) := by
  simp [text]

namespace Selector

theorem exists_assemble_cons (compound : Compound) (stage : Stage) (tokens : List Token) :
    ∃ first rest, assemble compound stage tokens = first :: rest ∧
      compound.pseudos <+: first.pseudos := by
  fun_induction assemble compound stage tokens with
  | case1 compound stage => exact ⟨compound, [], rfl, List.prefix_rfl⟩
  | case2 compound gap tokens ih =>
    have hjoined : (compound.joinedBy gap.combinator).pseudos = compound.pseudos := by
      cases gap.combinator <;> rfl
    rwa [hjoined] at ih
  | case3 compound stage gap tokens hstage ih => exact ⟨compound, _, rfl, List.prefix_rfl⟩
  | case4 compound stage selector tokens ih =>
    have hadded : compound.pseudos <+: (selector.addTo compound).pseudos := by
      cases selector with
      | universal | element | shorthand | block => exact List.prefix_rfl
      | pseudo name argument => exact List.prefix_append _ _
    obtain ⟨first, rest, h, hpseudos⟩ := ih
    exact ⟨first, rest, h, hadded.trans hpseudos⟩
  | case5 compound char tokens ih => exact ⟨compound, _, rfl, List.prefix_rfl⟩
  | case6 compound stage char tokens hstage ih => exact ih

/-- The pseudo-class that a text starts with is the first of its first compound. -/
theorem exists_of_read_negation {argument : String} {selector : Selector}
    (h : (parse (Negation.text argument)).result = .ok selector) :
    ∃ name first rest, selector = first :: rest ∧
      [⟨name, some (String.ofList (Argument.read 0 (argument.toList ++ [')'])).1.text)⟩] <+:
        first.pseudos := by
  have htext := Negation.toList_text argument
  have hend : EndsDark (Negation.text argument).toList := by
    have hclose : EndsDark [')'] := ⟨[], ')', rfl, by decide⟩
    rw [htext]
    exact hclose.append (':' :: 'n' :: 'o' :: 't' :: '(' :: argument.toList)
  have htrim : trim (Negation.text argument).toList = (Negation.text argument).toList := by
    refine trim_of_endsDark ?_ hend
    rw [htext]
    exact stops_cons.2 (by decide)
  obtain ⟨_, rfl⟩ := result_read_eq_ok_iff.1 h
  rw [htrim, htext, Tokens.read_of_ok rfl]
  exact ⟨_, exists_assemble_cons (.addPseudo {} ⟨_, _⟩) .begun _⟩

/-- A negation is read as what it is written as exactly if its argument is balanced. -/
theorem parse_negation_iff {argument : String} :
    (parse (Negation.text argument)).result = .ok [{ pseudos := [⟨"not", some argument⟩] }] ↔
      Balanced argument.toList := by
  constructor
  · intro h
    obtain ⟨name, first, rest, hselector, hpseudos⟩ := exists_of_read_negation h
    cases hselector
    have hargument := hpseudos.eq_of_length rfl
    simp only [List.cons.injEq, Pseudo.mk.injEq, Option.some.injEq, and_true] at hargument
    have hread := congrArg String.toList hargument.2
    rw [String.toList_ofList] at hread
    exact Argument.text_read_eq_iff.1 hread
  · intro h
    have htext : (Negation.text argument).toList =
        Selector.text [{ pseudos := [⟨"not", some argument⟩] }] := by
      simp [Negation.text, text, followingText, Compound.text, Compound.isUniversal, Pseudo.text]
    rw [parse, htext, read_text]
    refine ⟨List.cons_ne_nil _ _, List.forall_mem_singleton.2 ⟨by simp, by simp, ?_⟩⟩
    refine List.forall_mem_singleton.2 ⟨?_, by simpa using h⟩
    change "not".toList.all SimpleSelector.isPseudoLetter = true
    decide

end Selector

/-! ### Cutting a negation -/

theorem Nesting.undivided_append_close_iff {nesting : Nesting} {cs : List Char} :
    nesting.Undivided (cs ++ [')']) ↔ nesting.Undivided cs := by
  induction cs generalizing nesting with
  | nil => simp [undivided_cons_iff, undivided_nil]
  | cons c cs ih => rw [List.cons_append, undivided_cons_iff, undivided_cons_iff, ih]

theorem Negation.undivided_text_iff {argument : String} :
    Nesting.top.Undivided (text argument).toList ↔
      Nesting.Undivided { depth := 1 } argument.toList := by
  refine Iff.trans ?_ Nesting.undivided_append_close_iff
  rw [toList_text]
  simp only [Nesting.undivided_cons_iff, Char.reduceEq, false_and, not_false_eq_true, true_and]
  rfl

/-! ### The query of a negation -/

/-- The query with one step that has one test. -/
def Negation.union (e : Expr) : Union :=
  [[⟨.child, []⟩, ⟨.descendant, [e]⟩]]

theorem Negation.render_union (any : Expr) :
    (union (.call .not [any])).render = "/*/descendant::*[not(" ++ any.render ++ ")]" := by
  rw [← String.toList_inj]
  simp [union, Union.render, Path.render, Step.render, Axis.text, Expr.render,
    Expr.renderArguments, Function.text]

theorem Compound.tests_ne_nil {negate : String → Outcome Expr} {compound : Compound}
    {tests : List Expr} (h : (compound.testsWith negate).result = .ok tests)
    (huniversal : compound.isUniversal = false) : tests ≠ [] := by
  obtain ⟨pseudoTests, hpseudos, rfl⟩ := result_testsWith_eq_ok_iff.1 h
  intro hnil
  obtain ⟨hown, rfl⟩ := List.append_eq_nil_iff.1 hnil
  have hnone := List.forall₂_nil_right_iff.1 hpseudos
  rw [ownTests, List.append_eq_nil_iff, Option.toList_eq_nil_iff, Option.map_eq_none_iff,
    List.map_eq_nil_iff] at hown
  simp [isUniversal, hown, hnone] at huniversal

section Members

variable {text : String} {compounds : List Compound}
  (parsed : (SelectorList.parse text).result = .ok (compounds.map ([·])))
include parsed

theorem exists_tests_of_query {union : Union} (h : (query text).result = .ok union) :
    ∃ tests, List.Forall₂ (fun compound tests => compound.tests.result = .ok tests)
      compounds tests := by
  refine exists_forall₂ fun compound hcompound => ?_
  exact exists_tests_of_mem h parsed (List.mem_map_of_mem hcompound) List.mem_cons_self

theorem SelectorList.compounds_ne_nil : compounds ≠ [] := by
  rintro rfl
  exact ne_nil_of_read parsed rfl

/-- The test of a negation is made of the tests of the members of its argument. -/
theorem Negation.exists_expr {tests : List (List Expr)}
    (htests : List.Forall₂ (fun compound tests => compound.tests.result = .ok tests)
      compounds tests)
    (hcombinator : ∀ compound ∈ compounds, compound.combinator = .descendant)
    (huniversal : ∀ compound ∈ compounds, compound.isUniversal = false)
    (hnests : SelectorList.NestsAtMost 31 text) :
    ∃ any, (expr limit text).result = .ok (.call .not [any]) ∧
      any.render = Operator.or.joinText
        (tests.map fun tests => Operator.and.joinText (tests.map Expr.render)) := by
  have hne : ∀ ts ∈ tests, ∃ e, Expr.joined? .and ts = some e := by
    intro ts hts
    obtain ⟨compound, hcompound, hok⟩ := exists_left_of_forall₂ htests hts
    exact Expr.exists_joined? (Compound.tests_ne_nil hok (huniversal compound hcompound)) _
  obtain ⟨alternatives, halternatives⟩ := exists_forall₂ hne
  have hsome : alternatives ≠ [] := by
    rintro rfl
    rw [List.forall₂_nil_right_iff.1 halternatives] at htests
    exact SelectorList.compounds_ne_nil parsed (List.forall₂_nil_right_iff.1 htests)
  obtain ⟨any, hany⟩ := Expr.exists_joined? hsome .or
  refine ⟨any, ?_, ?_⟩
  · -- One level less is enough for what the members negate.
    refine result_expr_eq_ok_iff.2 ⟨compounds, alternatives, any, parsed, ?_, hany, rfl⟩
    refine forall₂_imp_of_mem (forall₂_comp htests halternatives) ?_
    rintro compound hcompound e ⟨ts, hok, hjoined⟩
    refine ⟨hcombinator compound hcompound, ts, Compound.result_testsWith_mono hok ?_, hjoined⟩
    intro argument hargument e he
    have hnegates := SelectorList.negates_of_mem parsed hcompound hargument
    exact result_expr_of_nestsAtMost he (hnests argument hnegates) (by decide)
  · have htexts : alternatives.map Expr.render =
        tests.map fun tests => Operator.and.joinText (tests.map Expr.render) := by
      rw [← List.forall₂_eq_eq_eq, List.forall₂_map_left_iff, List.forall₂_map_right_iff]
      exact (halternatives.imp fun _ _ hjoined => (Expr.render_of_joined? hjoined)).flip
    rw [Expr.render_of_joined? hany, htexts]

end Members

/-- A negation that is not cut is read as one compound. -/
theorem Negation.parse_text {argument : String} (hbalanced : Balanced argument.toList)
    (hundivided : Nesting.Undivided { depth := 1 } argument.toList) :
    (SelectorList.parse (text argument)).result =
      .ok [[{ pseudos := [⟨"not", some argument⟩] }]] := by
  refine SelectorList.result_read_eq_ok_iff.2 ?_
  rw [SelectorList.split, SelectorList.splitFrom_of_undivided (undivided_text_iff.2 hundivided)]
  exact .cons (Selector.parse_negation_iff.2 hbalanced) .nil

theorem Negation.query_text {argument : String} {e : Expr}
    (h : (expr limit argument).result = .ok e) (hbalanced : Balanced argument.toList)
    (hundivided : Nesting.Undivided { depth := 1 } argument.toList) :
    (query (text argument)).result = .ok (union e) := by
  let compound : Compound := { pseudos := [⟨"not", some argument⟩] }
  have hparse : (SelectorList.parse (text argument)).result = .ok [[compound]] :=
    parse_text hbalanced hundivided
  have htests : compound.tests.result = .ok [e] :=
    Compound.result_testsWith_eq_ok_iff.2 ⟨[e], .cons (.negation h) .nil, rfl⟩
  have hstep : compound.step.result = .ok ⟨.descendant, [e]⟩ :=
    Compound.result_step_eq_ok_iff.2 ⟨rfl, htests⟩
  have hpath : (Selector.path [compound]).result = .ok [⟨.child, []⟩, ⟨.descendant, [e]⟩] :=
    Selector.result_path_eq_ok_iff.2 ⟨[⟨.descendant, [e]⟩], .cons hstep .nil, rfl⟩
  exact result_query_eq_ok_iff.2 ⟨[[compound]], hparse, .cons hpath .nil⟩

/-- If the query of a negation has one path, then the text of the negation was not cut. -/
theorem Negation.undivided_of_xpath {argument : String} {any : Expr}
    (hany : (Expr.call .not [any]).Fits 0)
    (h : (xpath (text argument)).result = .ok (union (.call .not [any])).render) :
    Nesting.Undivided { depth := 1 } argument.toList := by
  obtain ⟨paths, hquery, hrender⟩ := result_xpath_eq_ok_iff.1 h
  have hfits : (union (.call .not [any])).Fits := by
    refine ⟨List.cons_ne_nil _ _, ?_, ?_⟩
    · simp [union]
    · simpa [union] using hany
  have hpaths : paths = union (.call .not [any]) := by
    have hparse := Union.parse?_render (fits_of_query hquery)
    rw [hrender, Union.parse?_render hfits] at hparse
    exact (Option.some.inj hparse).symm
  obtain ⟨selectors, parsed, hforall⟩ := result_query_eq_ok_iff.1 hquery
  have hlength := (SelectorList.result_read_eq_ok_iff.1 parsed).length_eq.trans hforall.length_eq
  rw [hpaths] at hlength
  exact undivided_text_iff.1 (SelectorList.undivided_of_length_splitFrom hlength)

/-- Negating a list negates the tests of its members exactly if the parentheses of the list are
balanced, quoted or not, and no comma is outside of all brackets and quotes one parenthesis
deeper. -/
theorem xpath_negation_iff {text : String} {compounds : List Compound}
    (hxpath : ∃ x, (xpath text).result = .ok x)
    (parsed : (SelectorList.parse text).result = .ok (compounds.map ([·])))
    (hcombinator : ∀ compound ∈ compounds, compound.combinator = .descendant)
    (huniversal : ∀ compound ∈ compounds, compound.isUniversal = false)
    (hnests : SelectorList.NestsAtMost 31 text) :
    ∃ tests, List.Forall₂ (fun compound tests => compound.tests.result = .ok tests)
        compounds tests ∧
      ((Selector.parse (":not(" ++ text ++ ")")).result =
            .ok [{ pseudos := [⟨"not", some text⟩] }] ∧
          (xpath (":not(" ++ text ++ ")")).result =
            .ok ("/*/descendant::*[not(" ++ Operator.or.joinText (tests.map fun tests =>
              Operator.and.joinText (tests.map Expr.render)) ++ ")]") ↔
        Balanced text.toList ∧ Nesting.Undivided { depth := 1 } text.toList) := by
  obtain ⟨x, hx⟩ := hxpath
  obtain ⟨union, hquery, _⟩ := result_xpath_eq_ok_iff.1 hx
  obtain ⟨tests, htests⟩ := exists_tests_of_query parsed hquery
  obtain ⟨any, hexpr, hrender⟩ :=
    Negation.exists_expr parsed htests hcombinator huniversal hnests
  refine ⟨tests, htests, ?_⟩
  rw [← hrender, ← Negation.render_union]
  constructor
  · rintro ⟨hparse, hxpath⟩
    exact ⟨Selector.parse_negation_iff.1 hparse,
      Negation.undivided_of_xpath (Negation.fits_expr hexpr) hxpath⟩
  · rintro ⟨hbalanced, hundivided⟩
    refine ⟨Selector.parse_negation_iff.2 hbalanced, result_xpath_eq_ok_iff.2 ⟨_, ?_, rfl⟩⟩
    exact Negation.query_text hexpr hbalanced hundivided

theorem xpath_negation_iff_list :
    let text := "a,[b='(),']"
    let compounds : List Compound :=
      [{ element := some "a" }, { attributes := [⟨"b", .equals, some "(),"⟩] }]
    (∃ x, (xpath text).result = .ok x) ∧
      (SelectorList.parse text).result = .ok (compounds.map ([·])) ∧
      (∀ compound ∈ compounds, compound.combinator = .descendant) ∧
      (∀ compound ∈ compounds, compound.isUniversal = false) ∧
      SelectorList.NestsAtMost 31 text ∧
      ∃ tests, List.Forall₂ (fun compound tests => compound.tests.result = .ok tests)
          compounds tests ∧
        ((Selector.parse (":not(" ++ text ++ ")")).result =
              .ok [{ pseudos := [⟨"not", some text⟩] }] ∧
            (xpath (":not(" ++ text ++ ")")).result =
              .ok ("/*/descendant::*[not(" ++ Operator.or.joinText (tests.map fun tests =>
                Operator.and.joinText (tests.map Expr.render)) ++ ")]") ↔
          Balanced text.toList ∧ Nesting.Undivided { depth := 1 } text.toList) := by
  intro text compounds
  have hx : (xpath text).result =
      .ok "/*/descendant::*[name() = \"a\"]|/*/descendant::*[@b=\"(),\"]" := by cbv
  have parsed : (SelectorList.parse text).result = .ok (compounds.map ([·])) := by cbv
  have hcombinator : ∀ compound ∈ compounds, compound.combinator = .descendant := by
    simp [compounds]
  have huniversal : ∀ compound ∈ compounds, compound.isUniversal = false := by
    simp [compounds, Compound.isUniversal]
  have hnests : SelectorList.NestsAtMost 31 text :=
    SelectorList.nestsAtMost_of_pseudos_nil parsed (by simp [compounds]) 31
  exact ⟨⟨_, hx⟩, parsed, hcombinator, huniversal, hnests,
    xpath_negation_iff ⟨_, hx⟩ parsed hcombinator huniversal hnests⟩

/-- The parenthesis in a quoted value ends the argument of a negation. -/
theorem xpath_negation_quoted_parenthesis :
    let text := "[a=\")\"]"
    let compound : Compound := { attributes := [⟨"a", .equals, some ")"⟩] }
    (xpath text).result = .ok "/*/descendant::*[@a=\")\"]" ∧
      SelectorList.parse text = ⟨[], .ok [[compound]]⟩ ∧
      compound.combinator = .descendant ∧ compound.isUniversal = false ∧
      SelectorList.NestsAtMost 31 text ∧
      (Selector.parse (":not(" ++ text ++ ")")).result =
        .ok [{ pseudos := [⟨"not", some "[a=\""⟩] }, {}] ∧
      (xpath (":not(" ++ text ++ ")")).result = .error (.block .unclosedQuote 3) := by
  intro text compound
  have parsed : SelectorList.parse text = ⟨[], .ok [[compound]]⟩ := by cbv
  have hresult : (SelectorList.parse text).result = .ok [[compound]] := by rw [parsed]
  refine ⟨by cbv, parsed, rfl, rfl, ?_, by cbv, by cbv⟩
  exact SelectorList.nestsAtMost_of_pseudos_nil hresult (by simp [compound]) 31

end SelectorPath
