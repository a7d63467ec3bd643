import SelectorPath.Proofs.XPath.Document
import SelectorPath.Proofs.XPath.Tree
import SelectorPath.XPath.Evaluation

/-! Expressions that test a node by itself. The value of such an expression depends on nothing but
the node and is not a number, so that as a predicate it does not count positions; a step whose
predicates are all of this kind selects the nodes of its axis that pass all of them. -/

namespace SelectorPath.XPath

theorem Tree.eq_text_of_text? {tree : Tree} {value : String} (h : tree.text? = some value) :
    tree = .text value := by
  cases tree with
  | text value => exact congrArg text (Option.some.inj h)
  | number | attr | call | negate | binary => cases h

theorem Tree.eq_concat_of_ofCall {function : Function} {arguments : List Tree} {value : String}
    (h : ofCall function arguments = .text value) :
    ∃ texts, function = .concat ∧ arguments.mapM text? = some texts ∧ 2 ≤ texts.length ∧
      String.join texts = value := by
  unfold ofCall at h
  split at h
  · rename_i first second rest htexts
    cases h
    exact ⟨_, rfl, htexts, by simp, rfl⟩
  · cases h

namespace Expr

/-- Whether a node that stands alone passes. -/
def Holds (e : Expr) (node : Node) : Prop :=
  e.holds ⟨node, 1, 1⟩ = true

/-- Wherever it is evaluated, the expression says `P` of the node. -/
def Tests (e : Expr) (P : Node → Prop) : Prop :=
  ∀ context, ∃ value, e.eval context = some value ∧ value.number? = none ∧
    (value.truth = true ↔ P context.node)

section Tests

variable {e f : Expr} {P Q : Node → Prop}

theorem Tests.holds_iff (h : e.Tests P) (context : Context) :
    e.holds context = true ↔ P context.node := by
  obtain ⟨value, heval, hnumber, htruth⟩ := h context
  rw [← htruth, holds, heval]
  cases value with
  | number value => cases hnumber
  | boolean | string | attr => rfl

theorem Tests.congr (h : e.Tests P) (hiff : ∀ node, P node ↔ Q node) : e.Tests Q := by
  intro context
  obtain ⟨value, heval, hnumber, htruth⟩ := h context
  exact ⟨value, heval, hnumber, htruth.trans (hiff context.node)⟩

/-- A test says of a node what it says of the node alone. -/
theorem Tests.self (h : e.Tests P) : e.Tests e.Holds :=
  h.congr fun node => (h.holds_iff ⟨node, 1, 1⟩).symm

theorem Tests.group (h : e.Tests P) : (group e).Tests P := by
  intro context
  rw [eval]
  exact h context

theorem Tests.and (he : e.Tests P) (hf : f.Tests Q) :
    (binary .and e f).Tests fun node => P node ∧ Q node := by
  intro context
  obtain ⟨left, hleft, _, htruth⟩ := he context
  obtain ⟨right, hright, _, htruth'⟩ := hf context
  refine ⟨.boolean (left.truth && right.truth), ?_, rfl, ?_⟩
  · rw [eval, hleft, hright]
    rfl
  · rw [Value.truth, Bool.and_eq_true, htruth, htruth']

theorem Tests.or (he : e.Tests P) (hf : f.Tests Q) :
    (binary .or e f).Tests fun node => P node ∨ Q node := by
  intro context
  obtain ⟨left, hleft, _, htruth⟩ := he context
  obtain ⟨right, hright, _, htruth'⟩ := hf context
  refine ⟨.boolean (left.truth || right.truth), ?_, rfl, ?_⟩
  · rw [eval, hleft, hright]
    rfl
  · rw [Value.truth, Bool.or_eq_true, htruth, htruth']

theorem Tests.not (h : e.Tests P) : (call .not [e]).Tests fun node => ¬P node := by
  intro context
  obtain ⟨value, heval, _, htruth⟩ := h context
  refine ⟨.boolean !value.truth, ?_, rfl, ?_⟩
  · rw [eval, evalAll, heval]
    rfl
  · rw [Value.truth, Bool.not_eq_true', ← Bool.not_eq_true, htruth]

end Tests

/-! ### Joining -/

theorem tests_foldl_and {e : Expr} {P : Node → Prop} {rest : List Expr} (h : e.Tests P)
    (hrest : ∀ e ∈ rest, e.Tests e.Holds) :
    (rest.foldl (fun left right => binary .and left (group right)) e).Tests
      fun node => P node ∧ ∀ e ∈ rest, e.Holds node := by
  induction rest generalizing e P with
  | nil => exact h.congr (by simp)
  | cons next rest ih =>
    obtain ⟨hnext, hrest⟩ := List.forall_mem_cons.1 hrest
    exact (ih (h.and hnext.group) hrest).congr (by simp [and_assoc])

theorem tests_foldl_or {e : Expr} {P : Node → Prop} {rest : List Expr} (h : e.Tests P)
    (hrest : ∀ e ∈ rest, e.Tests e.Holds) :
    (rest.foldl (fun left right => binary .or left (group right)) e).Tests
      fun node => P node ∨ ∃ e ∈ rest, e.Holds node := by
  induction rest generalizing e P with
  | nil => exact h.congr (by simp)
  | cons next rest ih =>
    obtain ⟨hnext, hrest⟩ := List.forall_mem_cons.1 hrest
    exact (ih (h.or hnext.group) hrest).congr (by simp [or_assoc])

theorem tests_of_joined?_and {es : List Expr} {e : Expr} (h : joined? .and es = some e)
    (hes : ∀ e ∈ es, e.Tests e.Holds) : e.Tests fun node => ∀ e ∈ es, e.Holds node := by
  match es, h with
  | [_], h =>
    cases h
    exact (hes _ List.mem_cons_self).congr (by simp)
  | first :: second :: rest, h =>
    cases h
    obtain ⟨hfirst, hrest⟩ := List.forall_mem_cons.1 hes
    exact (tests_foldl_and hfirst.group hrest).congr (by simp)

theorem tests_of_joined?_or {es : List Expr} {e : Expr} (h : joined? .or es = some e)
    (hes : ∀ e ∈ es, e.Tests e.Holds) : e.Tests fun node => ∃ e ∈ es, e.Holds node := by
  match es, h with
  | [_], h =>
    cases h
    exact (hes _ List.mem_cons_self).congr (by simp)
  | first :: second :: rest, h =>
    cases h
    obtain ⟨hfirst, hrest⟩ := List.forall_mem_cons.1 hes
    exact (tests_foldl_or hfirst.group hrest).congr (by simp)

/-! ### Texts -/

theorem apply_concat {context : Context} {values : List Value} (h : 2 ≤ values.length) :
    Function.concat.apply context values =
      some (.string (String.join (values.map Value.text))) := by
  match values with
  | first :: second :: rest => rfl

mutual

/-- What says a text has it as its value. -/
theorem eval_of_tree_eq_text {context : Context} {value : String} :
    {e : Expr} → e.tree = .text value → e.eval context = some (.string value)
  | literal quote text, h => by
    rw [tree] at h
    cases h
    rw [eval]
  | group inner, h => by
    rw [tree] at h
    rw [eval]
    exact eval_of_tree_eq_text h
  | call function arguments, h => by
    rw [tree] at h
    obtain ⟨texts, rfl, htexts, hlength, rfl⟩ := Tree.eq_concat_of_ofCall h
    have hvalues : (texts.map Value.string).map Value.text = texts := by
      rw [List.map_map]
      exact List.map_id texts
    rw [eval, evalAll_of_mapM_text? htexts]
    change Function.concat.apply context (texts.map .string) = _
    rw [apply_concat (by rwa [List.length_map]), hvalues]
  | number value, h | attr name, h | negate operand, h | binary operator left right, h => by
    simp [tree] at h

theorem evalAll_of_mapM_text? {context : Context} :
    {es : List Expr} → {texts : List String} → (trees es).mapM Tree.text? = some texts →
      evalAll context es = some (texts.map .string)
  | [], texts, h => by
    cases h
    rw [evalAll]
    rfl
  | e :: rest, texts, h => by
    rw [trees, List.mapM_cons] at h
    obtain ⟨text, htext, h⟩ := Option.bind_eq_some_iff.1 h
    obtain ⟨texts, htexts, h⟩ := Option.bind_eq_some_iff.1 h
    cases h
    have he : e.tree = .text text := Tree.eq_text_of_text? htext
    rw [evalAll, eval_of_tree_eq_text he, evalAll_of_mapM_text? htexts]
    rfl

end

@[simp] theorem eval_ofString (context : Context) (value : String) :
    (ofString value).eval context = some (.string value) :=
  eval_of_tree_eq_text (tree_ofString value)

end Expr

/-! ### Steps -/

theorem Expr.mem_filter_iff {e : Expr} (h : e.Tests e.Holds) {nodes : List Node} {node : Node} :
    node ∈ Expr.filter nodes e ↔ node ∈ nodes ∧ e.Holds node := by
  simp only [Expr.filter, List.mem_map, List.mem_filter, h.holds_iff]
  constructor
  · rintro ⟨⟨_, position⟩, ⟨hmem, hholds⟩, rfl⟩
    exact ⟨List.fst_mem_of_mem_zipIdx hmem, hholds⟩
  · rintro ⟨hmem, hholds⟩
    rw [← List.zipIdx_map_fst 1 nodes] at hmem
    obtain ⟨numbered, hnumbered, rfl⟩ := List.mem_map.1 hmem
    exact ⟨numbered, ⟨hnumbered, hholds⟩, rfl⟩

theorem Step.mem_select_iff {step : Step} (h : ∀ e ∈ step.predicates, e.Tests e.Holds)
    {start node : Node} :
    node ∈ step.select start ↔
      node ∈ step.axis.nodes start ∧ ∀ e ∈ step.predicates, e.Holds node := by
  obtain ⟨axis, predicates⟩ := step
  rw [select]
  generalize axis.nodes start = nodes
  induction predicates generalizing nodes with
  | nil => simp
  | cons e rest ih =>
    obtain ⟨he, hrest⟩ := List.forall_mem_cons.1 h
    simp only [List.foldl_cons, ih hrest, Expr.mem_filter_iff he, List.forall_mem_cons, and_assoc]

end SelectorPath.XPath
