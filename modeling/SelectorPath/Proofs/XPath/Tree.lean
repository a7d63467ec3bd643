import SelectorPath.Proofs.XPath.Lexemes

/-! What an expression says, apart from how it is written: there are no parentheses, and a text is
one text however it is quoted. The expressions that are built from a text, from a number or by
joining others say just that, and can be written. -/

namespace SelectorPath.XPath

open Text

inductive Tree where
  | text (value : String)
  | number (value : Nat)
  | attr (name : String)
  | call (function : Function) (arguments : List Tree)
  | negate (operand : Tree)
  | binary (operator : Operator) (left right : Tree)
  deriving Repr

namespace Tree

def text? : Tree → Option String
  | text value => some value
  | _ => none

/-- A call; but texts put one after the other are one text. -/
def ofCall (function : Function) (arguments : List Tree) : Tree :=
  match function, arguments.mapM text? with
  | .concat, some (first :: second :: rest) => text (String.join (first :: second :: rest))
  | _, _ => call function arguments

def ofInt : Int → Tree
  | .ofNat n => number n
  | .negSucc n => negate (number (n + 1))

/-- The trees joined by an operator from left to right. -/
def joined? (operator : Operator) : List Tree → Option Tree
  | [] => none
  | tree :: rest => some (rest.foldl (binary operator) tree)

end Tree

namespace Expr

mutual

/-- What an expression says. -/
def tree : Expr → Tree
  | literal _ text => .text text
  | number value => .number value
  | attr name => .attr name
  | call function arguments => .ofCall function (trees arguments)
  | negate operand => .negate operand.tree
  | binary operator left right => .binary operator left.tree right.tree
  | group inner => inner.tree

def trees : List Expr → List Tree
  | [] => []
  | e :: rest => e.tree :: trees rest

end

@[simp] theorem trees_eq_map (es : List Expr) : trees es = es.map tree := by
  induction es with
  | nil => rfl
  | cons e es ih => rw [trees, ih, List.map_cons]

@[simp] theorem tree_equals (left right : Expr) :
    (equals left right).tree = .binary .equal left.tree right.tree := by
  rw [equals, tree]

/-! ### Numbers and texts -/

@[simp] theorem tree_ofInt (n : Int) : (ofInt n).tree = .ofInt n := by
  cases n <;> simp [ofInt, tree, Tree.ofInt]

theorem fits_ofInt (level : Nat) (n : Int) : Fits level (ofInt n) := by
  cases n with
  | ofNat n => exact .number
  | negSucc n => exact .negate .number

end Expr

/-! ### Pieces of a text -/

theorem map_intersperse {α β : Type} (f : α → β) (mark : α) (xs : List α) :
    (xs.intersperse mark).map f = (xs.map f).intersperse (f mark) := by
  induction xs with
  | nil => rfl
  | cons x xs ih => cases xs <;> simp_all

theorem eq_or_mem_of_mem_intersperse {α : Type} {mark x : α} {xs : List α}
    (h : x ∈ xs.intersperse mark) : x = mark ∨ x ∈ xs := by
  fun_induction List.intersperse mark xs <;> grind

theorem not_mem_of_mem_splitOn {mark : Char} {cs piece : List Char} (h : piece ∈ splitOn mark cs) :
    mark ∉ piece := by
  fun_induction splitOn mark cs generalizing piece with
  | case1 => simp_all
  | case2 cs ih => grind
  | case3 c cs hc ih =>
    obtain ⟨first, rest, hpieces⟩ := List.exists_cons_of_ne_nil (splitOn_ne_nil mark cs)
    rw [hpieces, List.modifyHead_cons] at h
    grind

theorem one_lt_length_splitOn {mark : Char} {cs : List Char} (h : mark ∈ cs) :
    1 < (splitOn mark cs).length := by
  fun_induction splitOn mark cs with
  | case1 => cases h
  | case2 cs ih =>
    have hpieces := List.length_pos_iff.2 (splitOn_ne_nil mark cs)
    rw [List.length_cons]
    omega
  | case3 c cs hc ih =>
    rw [List.length_modifyHead]
    exact ih ((List.mem_cons.1 h).resolve_left (Ne.symm hc))

/-- Texts that are put one after the other are one text. -/
theorem Tree.ofCall_concat_texts {texts : List String} (h : 2 ≤ texts.length) :
    ofCall .concat (texts.map text) = .text (String.join texts) := by
  have hmapM : (texts.map text).mapM text? = some texts := by
    clear h
    induction texts with
    | nil => rfl
    | cons value rest ih => simp [List.map_cons, List.mapM_cons, ih, text?]
  match texts with
  | first :: second :: rest => simp only [ofCall, hmapM]

theorem join_intersperse_splitOn (mark : Char) (value : String) :
    String.join (((splitOn mark value.toList).map String.ofList).intersperse
      (String.ofList [mark])) = value := by
  have hpieces : String.toList ∘ String.ofList = id := by
    funext cs
    exact String.toList_ofList
  rw [← String.toList_inj, String.toList_join, List.flatMap_def, map_intersperse, List.map_map,
    hpieces, List.map_id, String.toList_ofList]
  exact intercalate_splitOn mark value.toList

namespace Expr

@[simp] theorem tree_ofString (value : String) : (ofString value).tree = .text value := by
  unfold ofString
  split
  · rw [tree]
  · rename_i hdouble
    split
    · rw [tree]
    · have hlength := one_lt_length_splitOn (Decidable.not_not.1 hdouble)
      have hpieces : Tree.ofCall .concat
          ((((splitOn '"' value.toList).map String.ofList).intersperse "\"").map .text) =
            .text value := by
        rw [Tree.ofCall_concat_texts (by simp; omega)]
        exact congrArg Tree.text (join_intersperse_splitOn '"' value)
      rw [map_intersperse, List.map_map] at hpieces
      rw [tree, trees_eq_map, map_intersperse, List.map_map]
      exact hpieces

/-- The expression for a text is a literal or puts literals together, and no literal holds its own
mark. -/
theorem ofString_cases (value : String) :
    (∃ quote, quote.char ∉ value.toList ∧ ofString value = literal quote value) ∨
    ∃ pieces, 2 ≤ pieces.length ∧
      (∀ piece ∈ pieces, ∃ quote text, quote.char ∉ text.toList ∧ piece = literal quote text) ∧
      ofString value = call .concat pieces := by
  unfold ofString
  split
  · next hdouble => exact .inl ⟨.double, hdouble, rfl⟩
  · next hdouble =>
    split
    · next hsingle => exact .inl ⟨.single, hsingle, rfl⟩
    · have hlength := one_lt_length_splitOn (Decidable.not_not.1 hdouble)
      refine .inr ⟨_, by simp; omega, fun piece hpiece => ?_, rfl⟩
      rcases eq_or_mem_of_mem_intersperse hpiece with rfl | hmem
      · exact ⟨.single, "\"", by decide, rfl⟩
      · obtain ⟨text, htext, rfl⟩ := List.mem_map.1 hmem
        refine ⟨.double, String.ofList text, ?_, rfl⟩
        rw [String.toList_ofList]
        exact not_mem_of_mem_splitOn htext

theorem fits_ofString (level : Nat) (value : String) : Fits level (ofString value) := by
  rcases ofString_cases value with ⟨quote, free, heq⟩ | ⟨pieces, _, hpieces, heq⟩
  · rw [heq]
    exact .literal free
  · rw [heq]
    refine .call fun argument hargument => ?_
    obtain ⟨quote, text, free, rfl⟩ := hpieces argument hargument
    exact .literal free

/-! ### Joining -/

theorem Fits.mono {level level' : Nat} {e : Expr} (h : Fits level e) (hle : level' ≤ level) :
    Fits level' e := by
  cases h with
  | literal free => exact .literal free
  | number => exact .number
  | attr named => exact .attr named
  | call each => exact .call each
  | negate tight => exact .negate tight
  | binary le first second => exact .binary (hle.trans le) first second
  | group free => exact .group free

theorem tree_foldl_group (operator : Operator) (e : Expr) (rest : List Expr) :
    (rest.foldl (fun left right => binary operator left (group right)) e).tree =
      (rest.map tree).foldl (.binary operator) e.tree := by
  induction rest generalizing e with
  | nil => rfl
  | cons next rest ih => rw [List.foldl_cons, ih, List.map_cons, List.foldl_cons, tree, tree]

theorem joined?_map_tree {operator : Operator} {es : List Expr} {e : Expr}
    (h : joined? operator es = some e) : Tree.joined? operator (es.map tree) = some e.tree := by
  match es, h with
  | [_], h =>
    cases h
    rfl
  | first :: second :: rest, h =>
    cases h
    rw [tree_foldl_group, tree]
    rfl

theorem fits_foldl_group {operator : Operator} {e : Expr} {rest : List Expr}
    (he : Fits operator.level e) (hrest : ∀ e ∈ rest, Fits 0 e) :
    Fits operator.level (rest.foldl (fun left right => binary operator left (group right)) e) := by
  induction rest generalizing e with
  | nil => exact he
  | cons next rest ih =>
    obtain ⟨hnext, hrest⟩ := List.forall_mem_cons.1 hrest
    exact ih (.binary (Nat.le_refl _) he (.group hnext)) hrest

theorem fits_of_joined? {operator : Operator} {es : List Expr} {e : Expr}
    (h : joined? operator es = some e) (each : ∀ e ∈ es, Fits 0 e) : Fits 0 e := by
  match es, h with
  | [_], h =>
    cases h
    exact each _ List.mem_cons_self
  | first :: second :: rest, h =>
    cases h
    obtain ⟨hfirst, hrest⟩ := List.forall_mem_cons.1 each
    exact (fits_foldl_group (.group hfirst) hrest).mono (Nat.zero_le _)

end Expr

end SelectorPath.XPath
