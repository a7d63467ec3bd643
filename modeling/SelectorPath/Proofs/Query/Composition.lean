import SelectorPath.Proofs.Query
import SelectorPath.Proofs.Selector.Combination
import SelectorPath.Proofs.SelectorList

/-! Queries put together from queries. The query of a list is the union of the queries of its parts.
All of a list is read before any of it is stated in XPath, so an error in reading one member goes
before an error in stating another, wherever the two stand. Two selectors with a combinator between
them make one path: that of the first, and from its end on the steps of the second. -/

namespace SelectorPath

open Text XPath

/-! ### Lists -/

theorem XPath.Union.render_append {first second : Union} (hfirst : first ≠ [])
    (hsecond : second ≠ []) :
    Union.render (first ++ second) = first.render ++ "|" ++ second.render := by
  rw [Union.render, List.map_append, String.intercalate_append_of_ne_nil]
  · rfl
  · simpa using hfirst
  · simpa using hsecond

theorem SelectorList.union_append (selectors others : SelectorList) :
    union (selectors ++ others) = (do
      let first ← selectors.union
      let second ← others.union
      return first ++ second) :=
  List.mapM_append

theorem SelectorList.ne_nil_of_union {selectors : SelectorList} {paths : Union}
    (hselectors : selectors ≠ []) (h : selectors.union.result = .ok paths) : paths ≠ [] := by
  rintro rfl
  exact hselectors (List.forall₂_nil_right_iff.1 (Outcome.result_mapM_eq_ok.1 h))

theorem result_xpath (text : String) :
    (xpath text).result = (do
      let selectors ← (SelectorList.parse text).result
      let union ← selectors.union.result
      return union.render) := by
  rw [xpath, Outcome.result_map, query_eq_bind, Outcome.result_bind, map_eq_pure_bind, bind_assoc]

theorem result_xpath_of_parse {text : String} {selectors : SelectorList}
    (h : (SelectorList.parse text).result = .ok selectors) :
    (xpath text).result = Union.render <$> selectors.union.result := by
  rw [result_xpath, h, map_eq_pure_bind]
  rfl

theorem result_xpath_of_error {text : String} {error : SelectorError}
    (h : (SelectorList.parse text).result = .error error) :
    (xpath text).result = .error error := by
  rw [result_xpath, h]
  rfl

/-- The query of two lists that can be read is the union of their queries, or fails with the error
of the first. -/
theorem render_union_append {selectors others : SelectorList} (hselectors : selectors ≠ [])
    (hothers : others ≠ []) :
    Union.render <$> (SelectorList.union (selectors ++ others)).result = (do
      let first ← Union.render <$> selectors.union.result
      let second ← Union.render <$> others.union.result
      return first ++ "|" ++ second) := by
  rw [SelectorList.union_append]
  simp only [Outcome.result_bind, Outcome.result_pure]
  cases hfirst : selectors.union.result with
  | error error => rfl
  | ok first =>
    cases hsecond : others.union.result with
    | error error => rfl
    | ok second =>
      have hrender := Union.render_append (SelectorList.ne_nil_of_union hselectors hfirst)
        (SelectorList.ne_nil_of_union hothers hsecond)
      show Except.ok (Union.render (first ++ second)) = _
      rw [hrender]
      rfl

/-- Two lists with a comma between them. Reading fails with the error of the first, or else with
that of the second; then stating them fails in the same order; and if nothing fails, the query is
the union of both. In all, it is the first member that cannot be read which decides, and an error in
stating a member is met only if there is none. -/
theorem parse_xpath_append_comma {first second : String} (h : Nesting.Closed first.toList) :
    (SelectorList.parse (first ++ "," ++ second)).result = (do
      let selectors ← (SelectorList.parse first).result
      let others ← (SelectorList.parse second).result
      return selectors ++ others) ∧
    (xpath (first ++ "," ++ second)).result = (do
      let _ ← (SelectorList.parse first).result
      let _ ← (SelectorList.parse second).result
      let x ← (xpath first).result
      let y ← (xpath second).result
      return x ++ "|" ++ y) ∧
    ∀ before member after, SelectorList.split (first ++ "," ++ second).toList =
        before ++ member :: after →
      (∀ m ∈ before, ∃ selector, (Selector.read m).result = .ok selector) →
      ∀ error, (Selector.read member).result = .error error →
        (xpath (first ++ "," ++ second)).result = .error error := by
  have hparse := SelectorList.result_parse_append_comma h second
  refine ⟨hparse, ?_, ?_⟩
  · rw [result_xpath, hparse]
    cases hfirst : (SelectorList.parse first).result with
    | error error => rfl
    | ok selectors =>
      cases hsecond : (SelectorList.parse second).result with
      | error error => rfl
      | ok others =>
        have hrender := render_union_append (SelectorList.ne_nil_of_read hfirst)
          (SelectorList.ne_nil_of_read hsecond)
        rw [← result_xpath_of_parse hfirst, ← result_xpath_of_parse hsecond] at hrender
        rw [map_eq_pure_bind] at hrender
        exact hrender
  · intro before member after hsplit hbefore error herror
    have hread : (SelectorList.parse (first ++ "," ++ second)).result = .error error :=
      SelectorList.result_read_eq_error.2 ⟨before, member, after, hsplit, hbefore, herror⟩
    rw [result_xpath, hread]
    rfl

/-- An unknown pseudo-class comes first in the text, and a malformed block at its end. -/
theorem parse_xpath_append_comma_block :
    let first := "a:b(\",\")"
    let second := "c,["
    Nesting.Closed first.toList ∧
      (xpath first).result = .error (.unknownPseudo "b") ∧
      (Selector.parse "[").result = .error (.block .missingName 1) ∧
      (xpath (first ++ "," ++ second)).result = .error (.block .missingName 1) := by
  intro first second
  have hclosed : Nesting.Closed first.toList := by decide
  have herror : (Selector.parse "[").result = .error (.block .missingName 1) := by cbv
  refine ⟨hclosed, by cbv, herror, ?_⟩
  refine (parse_xpath_append_comma hclosed).2.2 [first.toList, ['c']] ['['] [] (by decide) ?_ _
    herror
  have hfirst : (Selector.read first.toList).result =
      .ok [{ element := some "a", pseudos := [⟨"b", some "\",\""⟩] }] := by cbv
  have hsecond : (Selector.read ['c']).result = .ok [{ element := some "c" }] := by cbv
  simp [hfirst, hsecond]

/-! ### Combinators -/

namespace Selector

/-- The text of the path of a selector. -/
def pathText (selector : Selector) : Outcome String :=
  Path.render <$> selector.path

/-- All paths start at the document element. -/
theorem result_pathText (selector : Selector) :
    selector.pathText.result =
      (fun steps => "/*" ++ Path.render steps) <$> (selector.mapM Compound.step).result := by
  rw [pathText, path_eq_map, Outcome.result_map, Outcome.result_map]
  cases (selector.mapM Compound.step).result with
  | error error => rfl
  | ok steps =>
    have hstart : Path.render (⟨.child, []⟩ :: steps) = "/*" ++ Path.render steps := by
      rw [← String.toList_inj]
      simp [Path.render, Step.render, Axis.text]
    exact congrArg Except.ok hstart

theorem prefix_of_pathText {selector : Selector} {x : String}
    (h : selector.pathText.result = .ok x) : "/*".toList <+: x.toList := by
  rw [result_pathText] at h
  cases hsteps : (selector.mapM Compound.step).result with
  | error error =>
    rw [hsteps] at h
    cases h
  | ok steps =>
    rw [hsteps] at h
    cases h
    rw [String.toList_append]
    exact List.prefix_append _ _

/-- The path of two selectors in a row goes on with the steps of the second. -/
theorem result_pathText_append (selector others : Selector) :
    (pathText (selector ++ others)).result = (do
      let x ← selector.pathText.result
      let y ← others.pathText.result
      return x ++ String.ofList (y.toList.drop 2)) := by
  simp only [result_pathText, List.mapM_append, Outcome.result_bind, Outcome.result_pure]
  cases (selector.mapM Compound.step).result with
  | error error => rfl
  | ok steps =>
    cases (others.mapM Compound.step).result with
    | error error => rfl
    | ok moreSteps =>
      show Except.ok ("/*" ++ Path.render (steps ++ moreSteps)) =
        .ok ("/*" ++ Path.render steps ++
          String.ofList (("/*" ++ Path.render moreSteps).toList.drop 2))
      have hdrop : String.ofList (("/*" ++ Path.render moreSteps).toList.drop 2) =
          Path.render moreSteps := by
        rw [← String.toList_inj]
        simp
      have hrender : Path.render (steps ++ moreSteps) =
          Path.render steps ++ Path.render moreSteps := by
        simp [Path.render]
      rw [hdrop, hrender, String.append_assoc]

end Selector

/-- Two selectors with a combinator between them, the first of which ends in a simple selector with
no argument left open, and the second of which starts with one. The compounds are those of the
first, and then those of the second, joined by the combinator; so the path is that of the first, and
then that of the second without its start. A fault in the second is met at the place to which it has
moved. -/
theorem parse_append_combinator {first gap second : String} {selector : Selector}
    {combinator : Combinator} (hfirst : (Selector.parse first).result = .ok selector)
    (hend : Selector.EndsInSimple first.toList)
    (hclosed : ∀ name offset, .unclosedArgument name offset ∉ (Selector.parse first).oddities)
    (hgap : combinator.Spells gap.toList)
    (hstart : second.toList.head?.any SimpleSelector.starts = true) :
    (∀ others, (Selector.parse second).result = .ok others →
      (Selector.parse (first ++ gap ++ second)).result =
        .ok (selector ++ others.joinedBy combinator) ∧
      (∀ y, (others.joinedBy combinator).pathText.result = .ok y → "/*".toList <+: y.toList) ∧
      (Selector.pathText (selector ++ others.joinedBy combinator)).result = (do
        let x ← selector.pathText.result
        let y ← (others.joinedBy combinator).pathText.result
        return x ++ String.ofList (y.toList.drop 2))) ∧
    ∀ error, (Selector.parse second).result = .error error →
      ∃ fault offset, error = .block fault offset ∧
        (Selector.parse (first ++ gap ++ second)).result =
          .error (.block fault (offset +
            (byteSize (first.toList.dropWhile isWhite) + byteSize gap.toList))) := by
  obtain ⟨spelling, hspelled, htext, hne, rfl⟩ := hgap.exists_gap
  rw [← htext] at hne
  have hwhole : (first ++ gap ++ second).toList =
      first.toList ++ (spelling.text ++ second.toList) := by
    rw [htext]
    simp
  constructor
  · intro others hothers
    refine ⟨?_, fun y => Selector.prefix_of_pathText, Selector.result_pathText_append _ _⟩
    rw [Selector.parse, hwhole]
    exact Selector.result_read_combined_of_ok hfirst hend hclosed hspelled hne hstart hothers
  · intro error herror
    rw [Selector.parse, hwhole, ← htext]
    exact Selector.result_read_combined_of_error hfirst hend hclosed hspelled hne hstart herror

/-- The name of the attribute that is missing stands after characters of two and three bytes. -/
theorem parse_append_combinator_child :
    let first := " a[b='ä']"
    let gap := " >\n"
    let selector : Selector := [{ element := some "a", attributes := [⟨"b", .equals, some "ä"⟩] }]
    (Selector.parse first).result = .ok selector ∧ Selector.EndsInSimple first.toList ∧
      Combinator.child.Spells gap.toList ∧
      (Selector.parse "c d").result = .ok [{ element := some "c" }, { element := some "d" }] ∧
      (Selector.parse (first ++ gap ++ "c d")).result =
        .ok (selector ++ [{ combinator := .child, element := some "c" },
          { element := some "d" }]) ∧
      (Selector.parse ".€[").result = .error (.block .missingName 5) ∧
      (Selector.parse (first ++ gap ++ ".€[")).result = .error (.block .missingName 17) := by
  intro first gap selector
  have hfirst : (Selector.parse first).result = .ok selector := by cbv
  have hend : Selector.EndsInSimple first.toList := by
    refine ⟨.block ⟨[], ['b'], ⟨[], none⟩, .equals, [], .quoted .single ['ä'], []⟩, by cbv, ?_⟩
    exact ⟨[' ', 'a'], by decide⟩
  have hclosed : ∀ name offset,
      .unclosedArgument name offset ∉ (Selector.parse first).oddities := by
    have hnone : (Selector.parse first).oddities = [] := by cbv
    simp [hnone]
  have hgap : Combinator.child.Spells gap.toList := ⟨by simp [gap, isBlank], by decide⟩
  have hothers : (Selector.parse "c d").result =
      .ok [{ element := some "c" }, { element := some "d" }] := by cbv
  have herror : (Selector.parse ".€[").result = .error (.block .missingName 5) := by cbv
  refine ⟨hfirst, hend, hgap, hothers, ?_, herror, ?_⟩
  · exact ((parse_append_combinator hfirst hend hclosed hgap (by decide)).1 _ hothers).1
  · obtain ⟨fault, offset, heq, hparse⟩ :=
      (parse_append_combinator hfirst hend hclosed hgap (by decide)).2 _ herror
    have hsize : byteSize (first.toList.dropWhile isWhite) + byteSize gap.toList = 12 := by cbv
    cases heq
    rw [hsize] at hparse
    exact hparse

end SelectorPath
