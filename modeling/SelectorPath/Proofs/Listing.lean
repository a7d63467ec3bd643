import SelectorPath.Listing
import SelectorPath.SelectorList

/-! Listings of compounds can be read back. Nothing about a compound is lost in its JSON value, and
so two listings are the same only if the compounds are: in particular, what is not there differs
from an empty text. -/

namespace SelectorPath

theorem Json.option?_ofOption (value : Option String) :
    (Json.ofOption value).option? = some value := by
  cases value <;> rfl

theorem Json.ofOption_eq_null_iff (value : Option String) :
    Json.ofOption value = .null ↔ value = none := by
  cases value <;> simp [Json.ofOption]

/-- What can be read back item by item can be read back as a list. -/
theorem mapM_map_eq_some {α β : Type} {f : α → β} {g : β → Option α}
    (h : ∀ a, g (f a) = some a) (xs : List α) : (xs.map f).mapM g = some xs := by
  induction xs with
  | nil => rfl
  | cons x xs ih => simp [h, ih]

theorem Matching.ofName?_name (matching : Matching) : ofName? matching.name = some matching := by
  cases matching <;> decide

theorem AttributeTest.ofJson?_json (test : AttributeTest) : ofJson? test.json = some test := by
  simp [json, ofJson?, Matching.ofName?_name, Json.option?_ofOption]

theorem Pseudo.ofJson?_json (pseudo : Pseudo) : ofJson? pseudo.json = some pseudo := by
  simp [json, ofJson?, Json.option?_ofOption]

theorem Compound.ofJson?_json (compound : Compound) : ofJson? compound.json = some compound := by
  obtain ⟨combinator, element, attributes, pseudos⟩ := compound
  cases combinator <;>
    simp [json, ofJson?, Json.option?_ofOption, mapM_map_eq_some AttributeTest.ofJson?_json,
      mapM_map_eq_some Pseudo.ofJson?_json]

theorem Selector.ofJson?_json (selector : Selector) : ofJson? selector.json = some selector :=
  mapM_map_eq_some Compound.ofJson?_json selector

/-- Reads the members of a selector list from their listing. -/
def SelectorList.ofJson? : Json → Option SelectorList
  | .array members => members.mapM Selector.ofJson?
  | _ => none

theorem SelectorList.ofJson?_array (selectors : SelectorList) :
    ofJson? (.array (selectors.map Selector.json)) = some selectors :=
  mapM_map_eq_some Selector.ofJson?_json selectors

end SelectorPath
