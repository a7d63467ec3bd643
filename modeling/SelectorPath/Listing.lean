import SelectorPath.Json
import SelectorPath.Selector

/-! Compounds as JSON values, and back. An element name or a value that is not there is `null`,
which is not the empty text. -/

namespace SelectorPath

def AttributeTest.json (test : AttributeTest) : Json :=
  .object
    [("name", .string test.name), ("matcher", .string test.matching.name),
      ("value", .ofOption test.value)]

def Pseudo.json (pseudo : Pseudo) : Json :=
  .object [("name", .string pseudo.name), ("value", .ofOption pseudo.argument)]

def Compound.json (compound : Compound) : Json :=
  .object
    [("direct_child", .bool (compound.combinator = .child)),
      ("tag_name", .ofOption compound.element),
      ("attributes", .array (compound.attributes.map AttributeTest.json)),
      ("pseudo_selectors", .array (compound.pseudos.map Pseudo.json))]

def Selector.json (selector : Selector) : Json :=
  .array (selector.map Compound.json)

/-! ### Reading back -/

def Json.option? : Json → Option (Option String)
  | .null => some none
  | .string text => some (some text)
  | _ => none

def Matching.ofName? (name : String) : Option Matching :=
  [equals, startsWith, endsWith, hasWord, dashMatch, differs, present, contains].find? fun m =>
    m.name = name

def AttributeTest.ofJson? : Json → Option AttributeTest
  | .object [("name", .string name), ("matcher", .string matcher), ("value", value)] => do
    return ⟨name, ← Matching.ofName? matcher, ← value.option?⟩
  | _ => none

def Pseudo.ofJson? : Json → Option Pseudo
  | .object [("name", .string name), ("value", value)] => do
    return ⟨name, ← value.option?⟩
  | _ => none

def Compound.ofJson? : Json → Option Compound
  | .object [("direct_child", .bool child), ("tag_name", element),
      ("attributes", .array attributes), ("pseudo_selectors", .array pseudos)] => do
    return ⟨if child then .child else .descendant, ← element.option?,
      ← attributes.mapM AttributeTest.ofJson?, ← pseudos.mapM Pseudo.ofJson?⟩
  | _ => none

def Selector.ofJson? : Json → Option Selector
  | .array compounds => compounds.mapM Compound.ofJson?
  | _ => none

end SelectorPath
