import Mathlib.Data.List.Basic
import Mathlib.Logic.Relation
import SelectorPath.XPath.Document

/-! The two axes as relations between nodes. The descendants of a node are those that can be reached
from it by going to a child once or more often. -/

namespace SelectorPath.XPath.Node

def IsChild (parent child : Node) : Prop :=
  ∃ i, parent.element.children[i]? = some child.element ∧ child.place = parent.place ++ [i]

def IsDescendant : Node → Node → Prop :=
  Relation.TransGen IsChild

theorem mem_siblings_iff {place : List Nat} {start : Nat} {elements : List Element} {node : Node} :
    node ∈ siblings place start elements ↔
      ∃ i, elements[i]? = some node.element ∧ node.place = place ++ [start + i] := by
  induction elements generalizing start with
  | nil => simp [siblings]
  | cons element elements ih =>
    rw [siblings, List.mem_cons, ih]
    constructor
    · rintro (rfl | ⟨i, helement, hplace⟩)
      · exact ⟨0, rfl, rfl⟩
      · refine ⟨i + 1, helement, ?_⟩
        rw [hplace, Nat.add_assoc, Nat.add_comm 1]
    · rintro ⟨_ | i, helement, hplace⟩
      · left
        cases node
        simp_all
      · right
        refine ⟨i, helement, ?_⟩
        rw [hplace, Nat.add_assoc, Nat.add_comm 1]

theorem mem_children_iff {parent node : Node} : node ∈ parent.children ↔ parent.IsChild node := by
  simp [children, mem_siblings_iff, IsChild]

theorem mem_belowSiblings_iff {place : List Nat} {start : Nat} {elements : List Element}
    {node : Node} :
    node ∈ belowSiblings place start elements ↔
      ∃ sibling ∈ siblings place start elements, node = sibling ∨ node ∈ sibling.descendants := by
  induction elements generalizing start with
  | nil => simp [belowSiblings, siblings]
  | cons element elements ih =>
    rw [belowSiblings, siblings, List.mem_cons, List.mem_append, ih, List.exists_mem_cons_iff,
      or_assoc]
    rfl

theorem mem_descendants_iff_child {ancestor node : Node} :
    node ∈ ancestor.descendants ↔
      ∃ child, ancestor.IsChild child ∧ (node = child ∨ node ∈ child.descendants) := by
  obtain ⟨place, ⟨name, attributes, elements⟩⟩ := ancestor
  simp only [← mem_children_iff]
  exact mem_belowSiblings_iff

theorem sizeOf_element_lt {parent child : Node} (h : parent.IsChild child) :
    sizeOf child.element < sizeOf parent.element := by
  obtain ⟨i, helement, _⟩ := h
  obtain ⟨place, ⟨name, attributes, elements⟩⟩ := parent
  have hmem : child.element ∈ elements := List.mem_of_getElem? helement
  have hlt := List.sizeOf_lt_of_mem hmem
  simp only [Element.mk.sizeOf_spec]
  omega

theorem isDescendant_of_mem {ancestor node : Node} (h : node ∈ ancestor.descendants) :
    ancestor.IsDescendant node := by
  obtain ⟨child, hchild, rfl | hnode⟩ := mem_descendants_iff_child.1 h
  · exact .single hchild
  · exact .head hchild (isDescendant_of_mem hnode)
termination_by sizeOf ancestor.element
decreasing_by exact sizeOf_element_lt hchild

theorem mem_descendants_iff {ancestor node : Node} :
    node ∈ ancestor.descendants ↔ ancestor.IsDescendant node := by
  refine ⟨isDescendant_of_mem, fun h => ?_⟩
  induction h using Relation.TransGen.head_induction_on with
  | single hchild => exact mem_descendants_iff_child.2 ⟨node, hchild, .inl rfl⟩
  | head hchild _ ih => exact mem_descendants_iff_child.2 ⟨_, hchild, .inr ih⟩

end SelectorPath.XPath.Node
