/-! Documents: finite trees of elements. A node is an element with its place in the tree, which is
the list of child numbers that lead to it, so equal elements in two places are two nodes. -/

namespace SelectorPath.XPath

inductive Element where
  | mk (name : String) (attributes : List (String × String)) (children : List Element)
  deriving Repr

namespace Element

def name : Element → String
  | mk name _ _ => name

def attribute? (key : String) : Element → Option String
  | mk _ attributes _ => attributes.lookup key

def children : Element → List Element
  | mk _ _ children => children

end Element

structure Node where
  place : List Nat
  element : Element
  deriving Repr

namespace Node

/-- The root, which has the document element as its only child. -/
def root (document : Element) : Node :=
  ⟨[], .mk "" [] [document]⟩

/-- The nodes of sibling elements below a place, numbered from `start`. -/
def siblings (place : List Nat) (start : Nat) : List Element → List Node
  | [] => []
  | element :: elements => ⟨place ++ [start], element⟩ :: siblings place (start + 1) elements

mutual

/-- The nodes below an element at a place, in document order. -/
def below (place : List Nat) : Element → List Node
  | .mk _ _ children => belowSiblings place 0 children

/-- The nodes of sibling elements and all nodes below them. -/
def belowSiblings (place : List Nat) (start : Nat) : List Element → List Node
  | [] => []
  | element :: elements =>
    ⟨place ++ [start], element⟩ :: (below (place ++ [start]) element ++
      belowSiblings place (start + 1) elements)

end

def children (node : Node) : List Node :=
  siblings node.place 0 node.element.children

def descendants (node : Node) : List Node :=
  below node.place node.element

end Node

end SelectorPath.XPath
