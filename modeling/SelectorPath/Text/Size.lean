/-! The size of a text in UTF-8, which is what offsets count. -/

namespace SelectorPath.Text

/-- The number of bytes of a text in UTF-8. -/
def byteSize : List Char → Nat
  | [] => 0
  | c :: cs => c.utf8Size + byteSize cs

@[simp] theorem byteSize_nil : byteSize [] = 0 := rfl

@[simp] theorem byteSize_cons (c : Char) (cs : List Char) :
    byteSize (c :: cs) = c.utf8Size + byteSize cs := rfl

@[simp] theorem byteSize_append (cs ds : List Char) :
    byteSize (cs ++ ds) = byteSize cs + byteSize ds := by
  induction cs with
  | nil => simp
  | cons c cs ih => rw [List.cons_append, byteSize_cons, byteSize_cons, ih, Nat.add_assoc]

/-- The offset at which `rest` starts, when it is the end of `whole`. -/
def offsetOf (whole rest : List Char) : Nat :=
  byteSize whole - byteSize rest

@[simp] theorem offsetOf_append (before rest : List Char) :
    offsetOf (before ++ rest) rest = byteSize before := by
  simp [offsetOf]

end SelectorPath.Text
