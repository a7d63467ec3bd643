import SelectorPath.Compound
import SelectorPath.Text.Blank

/-! Gaps between the parts of a selector: blanks with at most one `>` among them. -/

namespace SelectorPath

open Text

/-- A gap as it is written. -/
structure Gap where
  before : List Char
  /-- The blanks after the `>`, if there is one. -/
  after : Option (List Char)
  deriving DecidableEq, Repr

namespace Gap

def text (gap : Gap) : List Char :=
  gap.before ++ match gap.after with
    | none => []
    | some after => '>' :: after

def combinator (gap : Gap) : Combinator :=
  match gap.after with
  | none => .descendant
  | some _ => .child

/-- Reads the longest gap at the start of a text, and gives the rest. -/
def read (cs : List Char) : Gap × List Char :=
  let before := cs.takeWhile isBlank
  match cs.dropWhile isBlank with
  | '>' :: rest => (⟨before, some (rest.takeWhile isBlank)⟩, rest.dropWhile isBlank)
  | rest => (⟨before, none⟩, rest)

theorem text_append_read (cs : List Char) : (read cs).1.text ++ (read cs).2 = cs := by
  have whole := List.takeWhile_append_dropWhile (p := isBlank) (l := cs)
  unfold read
  split
  · next rest h =>
    simp only [text, List.append_assoc, List.cons_append, List.takeWhile_append_dropWhile]
    rw [← h, whole]
  · simp [text]

/-- Whether a character can start a gap. -/
def starts (c : Char) : Bool :=
  isBlank c || c == '>'

theorem exists_text_read {c : Char} {cs : List Char} (h : starts c = true) :
    ∃ tail, (read (c :: cs)).1.text = c :: tail ∧ tail ++ (read (c :: cs)).2 = cs := by
  have whole := text_append_read (c :: cs)
  have nonempty : (read (c :: cs)).1.text ≠ [] := by
    by_cases blank : isBlank c = true
    · unfold read
      split <;> simp [text, blank]
    · simp only [starts, blank, Bool.false_or, beq_iff_eq] at h
      subst h
      simp [read, text, blank]
  obtain ⟨d, tail, text⟩ := List.exists_cons_of_ne_nil nonempty
  rw [text, List.cons_append, List.cons.injEq] at whole
  exact ⟨tail, by rw [text, whole.1], whole.2⟩

end Gap

end SelectorPath
