import SelectorPath.Selector

/-! Ways of working on selectors. What is done with a selector is written once for all of them: it
takes nothing but reading a member, telling of what is odd, and giving up. -/

namespace SelectorPath

class Work (m : Type → Type) where
  /-- Goes on with a result, or gives up. -/
  ofExcept {α : Type} : Except SelectorError α → m α
  /-- Tells of something odd, and goes on. -/
  note : Oddity → m Unit
  /-- Reads a member of a selector list. -/
  selector : List Char → m Selector

def Work.fail {m : Type → Type} [Work m] {α : Type} (error : SelectorError) : m α :=
  ofExcept (.error error)

instance : Work Outcome where
  ofExcept := Outcome.ofExcept
  note := Outcome.note
  selector := Selector.read

end SelectorPath
