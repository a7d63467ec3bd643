import SelectorPath.Error
import SelectorPath.Warning

/-! The outcome of reading or stating a selector: a result or an error, and beside it the oddities
met on the way, in order. An error ends the list, and nothing that is noted can change a result. -/

namespace SelectorPath

/-- Something odd about a selector that is tolerated. -/
inductive Oddity where
  /-- A character that starts nothing, at an offset of the trimmed member. -/
  | stray (char : Char) (offset : Nat)
  /-- An argument without its closing parenthesis; it starts at the offset. -/
  | unclosedArgument (pseudo : String) (offset : Nat)
  | emptyMember
  deriving DecidableEq, Repr

def Oddity.message : Oddity → String
  | stray char offset => s!"unexpected '{char}' at offset {offset} treated as a combinator"
  | unclosedArgument pseudo offset =>
    s!"unbalanced parentheses after ':{pseudo}(' at offset {offset}"
  | emptyMember => "empty member in selector list matches any element"

def Oddity.warning (oddity : Oddity) : Warning :=
  ⟨"Selector", oddity.message⟩

structure Outcome (α : Type) where
  oddities : List Oddity
  result : Except SelectorError α

namespace Outcome

variable {α β : Type}

def pure (a : α) : Outcome α := ⟨[], .ok a⟩

/-- An outcome without oddities. -/
def ofExcept (result : Except SelectorError α) : Outcome α := ⟨[], result⟩

def note (oddity : Oddity) : Outcome Unit := ⟨[oddity], .ok ()⟩

def bind (x : Outcome α) (f : α → Outcome β) : Outcome β :=
  match x.result with
  | .error error => ⟨x.oddities, .error error⟩
  | .ok a => ⟨x.oddities ++ (f a).oddities, (f a).result⟩

instance : Monad Outcome where
  pure := pure
  bind := bind

instance : LawfulMonad Outcome := LawfulMonad.mk' Outcome
  (by rintro α ⟨_, _ | _⟩ <;> simp [Functor.map, bind, pure])
  (by intro α β a f; simp [Bind.bind, Pure.pure, bind, pure])
  (by
    rintro α β γ ⟨_, _ | a⟩ f g
    · simp [Bind.bind, bind]
    · simp only [Bind.bind, bind]
      cases (f a).result <;> simp)

/-- The warnings of an outcome, in the order in which they are given. -/
def warnings (x : Outcome α) : List Warning :=
  x.oddities.map Oddity.warning

end Outcome

end SelectorPath
