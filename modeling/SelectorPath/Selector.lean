import SelectorPath.Token

/-! Selectors: the compounds of one member of a selector list, first ancestor first. There is always
at least one, and an empty text gives a compound that asks nothing. -/

namespace SelectorPath

open Text

abbrev Selector := List Compound

namespace Selector

/-- How far the last compound has come. -/
inductive Stage where
  /-- The text, or what follows a stray character, has just started; a gap here is part of that. -/
  | fresh
  /-- The gap before the compound was read. -/
  | joined
  /-- A simple selector of the compound was read. -/
  | begun
  deriving DecidableEq, Repr

/-- Builds the compounds of the tokens, the first of which is under way. A gap ends a compound; a
stray character ends one that has begun, and takes the place of a gap. -/
def assemble (compound : Compound) (stage : Stage) : List Token → Selector
  | [] => [compound]
  | .gap gap :: tokens =>
    if stage = .fresh then assemble (compound.joinedBy gap.combinator) .joined tokens
    else compound :: assemble { combinator := gap.combinator } .joined tokens
  | .simple selector :: tokens => assemble (selector.addTo compound) .begun tokens
  | .stray _ :: tokens =>
    if stage = .begun then compound :: assemble {} .fresh tokens
    else assemble compound .fresh tokens

def ofTokens (tokens : List Token) : Selector :=
  assemble {} .fresh tokens

theorem assemble_ne_nil (compound : Compound) (stage : Stage) (tokens : List Token) :
    assemble compound stage tokens ≠ [] := by
  fun_induction assemble compound stage tokens <;> simp_all

/-- Reads a member of a selector list; white space around it does not count. -/
def read (cs : List Char) : Outcome Selector :=
  let trimmed := trim cs
  ofTokens <$> Tokens.outcome trimmed 0 trimmed

def parse (text : String) : Outcome Selector :=
  read text.toList

end Selector

end SelectorPath
