import SelectorPath.Compound
import SelectorPath.Formula
import SelectorPath.XPath.Expr

/-! Tests of one element as XPath expressions: of an attribute, and of the position. -/

namespace SelectorPath

open XPath

def AttributeTest.expr (test : AttributeTest) : Expr :=
  let attr := Expr.attr test.name
  let value := test.value.getD ""
  match test.matching with
  | .equals => .equals attr (.ofString value)
  | .startsWith => .call .startsWith [attr, .ofString value]
  -- There is no function for the end of a text; both sides get a mark that stands for the end.
  | .endsWith =>
    .call .contains [.call .concat [attr, .literal .double "___"], .ofString (value ++ "___")]
  | .hasWord =>
    .call .contains
      [.call .concat [.literal .double " ", attr, .literal .double " "],
        .ofString (" " ++ value ++ " ")]
  | .dashMatch =>
    .binary .or
      (.binary .or (.equals attr (.ofString value))
        (.call .startsWith [attr, .ofString (value ++ " ")]))
      (.call .startsWith [attr, .ofString (value ++ "-")])
  | .differs => .call .not [.equals attr (.ofString value)]
  | .present => attr
  | .contains => .call .contains [attr, .ofString value]

/-- Whether the position of an element is among those of a formula. -/
def Formula.expr : Formula → Expr
  | index position => .equals (.call .position []) (.ofInt position)
  | linear factor offset =>
    let position := Expr.call .position []
    if factor = 0 then .equals position (.ofInt offset)
    else
      let shifted :=
        if 0 < offset then Expr.binary .minus position (.number offset.natAbs)
        else .binary .plus position (.number offset.natAbs)
      let cycle := Expr.equals (.binary .mod (.group shifted) (.number factor.natAbs)) (.number 0)
      if factor < 0 then .binary .and cycle (.binary .atMost position (.ofInt offset))
      else if 0 ≤ offset then .binary .and cycle (.binary .atLeast position (.ofInt offset))
      else cycle

end SelectorPath
