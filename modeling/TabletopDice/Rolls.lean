import TabletopDice.Request

/-!
# Rolls

The values that one request holds at the moment, with a description of how they came about.
Totals and counts stem from no request.
-/

namespace TabletopDice

structure Rolls where
  kind : Kind
  description : Text
  values : List Value
  origin : Option Request
  deriving DecidableEq

namespace Rolls

def dice? (r : Rolls) : Option Dice := r.origin.map Request.dice

/-- The description, a colon, and the values with a space between them. -/
def text (r : Rolls) : Text :=
  r.description ++ ": ".toList ++ [' '].intercalate (r.values.map Value.text)

/-- The numbers that the text writes out after the description. -/
def numbers (r : Rolls) : List Int := r.values.flatMap Value.numbers

/-- A numeric result with a single number and no request behind it. -/
def aggregate (description : Text) (n : Int) : Rolls :=
  ⟨.numeric, description, [.number n], none⟩

/-- The texts of several rolls, one to a line. -/
def lines (results : List Rolls) : Text := ['\n'].intercalate (results.map text)

end Rolls
end TabletopDice
