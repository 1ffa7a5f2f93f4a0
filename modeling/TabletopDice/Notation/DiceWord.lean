import TabletopDice.Failure

/-!
# Dice words

How a single dice is written: `3D6` for numbered dice, `+5` for a constant, `4F` for fudge dice.
The count may be left out, and the letter may be of either case.
-/

namespace TabletopDice.Notation

/-- A dice word with its runs of digits; a count that is left out is empty. -/
inductive DiceWord where
  | numbered (count sides : Text)
  | constant (value : Text)
  | fudge (count : Text)
  deriving DecidableEq

/-- A line break at the very end does not belong to a word. -/
def withoutFinalBreak (word : Text) : Text :=
  if word.getLast? = some '\n' then word.dropLast else word

/-- Fails with a fault of the given fragment. -/
def blame {α : Type} (cause : Cause) (fragment : Text) (position : Option Int) :
    Except Failure α :=
  .error (Failure.unreadable ⟨cause, fragment, position⟩).raised

namespace DiceWord

/-- Reads what follows the roll count. -/
def ofMarker? (count : Text) : Text → Option DiceWord
  | [] => none
  | marker :: sides =>
      if (marker = 'd' ∨ marker = 'D') ∧ isDigitRun sides then some (numbered count sides)
      else if (marker = 'f' ∨ marker = 'F') ∧ sides = [] then some (fudge count)
      else none

def ofText? (text : Text) : Option DiceWord :=
  match withoutFinalBreak text with
  | '+' :: value => if isDigitRun value then some (constant value) else none
  | word => ofMarker? (word.takeWhile isDigit) (word.dropWhile isDigit)

/-- One, if the count is left out. -/
def readCount (count : Text) : Except Failure Nat :=
  if count.isEmpty then .ok 1 else readDigits count

end DiceWord

/-- Reads a word as a roll count and a dice.  The bounds on the count are not checked here. -/
def readDice (limits : Limits) (word : Text) (position : Option Int) :
    Except Failure (Nat × Dice) :=
  match DiceWord.ofText? word with
  | none => blame (.notDice word) word position
  | some (.constant value) => do return (1, .const (.number (← readDigits value)))
  | some (.fudge count) => do return (← DiceWord.readCount count, .fudge)
  | some (.numbered count sides) => do
      let count ← DiceWord.readCount count
      let sides ← readDigits sides
      if (sides : Int) > limits.sides then
        blame (.tooManySides sides limits.sides) word position
      else if h : 0 < sides then return (count, .numbered sides h)
      else blame (.refused (.noSides (.value (.number sides)))) word position

/-- Reads a word as a request with the given identifier and private actions. -/
def readRequest (limits : Limits) (word : Text) (position : Option Int)
    (identifier : Option Text) (actions : List Action) : Except Failure Request := do
  let (count, dice) ← readDice limits word position
  match Request.check limits (.value (.number count)) dice identifier actions with
  | .ok request => return request
  | .error fault => blame (.refused fault) word position

end TabletopDice.Notation
