import TabletopDice.Rolling.Arithmetic
import TabletopDice.Rolling.Selection
import TabletopDice.Rolling.Triggers
import TabletopDice.Rolls

/-!
# Applying actions

An action turns the rolls of one request into new rolls of the same kind and origin, and adds its
own text to their description.
-/

namespace TabletopDice.Action

/-- The dice that the action rolls again or asks for its maximum. -/
def diceFor (a : Action) (r : Rolls) : Except Failure Dice :=
  match r.dice? with
  | some dice => .ok dice
  | none => .error (Failure.incompatible (.action a) r.kind .noDice).raised

def flipped (a : Action) (r : Rolls) : Except Failure (List Int) := do
  let dice ← a.diceFor r
  let greatest ← dice.maximum.mapError fun fault ↦ (Failure.badDice fault).raised
  flipAll greatest (← calculable r.values)

/-- The values after the action. -/
def transform (a : Action) (r : Rolls) : Rolling (List Value) :=
  match a with
  | reroll _ triggers => do triggers.reroll (← a.diceFor r) r.values
  | explode _ triggers => do triggers.explode (← a.diceFor r) r.values
  | multiply factor => do return (multiplyAll factor (← calculable r.values)).map .number
  | flip => do return (← a.flipped r).map .number
  | sum | total => do return [.number (sumOf (← calculable r.values))]
  | keep which n => do return (← which.select n (← calculable r.values)).map .number
  | rerollExtreme which n => do
      let dice ← a.diceFor r
      let rest ← which.remove n (← calculable r.values)
      return rest.map .number ++ (← dice.roll n.toNat)

def apply (a : Action) (r : Rolls) : Rolling Rolls := do
  if a.kind ≠ r.kind then Rolling.fail (.incompatible (.action a) r.kind .kind)
  let values ← a.transform r
  checkWritable a.numbers
  return { r with description := r.description ++ ' ' :: a.text, values }

/-- Applies actions one after the other. -/
def applyAll (actions : List Action) (r : Rolls) : Rolling Rolls :=
  actions.foldlM (fun r a ↦ a.apply r) r

end TabletopDice.Action
