import TabletopDice.Rolling.Basic

/-!
# Rerolls and explosions

Each value that is a trigger makes way for one fresh roll, from the left to the right.  Fresh rolls
are not looked at again.

In an explosion one new roll is added for each value that is a trigger; then the same is done with
the new rolls, until a batch of them holds no trigger.  A batch takes at least one draw, or, on a
dice that takes no draws, it has fewer triggers than the batch before unless the first value of the
dice is a trigger.  So the draws left and the triggers at the start bound the number of batches, and
an explosion that exceeds the bound would never stop.
-/

namespace TabletopDice.ValueSet

def reroll (triggers : ValueSet) (dice : Dice) : List Value → Rolling (List Value)
  | [] => return []
  | v :: rest => do
      let fresh ← if v ∈ triggers then dice.roll 1 else pure [v]
      return fresh ++ (← triggers.reroll dice rest)

/-- Rolls one batch after the other, within a bound on their number.  `values` are all values so
far, and `batch` are those of them that were rolled last. -/
def burst (triggers : ValueSet) (dice : Dice) (bound : Nat) (values batch : List Value) :
    Rolling (List Value) :=
  if triggers.countIn batch = 0 then return values
  else match bound with
    | 0 => Rolling.fail .endlessExplosion
    | bound + 1 => do
        let next ← dice.roll (triggers.countIn batch)
        triggers.burst dice bound (values ++ next) next

def explode (triggers : ValueSet) (dice : Dice) (values : List Value) : Rolling (List Value) := do
  let bound := (← get).length + triggers.countIn values
  triggers.burst dice bound values values

end TabletopDice.ValueSet
