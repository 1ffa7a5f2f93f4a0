import TabletopDice.Failure

/-!
# Rolling dice

Randomness is a list of integers given beforehand, the draws.  Everything that rolls takes its
draws from the front of that list and hands the rest on, also when it fails.  A numbered or fudge
dice takes one draw for each value; constant and repeating dice take none.
-/

namespace TabletopDice

abbrev Draws := List Int

/-- A computation that takes draws and may fail; the draws taken before a failure stay taken. -/
abbrev Rolling := EStateM Failure Draws

namespace Rolling

def ofExcept {α : Type} : Except Failure α → Rolling α
  | .ok a => pure a
  | .error f => throw f

instance : MonadLift (Except Failure) Rolling := ⟨ofExcept⟩

def fail {α : Type} (f : Failure) : Rolling α := throw f.raised

/-- The next draw. -/
def draw : Rolling Int := do
  match ← get with
  | [] => fail .noDrawLeft
  | d :: rest =>
      set rest
      return d

/-- Repeats a computation `n` times. -/
def times {α : Type} (roll : Rolling α) : Nat → Rolling (List α)
  | 0 => return []
  | n + 1 => return (← roll) :: (← times roll n)

end Rolling

namespace Dice

/-- The value that a dice with this many sides shows for a draw. -/
def sideOf (sides : Nat) (draw : Int) : Value := .number (1 + draw % sides)

/-- The face that a fudge dice shows for a draw. -/
def faceOf (draw : Int) : Value :=
  .face (if draw % 3 = 0 then .blank else if draw % 3 = 1 then .plus else .minus)

/-- Rolls the dice `n` times.  A repeating dice starts over at its first value. -/
def roll (n : Nat) : Dice → Rolling (List Value)
  | const value => return List.replicate n value
  | numbered sides _ => Rolling.times (sideOf sides <$> Rolling.draw) n
  | repeating cycle => return cycle.take n
  | fudge => Rolling.times (faceOf <$> Rolling.draw) n

end Dice

/-- What somebody may ask to be rolled: a dice, or something of an unknown name. -/
inductive Rollable where
  | dice (d : Dice)
  | unknown (name : Text)

/-- Rolls as often as asked; nothing is rolled for a count below one, whatever it is. -/
def Rollable.roll (count : Int) (r : Rollable) : Rolling (List Value) :=
  if count ≤ 0 then return []
  else match r with
    | .dice d => d.roll count.toNat
    | .unknown name => Rolling.fail (.badDice (.unknownDice name))

end TabletopDice
