import TabletopDice.Failure

/-!
# Best and worst values

A selection sorts the values in ascending order and takes some of them from one end.
-/

namespace TabletopDice

/-- The numbers in ascending order. -/
def ascending (values : List Int) : List Int := values.mergeSort fun m n ↦ decide (m ≤ n)

/-- Fails unless `n` values can be selected from so many. -/
def checkSelection (available : Nat) (n : Int) : Except Failure Unit :=
  if n < 0 then .error (Failure.badSelection (.negative n)).raised
  else if available < n then .error (Failure.badSelection (.tooMany n available)).raised
  else .ok ()

namespace Extreme

def opposite : Extreme → Extreme
  | best => worst
  | worst => best

/-- The `n` best or worst numbers in ascending order; all of them if there are fewer. -/
def among (which : Extreme) (n : Nat) (values : List Int) : List Int :=
  match which with
  | best => (ascending values).drop (values.length - n)
  | worst => (ascending values).take n

/-- The `n` best or worst numbers, provided there are so many. -/
def select (which : Extreme) (n : Int) (values : List Int) : Except Failure (List Int) := do
  checkSelection values.length n
  return which.among n.toNat values

/-- What the removal of the `n` best or worst numbers leaves. -/
def remove (which : Extreme) (n : Int) (values : List Int) : Except Failure (List Int) := do
  checkSelection values.length n
  return which.opposite.among (values.length - n.toNat) values

end Extreme
end TabletopDice
