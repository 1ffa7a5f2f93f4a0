import TabletopDice.Failure

/-!
# Arithmetic on rolled numbers

Sums, multiplication by a factor, and reading the digits backwards.  Before its digits are reversed
a number is padded with zeros to the width of the greatest value of the dice, so on a hundred-sided
dice `1` becomes `100`.  The sign stays.
-/

namespace TabletopDice

/-- The numbers behind the values; faces cannot be calculated with. -/
def calculable (values : List Value) : Except Failure (List Int) :=
  match allNumbers? values with
  | some numbers => .ok numbers
  | none => .error (.misuse .faceAsNumber)

def sumOf (values : List Int) : Int := values.foldr (· + ·) 0

def multiplyAll (factor : Int) (values : List Int) : List Int := values.map (· * factor)

/-- The digits of `n`, with zeros in front up to the given width. -/
def paddedDigits (width n : Nat) : Text :=
  List.replicate (width - (natNumeral n).length) '0' ++ natNumeral n

def flipDigits (width : Nat) (n : Int) : Int :=
  let flipped : Int := digitsValue (paddedDigits width n.natAbs).reverse
  if n < 0 then -flipped else flipped

/-- The width to which numbers are padded when the dice shows `greatest` at most. -/
def digitWidth (greatest : Int) : Nat := (natNumeral greatest.natAbs).length

def flipAll (greatest : Int) (values : List Int) : Except Failure (List Int) := do
  checkWritable (greatest :: values)
  return values.map (flipDigits (digitWidth greatest))

end TabletopDice
