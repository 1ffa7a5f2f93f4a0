import TabletopDice.Text.Digit

/-!
# Decimal numerals

Reading and writing of numbers.  A number of more than `digitLimit` digits is neither read from a
text nor written into one.
-/

namespace TabletopDice

/-- The greatest number of digits of a numeral that is read or written. -/
def digitLimit : Nat := 4300

/-- The number that a run of digits stands for. -/
def digitsValue (digits : Text) : Nat :=
  digits.foldl (fun n c ↦ 10 * n + (digitValue? c).getD 0) 0

/-- The number without sign or leading zeros. -/
def natNumeral (n : Nat) : Text := Nat.toDigits 10 n

/-- The number with a minus sign in front if it is negative. -/
def numeral (n : Int) : Text :=
  if n < 0 then '-' :: natNumeral n.natAbs else natNumeral n.natAbs

/-- A number is writable if it has at most `digitLimit` digits. -/
def Writable (n : Int) : Prop := (natNumeral n.natAbs).length ≤ digitLimit

instance (n : Int) : Decidable (Writable n) := inferInstanceAs (Decidable (_ ≤ _))

theorem writable_iff_natAbs_lt {n : Int} : Writable n ↔ n.natAbs < Nat.pow 10 digitLimit := by
  rw [Writable, natNumeral, Nat.pow_eq, Nat.length_toDigits_le_iff (by decide) (by decide)]

end TabletopDice
