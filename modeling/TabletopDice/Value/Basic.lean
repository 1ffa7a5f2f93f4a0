import TabletopDice.Text.Numeral

/-!
# Values

What a die can show: a number, or one of the three faces of a fudge die.  A value prints in two
ways.  Among rolled values a blank face is `0`; in the notation for actions and in the labels of
counts it is `blank`, so that it cannot be taken for the number.
-/

namespace TabletopDice

inductive Kind where
  | numeric
  | fudge
  deriving DecidableEq

inductive Face where
  | minus
  | blank
  | plus
  deriving DecidableEq

inductive Value where
  | number (n : Int)
  | face (f : Face)
  deriving DecidableEq

def Kind.text : Kind → Text
  | .numeric => "numeric".toList
  | .fudge => "fudge".toList

namespace Face

def score : Face → Int
  | .minus => -1
  | .blank => 0
  | .plus => 1

/-- The face as it stands among rolled values. -/
def text : Face → Text
  | .minus => ['-']
  | .blank => ['0']
  | .plus => ['+']

/-- The face as it is written in an action or a label. -/
def word : Face → Text
  | .minus => ['-']
  | .blank => "blank".toList
  | .plus => ['+']

end Face

namespace Value

def kind : Value → Kind
  | .number _ => .numeric
  | .face _ => .fudge

def number? : Value → Option Int
  | .number n => some n
  | .face _ => none

/-- The number by which values are sorted: a face counts as its score. -/
def score : Value → Int
  | .number n => n
  | .face f => f.score

/-- A number that tells all values apart and sorts them by score, a number before the face that
scores the same. -/
def rank : Value → Int
  | .number n => 2 * n
  | .face f => 2 * f.score + 1

def text : Value → Text
  | .number n => numeral n
  | .face f => f.text

def word : Value → Text
  | .number n => numeral n
  | .face f => f.word

/-- The numbers that have to be written when the value is. -/
def numbers : Value → List Int
  | .number n => [n]
  | .face _ => []

theorem rank_injective {v w : Value} (h : v.rank = w.rank) : v = w := by
  cases v with
  | number m =>
      cases w with
      | number n => exact congrArg _ (by simp only [rank] at h; omega)
      | face g => cases g <;> simp only [rank, Face.score] at h <;> omega
  | face f =>
      cases w with
      | number n => cases f <;> simp only [rank, Face.score] at h <;> omega
      | face g => cases f <;> cases g <;> simp_all [rank, Face.score]

end Value

/-- The integers behind the values, if all of them are numbers. -/
def allNumbers? (values : List Value) : Option (List Int) := values.mapM Value.number?

end TabletopDice
