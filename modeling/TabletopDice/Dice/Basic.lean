import TabletopDice.Dice.Fault

/-!
# Dice

Numeric dice produce numbers, fudge dice one of three faces.  A constant and a repeating dice work
for either kind, the kind being that of their values.  A `Dice` is always valid; `Draft.check`
makes one from unchecked parts or says what is wrong with them.
-/

namespace TabletopDice

/-- A nonempty sequence of values of one kind, gone through again and again. -/
structure Cycle where
  first : Value
  others : List Value
  same_kind : ∀ v ∈ others, v.kind = first.kind
  deriving DecidableEq

inductive Dice where
  | const (value : Value)
  | numbered (sides : Nat) (sides_pos : 0 < sides)
  | repeating (cycle : Cycle)
  | fudge
  deriving DecidableEq

namespace Cycle

def toList (c : Cycle) : List Value := c.first :: c.others

def kind (c : Cycle) : Kind := c.first.kind

/-- The first `n` values, starting over after the last one. -/
def take (c : Cycle) (n : Nat) : List Value :=
  (List.range n).map fun i ↦ c.toList.getD (i % c.toList.length) c.first

def ofList : List Value → Except DiceFault Cycle
  | [] => .error .emptyCycle
  | first :: others =>
      if h : ∀ v ∈ others, v.kind = first.kind then .ok ⟨first, others, h⟩
      else .error .mixedCycle

end Cycle

namespace Dice

def kind : Dice → Kind
  | const value => value.kind
  | numbered _ _ => .numeric
  | repeating cycle => cycle.kind
  | fudge => .fudge

/-- The greatest of the numbers, or `none` unless all values are numbers. -/
def greatest? (values : List Value) : Option Int := (allNumbers? values).bind List.max?

/-- The greatest number the dice can show. -/
def maximum : Dice → Except DiceFault Int
  | const value => (greatest? [value]).elim (.error .noMaximum) .ok
  | numbered sides _ => .ok sides
  | repeating cycle => (greatest? cycle.toList).elim (.error .noMaximum) .ok
  | fudge => .error .noMaximum

/-- The dice as it is written in a request, without the roll count. -/
def text : Dice → Text
  | const (.number n) => '+' :: numeral n
  | const (.face f) => f.text
  | numbered sides _ => 'D' :: natNumeral sides
  | repeating cycle =>
      '[' :: cycle.toList.flatMap (fun v ↦ v.text ++ [',']) ++ "...]".toList
  | fudge => ['F']

/-- The numbers that the text of the dice writes out. -/
def numbers : Dice → List Int
  | const value => value.numbers
  | numbered sides _ => [(sides : Int)]
  | repeating cycle => cycle.toList.flatMap Value.numbers
  | fudge => []

end Dice

/-- The parts of a dice, not yet checked. -/
inductive Draft where
  | const (value : Candidate)
  | numbered (sides : Candidate)
  | repeating (values : List Candidate)
  | fudge

namespace Draft

def checkValue : Candidate → Except DiceFault Value
  | .value v => .ok v
  | got => .error (.unsupportedValue got)

def checkSides (got : Candidate) : Except DiceFault Dice :=
  match got.number? with
  | some n => if h : 0 < n.toNat then .ok (.numbered n.toNat h) else .error (.noSides got)
  | none => .error (.noSides got)

def check : Draft → Except DiceFault Dice
  | const value => Dice.const <$> checkValue value
  | numbered sides => checkSides sides
  | repeating values => do
      let values ← values.mapM checkValue
      Dice.repeating <$> Cycle.ofList values
  | fudge => .ok .fudge

end Draft
end TabletopDice
