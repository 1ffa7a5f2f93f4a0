import TabletopDice.Value.Set

/-!
# Actions

What may be done to the rolls of a request.  Every action is defined for one kind of rolls.  Some
of them need the dice: they roll again, or read the greatest number it can show.
-/

namespace TabletopDice

/-- The end of the sorted rolls that a selection takes its values from. -/
inductive Extreme where
  | best
  | worst
  deriving DecidableEq

inductive Action where
  /-- Rolls each trigger value once more. -/
  | reroll (kind : Kind) (triggers : ValueSet)
  /-- Adds one roll for each trigger value, and goes on with the added ones. -/
  | explode (kind : Kind) (triggers : ValueSet)
  | multiply (factor : Int)
  /-- Reads the digits of each number backwards. -/
  | flip
  | sum
  /-- Adds up one group's rolls, or, as a step of a session, those of all requests. -/
  | total
  | keep (which : Extreme) (n : Int)
  /-- Rolls the best or worst `n` values again. -/
  | rerollExtreme (which : Extreme) (n : Int)
  deriving DecidableEq

/-- The words that actions begin with; multiplication has none. -/
inductive Keyword where
  | reroll
  | explode
  | flip
  | sum
  | total
  | keep (which : Extreme)
  | rerollExtreme (which : Extreme)
  deriving DecidableEq

namespace Keyword

def text : Keyword → Text
  | reroll => "reroll".toList
  | explode => "explode".toList
  | flip => "flip".toList
  | sum => "sum".toList
  | total => "total".toList
  | keep .best => "keep-best".toList
  | keep .worst => "keep-worst".toList
  | rerollExtreme .best => "reroll-best".toList
  | rerollExtreme .worst => "reroll-worst".toList

def all : List Keyword :=
  [reroll, explode, flip, sum, total, keep .best, keep .worst, rerollExtreme .best,
    rerollExtreme .worst]

def ofText? (word : Text) : Option Keyword := all.find? fun k ↦ k.text = word

/-- The keyword with its argument in parentheses. -/
def call (k : Keyword) (argument : Text) : Text := k.text ++ '(' :: argument ++ [')']

end Keyword

namespace Action

/-- The kind of rolls for which the action is defined. -/
def kind : Action → Kind
  | reroll kind _ | explode kind _ => kind
  | _ => .numeric

def needsDice : Action → Bool
  | reroll _ _ | explode _ _ | flip | rerollExtreme _ _ => true
  | multiply _ | sum | total | keep _ _ => false

/-- The action's name in a failure. -/
def name : Action → Text
  | reroll .numeric _ => "RerollNumeric".toList
  | reroll .fudge _ => "RerollFudge".toList
  | explode .numeric _ => "Explode".toList
  | explode .fudge _ => "ExplodeFudge".toList
  | multiply _ => "MultiplyBy".toList
  | flip => "FlipFlop".toList
  | sum => "Sum".toList
  | total => "Total".toList
  | keep .best _ => "KeepBest".toList
  | keep .worst _ => "KeepWorst".toList
  | rerollExtreme .best _ => "RerollBest".toList
  | rerollExtreme .worst _ => "RerollWorst".toList

/-- The action as it is written in a request. -/
def text : Action → Text
  | reroll _ triggers => Keyword.reroll.call triggers.text
  | explode _ triggers => Keyword.explode.call triggers.text
  | multiply factor => 'x' :: numeral factor
  | flip => Keyword.flip.text
  | sum => Keyword.sum.text
  | total => Keyword.total.text
  | keep which n => (Keyword.keep which).call (numeral n)
  | rerollExtreme which n => (Keyword.rerollExtreme which).call (numeral n)

/-- The numbers that the text of the action writes out. -/
def numbers : Action → List Int
  | reroll _ triggers | explode _ triggers => triggers.numbers
  | multiply n | keep _ n | rerollExtreme _ n => [n]
  | flip | sum | total => []

end Action
end TabletopDice
