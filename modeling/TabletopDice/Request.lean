import TabletopDice.Action
import TabletopDice.Dice.Basic

/-!
# Requests

How many times to roll which dice, under which name, and what to do with these rolls alone.
-/

namespace TabletopDice

/-- The greatest roll count of a request, and the greatest number of sides that may be written. -/
structure Limits where
  count : Int := 255
  sides : Int := 65535

def isIdentifierStart (c : Char) : Bool := 'A' ≤ c && c ≤ 'Z'

def isIdentifierChar (c : Char) : Bool := isIdentifierStart c || ('0' ≤ c && c ≤ '9') || c == '_'

/-- A capital letter, then at least one capital letter, digit or underscore; ASCII only. -/
def isIdentifier : Text → Bool
  | first :: second :: rest => isIdentifierStart first && (second :: rest).all isIdentifierChar
  | _ => false

structure Request where
  number : Nat
  dice : Dice
  identifier : Option Text
  /-- The actions private to this request, in order. -/
  actions : List Action
  one_le_number : 1 ≤ number
  identifier_valid : ∀ name ∈ identifier, isIdentifier name
  deriving DecidableEq

namespace Request

def kind (r : Request) : Kind := r.dice.kind

/-- A constant that is rolled once is written without a count. -/
def rollText (r : Request) : Text :=
  match r.dice, r.number with
  | .const _, 1 => r.dice.text
  | _, _ => natNumeral r.number ++ r.dice.text

def text (r : Request) : Text :=
  match r.identifier with
  | some name => name ++ ' ' :: r.rollText
  | none => r.rollText

/-- The numbers that the text of the request writes out. -/
def numbers (r : Request) : List Int := (r.number : Int) :: r.dice.numbers

/-- Checks the roll count, then the identifier. -/
def check (limits : Limits) (count : Candidate) (dice : Dice) (identifier : Option Text)
    (actions : List Action) : Except DiceFault Request :=
  match count.number? with
  | none => .error (.countNotWhole count)
  | some n =>
      if h : 1 ≤ n.toNat ∧ n ≤ limits.count then
        match identifier with
        | none => .ok ⟨n.toNat, dice, none, actions, h.1, by simp⟩
        | some name =>
            if valid : isIdentifier name then
              .ok ⟨n.toNat, dice, some name, actions, h.1, by simpa using valid⟩
            else .error (.invalidIdentifier name)
      else .error (.countOutOfBounds limits.count n)

end Request
end TabletopDice
