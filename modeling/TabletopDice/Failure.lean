import TabletopDice.Notation.Fault
import TabletopDice.Request

/-!
# Failures

Everything that can go wrong between reading a request and reporting its rolls.  A failure is
raised with `Failure.raised`: if its message would have to write a number that is too long, the
failure is that number instead.
-/

namespace TabletopDice

/-- What was tried on rolls for which it is not defined. -/
inductive Attempt where
  | roll
  | requestActions
  | action (a : Action)
  | count
  deriving DecidableEq

/-- Why an attempt does not fit the rolls. -/
inductive Mismatch where
  /-- The action is not defined for rolls of this kind. -/
  | kind
  /-- A total or a count has no dice to roll again. -/
  | noDice
  | notNumeric
  | otherKind (request : Request)
  | terminated
  deriving DecidableEq

/-- Why a selection of the best or worst rolls is impossible. -/
inductive SelectionFault where
  | negative (n : Int)
  | tooMany (n : Int) (available : Nat)
  deriving DecidableEq

/-- Steps that no request which was read from a text can lead to. -/
inductive Misuse where
  /-- Arithmetic on the faces of fudge dice. -/
  | faceAsNumber
  /-- Request actions on a result that stems from no request. -/
  | noRequest
  deriving DecidableEq

inductive Failure where
  | unreadable (fault : Notation.Fault)
  | incompatible (attempt : Attempt) (kind : Kind) (reason : Mismatch)
  | badDice (fault : DiceFault)
  | badSelection (fault : SelectionFault)
  | noDrawLeft
  /-- An explosion whose every further roll explodes again. -/
  | endlessExplosion
  /-- A number with too many digits; their count is known if it was to be read. -/
  | numberTooLong (digits : Option Nat)
  | misuse (cause : Misuse)
  deriving DecidableEq

def Attempt.name : Attempt → Text
  | roll => "roll".toList
  | requestActions => "request actions".toList
  | action a => a.name
  | count => "CountValues".toList

namespace Mismatch

/-- The text after the colon, or nothing if the kind alone is the reason. -/
def reason : Mismatch → Option Text
  | kind => none
  | noDice => some "aggregated results have no dice to roll".toList
  | notNumeric => some "only numeric rolls can be totalled".toList
  | otherKind request =>
      some (request.text ++ " is a ".toList ++ request.kind.text ++ " request".toList)
  | terminated => some "no action may follow a total or a count".toList

def numbers : Mismatch → List Int
  | otherKind request => request.numbers
  | _ => []

end Mismatch

namespace SelectionFault

def message : SelectionFault → Text
  | negative n => "Cannot select a negative number of rolls (".toList ++ numeral n ++ [')']
  | tooMany n available =>
      "Cannot select ".toList ++ numeral n ++ " rolls out of ".toList ++ natNumeral available

def numbers : SelectionFault → List Int
  | negative n => [n]
  | tooMany n available => [n, available]

end SelectionFault

namespace Failure

def tooLongMessage (digits : Option Nat) : Text :=
  "Exceeds the limit (".toList ++ natNumeral digitLimit ++
    " digits) for integer string conversion".toList ++
    (match digits with
      | none => []
      | some n => ": value has ".toList ++ natNumeral n ++ " digits".toList) ++
    "; use sys.set_int_max_str_digits() to increase the limit".toList

def message : Failure → Text
  | unreadable fault => fault.message
  | incompatible attempt kind reason =>
      "Action ".toList ++ attempt.name ++ " is incompatible with ".toList ++ kind.text ++
        " rolls".toList ++ (reason.reason.elim [] (": ".toList ++ ·))
  | badDice fault => fault.message
  | badSelection fault => fault.message
  | noDrawLeft => "no draw left".toList
  | endlessExplosion => "the explosion never stops".toList
  | numberTooLong digits => tooLongMessage digits
  | misuse .faceAsNumber => "a fudge face is not a number".toList
  | misuse .noRequest => "the result stems from no request".toList

/-- The numbers that the message writes out. -/
def numbers : Failure → List Int
  | unreadable fault => fault.numbers
  | incompatible _ _ reason => reason.numbers
  | badDice fault => fault.numbers
  | badSelection fault => fault.numbers
  | _ => []

/-- The failure as it is raised. -/
def raised (f : Failure) : Failure :=
  if ∀ n ∈ f.numbers, Writable n then f else .numberTooLong none

end Failure

/-- The integer that a run of digits stands for, unless the run is too long. -/
def readDigits (digits : Text) : Except Failure Nat :=
  if digits.length ≤ digitLimit then .ok (digitsValue digits)
  else .error (.numberTooLong digits.length)

/-- Fails unless all the numbers can be written. -/
def checkWritable (numbers : List Int) : Except Failure Unit :=
  if ∀ n ∈ numbers, Writable n then .ok () else .error (.numberTooLong none)

end TabletopDice
