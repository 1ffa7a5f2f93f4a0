import TabletopDice.Dice.Fault

/-!
# Faults of a request text

Where the reading of a request stopped, and why.  The fragment is the piece of the text that is to
blame; its position is the number of characters in front of it.
-/

namespace TabletopDice.Notation

inductive Cause where
  | tooManySides (sides most : Int)
  /-- The word reads as a dice, but there is no such dice or request. -/
  | refused (fault : DiceFault)
  | notDice (word : Text)
  | unknownAction (word : Text)
  | takesNoArguments (keyword : Text)
  | needsValues (keyword : Text)
  | emptyValue (keyword : Text)
  | mixedValues (keyword : Text)
  | invalidValues (keyword arguments : Text)
  | needsNumber (keyword : Text)
  | afterCount
  | unbalanced
  | diceAfterActions
  | noDice
  | identifierExpected
  | invalidIdentifier (word : Text)
  | groupWithoutDice (name : Text)
  | nestedGroup
  | countInGroup
  | unclosedGroup (name : Text)
  deriving DecidableEq

namespace Cause

/-- Whether a word in the place of a dice is at fault, and not the form of the request. -/
def concernsDice : Cause → Bool
  | tooManySides _ _ | refused _ | notDice _ => true
  | _ => false

def message : Cause → Text
  | tooManySides sides most =>
      "Too many sides: ".toList ++ numeral sides ++ " (max ".toList ++ numeral most ++ [')']
  | refused fault => fault.message
  | notDice word =>
      "Expected something like 'D20', '3D6', '+5' or '4F' but got ".toList ++ quoted word
  | unknownAction word => "Unknown action ".toList ++ quoted word
  | takesNoArguments keyword =>
      "Action ".toList ++ quoted keyword ++ " takes no arguments".toList
  | needsValues keyword =>
      "Action ".toList ++ quoted keyword ++ " needs at least one value".toList
  | emptyValue keyword => "Empty value in ".toList ++ keyword ++ "(...)".toList
  | mixedValues keyword =>
      "Cannot mix numeric and fudge values in ".toList ++ keyword ++ "(...)".toList
  | invalidValues keyword arguments =>
      "Invalid value list for ".toList ++ keyword ++ ": ".toList ++ quoted arguments
  | needsNumber keyword =>
      "Action ".toList ++ quoted keyword ++ " needs a number, e.g. ".toList ++ keyword ++
        "(2)".toList
  | afterCount => "count must be the last element of a request".toList
  | unbalanced => "Unbalanced ')'".toList
  | diceAfterActions => "Dice must come before actions".toList
  | noDice => "No dice to roll".toList
  | identifierExpected => "Expected an identifier after '('".toList
  | invalidIdentifier word =>
      "Invalid identifier ".toList ++ quoted word ++
        ": expected an uppercase letter followed by uppercase letters, digits or '_'".toList
  | groupWithoutDice name => "Group ".toList ++ name ++ " needs a dice".toList
  | nestedGroup => "Groups cannot be nested".toList
  | countInGroup => "count cannot be used inside a group".toList
  | unclosedGroup name => "Group ".toList ++ name ++ " is missing its closing ')'".toList

/-- The numbers that the message writes out. -/
def numbers : Cause → List Int
  | tooManySides sides most => [sides, most]
  | refused fault => fault.numbers
  | _ => []

end Cause

structure Fault where
  cause : Cause
  fragment : Text
  position : Option Int
  deriving DecidableEq

namespace Fault

def message (f : Fault) : Text :=
  match f.position with
  | none => f.cause.message
  | some p => f.cause.message ++ " (at position ".toList ++ numeral p ++ [')']

def numbers (f : Fault) : List Int := f.cause.numbers ++ f.position.toList

end Fault
end TabletopDice.Notation
