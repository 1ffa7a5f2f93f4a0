import TabletopDice.Candidate

/-!
# Why a dice or a request for one is refused
-/

namespace TabletopDice

inductive DiceFault where
  | unsupportedValue (got : Candidate)
  | noSides (got : Candidate)
  | emptyCycle
  | mixedCycle
  | noMaximum
  | countNotWhole (got : Candidate)
  | countOutOfBounds (most got : Int)
  | invalidIdentifier (got : Text)
  | unknownDice (name : Text)
  deriving DecidableEq

namespace DiceFault

def message : DiceFault → Text
  | unsupportedValue got => "Unsupported dice value: ".toList ++ got.spelling
  | noSides got => "A numbered dice needs at least one side, got ".toList ++ got.spelling
  | emptyCycle => "A repeating dice needs at least one value".toList
  | mixedCycle => "A repeating dice cannot mix numeric and fudge values".toList
  | noMaximum => "Fudge dice have no maximum value".toList
  | countNotWhole got => "Roll count must be an integer, got ".toList ++ got.spelling
  | countOutOfBounds most got =>
      "Roll count must be between 1 and ".toList ++ numeral most ++ ", got ".toList ++ numeral got
  | invalidIdentifier got => "Invalid identifier: ".toList ++ quoted got
  | unknownDice name => "Don't know how to roll ".toList ++ quoted name

/-- The numbers that the message writes out. -/
def numbers : DiceFault → List Int
  | unsupportedValue got | noSides got | countNotWhole got => got.numbers
  | countOutOfBounds most got => [most, got]
  | _ => []

end DiceFault
end TabletopDice
