import TabletopDice.Text.Quoted
import TabletopDice.Value.Basic

/-!
# Candidates

What a caller may hand in where a value or a count is wanted.  Only a `value` can be accepted; the
other forms exist to be refused, and `spelling` is how the refusal quotes them.
-/

namespace TabletopDice

inductive Candidate where
  | value (v : Value)
  | truth (b : Bool)
  | nothing
  /-- A number with a fractional part, as it is written. -/
  | fraction (digits : Text)
  | word (text : Text)
  deriving DecidableEq

namespace Candidate

def faceName : Face → Text
  | .minus => "minus".toList
  | .blank => "blank".toList
  | .plus => "plus".toList

def spelling : Candidate → Text
  | .value (.number n) => numeral n
  | .value (.face f) =>
      "<FudgeRoll.".toList ++ faceName f ++ [':', ' '] ++ quoted f.text ++ ['>']
  | .truth true => "True".toList
  | .truth false => "False".toList
  | .nothing => "None".toList
  | .fraction digits => digits
  | .word text => quoted text

def number? : Candidate → Option Int
  | .value v => v.number?
  | _ => none

/-- The numbers in the candidate's spelling. -/
def numbers : Candidate → List Int
  | .value v => v.numbers
  | _ => []

end Candidate
end TabletopDice
