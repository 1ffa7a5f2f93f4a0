import TabletopDice.Notation.DiceWord
import TabletopDice.Notation.Token
import TabletopDice.Text.Lowercase

/-!
# Action words

How a single action is written: `x10` for a multiplication, or a keyword, with arguments in
parentheses for those actions that take some.  Blanks around an argument do not matter.
-/

namespace TabletopDice.Notation

/-- A word in the form of an action: a keyword, perhaps with something in parentheses. -/
structure ActionWord where
  keyword : Text
  arguments : Option Text
  deriving DecidableEq

def isKeywordChar (c : Char) : Bool := isAsciiLowercase c || c == '-'

/-- What stands between a pair of parentheses that makes up the whole text. -/
def argumentsOf? : Text → Option Text
  | '(' :: rest =>
      match rest.dropWhile fun c ↦ !isParenthesis c with
      | [')'] => some (rest.takeWhile fun c ↦ !isParenthesis c)
      | _ => none
  | _ => none

/-- The factor of a multiplication, as a run of digits. -/
def factorOf? (text : Text) : Option Text :=
  match withoutFinalBreak text with
  | 'x' :: factor => if isDigitRun factor then some factor else none
  | _ => none

def ActionWord.ofText? (text : Text) : Option ActionWord :=
  let word := withoutFinalBreak text
  let keyword := word.takeWhile isKeywordChar
  if keyword.head?.any isAsciiLowercase then
    match word.dropWhile isKeywordChar with
    | [] => some ⟨keyword, none⟩
    | rest => (argumentsOf? rest).map fun arguments ↦ ⟨keyword, some arguments⟩
  else none

def faceOf? (word : Text) : Option Face :=
  [Face.plus, Face.minus, Face.blank].find? fun f ↦ f.word = word

/-- Reads a comma-separated list of triggers, all numbers or all faces. -/
def readTriggers (keyword arguments word : Text) (position : Option Int) :
    Except Failure (Kind × ValueSet) := do
  let items := (arguments.splitOn ',').map stripped
  if items.any List.isEmpty then blame (.emptyValue keyword) word position
  else if items.all isDigitRun then
    let numbers ← items.mapM readDigits
    return (.numeric, ValueSet.ofList (numbers.map fun n : Nat ↦ .number n))
  else if items.all fun item ↦ (faceOf? item).isSome then
    return (.fudge, ValueSet.ofList ((items.filterMap faceOf?).map .face))
  else if items.any isDigitRun ∧ items.any fun item ↦ (faceOf? item).isSome then
    blame (.mixedValues keyword) word position
  else blame (.invalidValues keyword arguments) word position

/-- Reads the arguments of an action that needs triggers. -/
def readTriggerAction (make : Kind → ValueSet → Action) (w : ActionWord) (word : Text)
    (position : Option Int) : Except Failure Action :=
  match w.arguments with
  | none => blame (.needsValues w.keyword) word position
  | some arguments =>
      if (stripped arguments).isEmpty then blame (.needsValues w.keyword) word position
      else do
        let (kind, triggers) ← readTriggers w.keyword arguments word position
        return make kind triggers

/-- Reads the argument of an action that needs a number. -/
def readNumberAction (make : Int → Action) (w : ActionWord) (word : Text)
    (position : Option Int) : Except Failure Action :=
  match w.arguments.map stripped with
  | none => blame (.needsNumber w.keyword) word position
  | some argument =>
      if isDigitRun argument then do return make (← readDigits argument)
      else blame (.needsNumber w.keyword) word position

/-- Accepts an action that takes no arguments. -/
def readPlainAction (a : Action) (w : ActionWord) (word : Text) (position : Option Int) :
    Except Failure Action :=
  if w.arguments.isNone then .ok a else blame (.takesNoArguments w.keyword) word position

/-- Reads a word as an action. -/
def readAction (word : Text) (position : Option Int) : Except Failure Action :=
  match factorOf? word with
  | some factor => do return .multiply (← readDigits factor)
  | none =>
      match ActionWord.ofText? word with
      | none => blame (.unknownAction word) word position
      | some w =>
          match Keyword.ofText? w.keyword with
          | none => blame (.unknownAction w.keyword) word position
          | some .flip => readPlainAction .flip w word position
          | some .sum => readPlainAction .sum w word position
          | some .total => readPlainAction .total w word position
          | some .reroll => readTriggerAction .reroll w word position
          | some .explode => readTriggerAction .explode w word position
          | some (.keep which) => readNumberAction (.keep which) w word position
          | some (.rerollExtreme which) => readNumberAction (.rerollExtreme which) w word position

end TabletopDice.Notation
