import TabletopDice.CommandLine.Workspace
import TabletopDice.Text.Basic
import TabletopDice.Text.Numeral

/-!
# Command-line arguments

A request is given in the command or in a file, not both.  Options may be abbreviated as long as
they stay unambiguous, and a value may be attached to its option.  Behind a double dash nothing is
an option any more; negative numbers and arguments with a space are none either.  Whether a double
dash that is attached to an option is its value depends on who reads the arguments, so it is one of
the preferences.
-/

namespace TabletopDice.CommandLine

inductive Flag where
  | help
  | file
  | save
  | seed
  | autoTotal
  deriving DecidableEq

namespace Flag

def all : List Flag := [help, file, save, seed, autoTotal]

def long : Flag → Text
  | help => "--help".toList
  | file => "--file".toList
  | save => "--save".toList
  | seed => "--seed".toList
  | autoTotal => "--auto-total".toList

def short? : Flag → Option Text
  | help => some "-h".toList
  | file => some "-f".toList
  | save => some "-s".toList
  | seed | autoTotal => none

def ofName? (name : Text) : Option Flag :=
  all.find? fun f ↦ f.long = name ∨ f.short? = some name

def ofAbbreviation (stem : Text) : List Flag := all.filter fun f ↦ stem.isPrefixOf f.long

end Flag

/-- Why the arguments are not carried out. -/
inductive Stop where
  | help
  | usage
  deriving DecidableEq

/-- What one argument is taken for. -/
inductive Mark where
  | value (text : Text)
  | flag (f : Flag) (attached : Option Text)
  /-- The short option for help with further letters behind it. -/
  | cluster (letters : Text)
  | separator
  | unknown
  deriving DecidableEq

/-- What stands behind the first equals sign, if there is one. -/
def attachment? (argument : Text) : Option Text :=
  match argument.dropWhile (· != '=') with
  | [] => none
  | _ :: attached => some attached

/-- A minus sign in front of digits, with or without a point among them. -/
def isNegativeNumber (argument : Text) : Bool :=
  let body := if argument.getLast? = some '\n' then argument.dropLast else argument
  match body with
  | '-' :: digits =>
      isDigitRun digits ||
        match digits.dropWhile isDigit with
        | '.' :: fraction => isDigitRun fraction
        | _ => false
  | _ => false

namespace Mark

def ofShort (f : Flag) (attached : Text) : Mark :=
  if f = .help ∧ attached ≠ [] then cluster attached else flag f (some attached)

/-- An argument that begins with a dash and is no option by its full name. -/
def ofDashed (argument : Text) : Mark :=
  if isNegativeNumber argument ∨ ' ' ∈ argument then value argument else unknown

def ofLong (argument : Text) : Except Stop Mark :=
  match Flag.ofAbbreviation (argument.takeWhile (· != '=')) with
  | [] => .ok (ofDashed argument)
  | [f] => .ok (flag f (attachment? argument))
  | _ => .error .usage

def ofOption (argument : Text) : Except Stop Mark :=
  match Flag.ofName? (argument.takeWhile (· != '=')), attachment? argument with
  | some f, some attached => .ok (flag f (some attached))
  | _, _ =>
      if "--".toList.isPrefixOf argument then ofLong argument
      else match Flag.ofName? (argument.take 2) with
        | some f => .ok (ofShort f (argument.drop 2))
        | none => .ok (ofDashed argument)

def ofArgument (argument : Text) : Except Stop Mark :=
  match argument with
  | '-' :: _ :: _ =>
      match Flag.ofName? argument with
      | some f => .ok (flag f none)
      | none => ofOption argument
  | _ => .ok (value argument)

/-- Behind a double dash every argument is a value. -/
def ofArguments : List Text → Except Stop (List Mark)
  | [] => .ok []
  | argument :: rest =>
      if argument = "--".toList then .ok (separator :: rest.map value)
      else do return (← ofArgument argument) :: (← ofArguments rest)

end Mark

/-- A blank that may stand around a number: the information separators may not. -/
def isNumberBlank (c : Char) : Bool := isBlank c && !(0x1C ≤ c.toNat && c.toNat ≤ 0x1F)

/-- The digits of a number, which single underscores may group. -/
def groupedDigits? (text : Text) : Option Nat :=
  let groups := text.splitOn '_'
  let digits := groups.flatten
  if groups.all isDigitRun ∧ digits.length ≤ digitLimit then some (digitsValue digits) else none

/-- Reads a seed, with blanks around it and a sign in front. -/
def readSeed? (text : Text) : Option Int :=
  match trimmed isNumberBlank text with
  | '-' :: digits => (groupedDigits? digits).map fun n ↦ -(n : Int)
  | '+' :: digits => (groupedDigits? digits).map Int.ofNat
  | digits => (groupedDigits? digits).map Int.ofNat

/-- What becomes of a double dash that is attached to an option.  Older readers of arguments drop it
like any other, and leave the option without a value; newer ones take it for the value. -/
inductive AttachedDash where
  | dropped
  | kept
  deriving DecidableEq

/-- What holds when an argument does not say otherwise. -/
structure Preferences where
  autoTotal : Bool := false
  seed : Option Int := none
  attachedDash : AttachedDash := .dropped
  deriving DecidableEq

/-- What an option is set to. -/
inductive Setting (α : Type) where
  | unset
  /-- The option was given, but its value was dropped. -/
  | empty
  | given (value : α)
  deriving DecidableEq

namespace Setting

def ofOption {α : Type} : Option α → Setting α
  | none => unset
  | some value => given value

def ofText (dash : AttachedDash) (text : Text) : Setting Text :=
  if dash = .dropped ∧ text = "--".toList then empty else given text

def map {α β : Type} (f : α → β) : Setting α → Setting β
  | unset => unset
  | empty => empty
  | given value => given (f value)

/-- Reads the value, if there is one. -/
def read? {α β : Type} (f : α → Option β) : Setting α → Option (Setting β)
  | unset => some unset
  | empty => some empty
  | given value => (f value).map given

def value? {α : Type} : Setting α → Option α
  | given value => some value
  | _ => none

end Setting

/-- The arguments gathered so far. -/
structure Gathered where
  dice : Option Text
  file : Setting Text
  save : Setting Text
  seed : Setting Int
  autoTotal : Bool
  /-- Whether there was an argument that nothing asked for. -/
  surplus : Bool

namespace Gathered

def start (p : Preferences) : Gathered :=
  ⟨none, .unset, .unset, .ofOption p.seed, p.autoTotal, false⟩

def takeDice (g : Gathered) (text : Text) : Except Stop Gathered :=
  if g.file = .unset then .ok { g with dice := some text } else .error .usage

/-- Takes the value of an option. -/
def takeValue (g : Gathered) (dash : AttachedDash) (f : Flag) (text : Text) :
    Except Stop Gathered :=
  match f with
  | .file =>
      if g.dice.isSome then .error .usage
      else .ok { g with file := (Setting.ofText dash text).map normalPath }
  | .save => .ok { g with save := (Setting.ofText dash text).map normalPath }
  | .seed =>
      match (Setting.ofText dash text).read? readSeed? with
      | some seed => .ok { g with seed }
      | none => .error .usage
  | .help | .autoTotal => .error .usage

/-- Whether the letters behind the short option for help are short options too.  One that takes a
value takes what stands behind it, letters or the next argument. -/
def endsInHelp (next : Option Mark) : Text → Bool
  | [] => true
  | letter :: rest =>
      match Flag.ofName? ['-', letter] with
      | some .help => endsInHelp next rest
      | some _ =>
          !rest.isEmpty ||
            match next with
            | some (.value _) => true
            | _ => false
      | none => false

def gather (g : Gathered) (dash : AttachedDash) : List Mark → Except Stop Gathered
  | [] => .ok g
  | .value text :: .separator :: rest =>
      if g.dice.isNone then do (← g.takeDice text).gather dash rest
      else gather { g with surplus := true } dash rest
  | .value text :: rest =>
      if g.dice.isNone then do (← g.takeDice text).gather dash rest
      else gather { g with surplus := true } dash rest
  | .separator :: rest => gather { g with surplus := g.surplus || g.dice.isSome } dash rest
  | .unknown :: rest => gather { g with surplus := true } dash rest
  | .cluster letters :: rest =>
      .error (if endsInHelp rest.head? letters then .help else .usage)
  | .flag .help none :: _ => .error .help
  | .flag .autoTotal none :: rest => gather { g with autoTotal := true } dash rest
  | .flag f (some text) :: rest => do (← g.takeValue dash f text).gather dash rest
  | .flag f none :: .value text :: rest => do (← g.takeValue dash f text).gather dash rest
  | .flag _ none :: _ => .error .usage

end Gathered

/-- Where the request text comes from. -/
inductive Source where
  | text (request : Text)
  | file (path : Text)
  /-- The option for a file was given, but the file was dropped. -/
  | nowhere
  deriving DecidableEq

structure Arguments where
  source : Source
  save : Option Text
  seed : Setting Int
  autoTotal : Bool
  deriving DecidableEq

/-- The source that the arguments name, unless they name none. -/
def Gathered.source? (g : Gathered) : Option Source :=
  match g.dice, g.file with
  | some request, _ => some (.text request)
  | none, .given path => some (.file path)
  | none, .empty => some .nowhere
  | none, .unset => none

/-- Reads the arguments of a command. -/
def Arguments.ofList (p : Preferences) (arguments : List Text) : Except Stop Arguments := do
  let g ← (Gathered.start p).gather p.attachedDash (← Mark.ofArguments arguments)
  match g.surplus, g.source? with
  | false, some source => return ⟨source, g.save.value?, g.seed, g.autoTotal⟩
  | _, _ => .error .usage

end TabletopDice.CommandLine
