import TabletopDice.CommandLine.Arguments
import TabletopDice.Session.Outcome

/-!
# Performing a command

Reads the request, rolls it, shows the report and saves it if asked to.  A fault of the request, of
the dice or of a file is shown as a failure.  Other troubles interrupt the command: a number that is
too long to read or write, a file that is not UTF-8, a null character in a path, and, where a double
dash attached to an option is dropped, no request at all or no seed for the source of draws.  What a
command shows always gets through.
-/

namespace TabletopDice.CommandLine

/-- What keeps a command from its end. -/
inductive Trouble where
  | failure (f : Failure)
  | storage (fault : StorageFault)
  | encoding (fault : Utf8.Fault)
  | noRequest
  /-- A seed was asked for, but its value was dropped. -/
  | noSeed
  deriving DecidableEq

inductive Ending where
  | exit (code : Nat)
  | interrupted (cause : Trouble)
  deriving DecidableEq

/-- What a command leaves behind. -/
structure Performance where
  output : Text
  ending : Ending
  /-- The seed handed to the source of draws; a command that stops early has asked for none. -/
  seeds : List (Setting Int)
  workspace : Workspace
  draws : Draws

namespace Trouble

/-- Whether the command ends with a line about the trouble, and is not interrupted. -/
def isShown : Trouble → Bool
  | failure (.unreadable _) | failure (.incompatible _ _ _) => true
  | failure (.badDice _) | failure (.badSelection _) => true
  | storage fault => fault.cause ≠ .nullCharacter
  | _ => false

def message : Trouble → Text
  | failure f => f.message
  | storage fault => fault.message
  | encoding fault => fault.message
  | noRequest => "'NoneType' object has no attribute 'strip'".toList
  | noSeed =>
      "The only supported seed types are: None,\nint, float, str, bytes, and bytearray.".toList

end Trouble

def failureLine (message : Text) : Text := "FAILURE : ".toList ++ message ++ ['\n']

def reportLines (report : Text) : Text := "Rolling...\n".toList ++ report ++ ['\n']

/-- What is saved of a report. -/
def savedBytes (report : Text) : Bytes := Utf8.encode (report ++ ['\n'])

def savedLine (path : Text) : Text := "Wrote results to file ".toList ++ path ++ ['\n']

def usageText : Text :=
  "usage: [-h] [-f FILE] [-s SAVE] [--seed SEED] [--auto-total] [dice]\n".toList

/-- How a command ends because of a trouble, after it has shown something. -/
def Performance.ofTrouble (shown : Text) (t : Trouble) (seeds : List (Setting Int))
    (w : Workspace) (draws : Draws) : Performance :=
  if t.isShown then ⟨shown ++ failureLine t.message, .exit 1, seeds, w, draws⟩
  else ⟨shown, .interrupted t, seeds, w, draws⟩

/-- The request text; that of a file has every line break as a line feed. -/
def Source.read (s : Source) (w : Workspace) : Except Trouble Text :=
  match s with
  | .text request => .ok request
  | .nowhere => .error .noRequest
  | .file path =>
      match w.read path with
      | .error fault => .error (.storage fault)
      | .ok bytes =>
          match Utf8.decode bytes with
          | .ok decoded => .ok (unifiedBreaks decoded)
          | .error fault => .error (.encoding fault)

/-- Rolls a request text, without the blanks around it, and writes the report. -/
def rollReport (limits : Limits) (request : Text) (autoTotal : Bool) : Rolling Text := do
  let outcome ← roll limits (stripped request) autoTotal
  outcome.report

/-- Shows the report and saves it, if asked to. -/
def present (a : Arguments) (report : Text) (w : Workspace) (left : Draws) : Performance :=
  match a.save with
  | none => ⟨reportLines report, .exit 0, [a.seed], w, left⟩
  | some path =>
      match w.write path (savedBytes report) with
      | (.ok _, after) => ⟨reportLines report ++ savedLine path, .exit 0, [a.seed], after, left⟩
      | (.error fault, after) => .ofTrouble (reportLines report) (.storage fault) [a.seed] after left

/-- Rolls a request and presents the report, or says why there is none. -/
def carryOut (limits : Limits) (a : Arguments) (request : Text) (w : Workspace)
    (draws : Draws) : Performance :=
  if a.seed = .empty then .ofTrouble [] .noSeed [a.seed] w draws
  else match (rollReport limits request a.autoTotal).run draws with
    | .ok report left => present a report w left
    | .error f left => .ofTrouble [] (.failure f) [a.seed] w left

/-- Performs a command whose arguments are in order. -/
def Arguments.perform (limits : Limits) (a : Arguments) (w : Workspace) (draws : Draws) :
    Performance :=
  match a.source.read w with
  | .error trouble => .ofTrouble [] trouble [] w draws
  | .ok request => carryOut limits a request w draws

/-- Performs a command. -/
def perform (limits : Limits) (p : Preferences) (arguments : List Text) (w : Workspace)
    (draws : Draws) : Performance :=
  match Arguments.ofList p arguments with
  | .error .usage => ⟨[], .exit 2, [], w, draws⟩
  | .error .help => ⟨usageText, .exit 0, [], w, draws⟩
  | .ok a => a.perform limits w draws

end TabletopDice.CommandLine
