import TabletopDice.Text.Numeral
import TabletopDice.Text.Quoted
import TabletopDice.Text.Utf8

/-!
# Files and directories

The files and directories that a command can see, and what happens when one of them is read or
written.  A path is followed name by name, so that a name which does not exist is a fault even if
two dots come behind it; there are no links.  Anything else that the operating system may have
against a file is a hindrance.  It keeps the file from being opened, or from being read or written
to its end, and a file that is not written to its end holds only the beginning of what it should.
-/

namespace TabletopDice.CommandLine

/-- The names in a path; a single dot is none. -/
def pathNames (path : Text) : List Text :=
  (path.splitOn '/').filter fun name ↦ name ≠ [] ∧ name ≠ ['.']

/-- A path without empty parts and single dots. -/
def normalPath (path : Text) : Text :=
  let slashes := (path.takeWhile (· == '/')).length
  let root : Text := if slashes = 2 then ['/', '/'] else if slashes = 0 then [] else ['/']
  match root ++ ['/'].intercalate (pathNames path) with
  | [] => ['.']
  | normal => normal

/-- The names on the way from the root of all directories to a file or directory. -/
abbrev Location := List Text

/-- One step on the way: up for two dots, otherwise down to what has the name. -/
def Location.step (l : Location) (name : Text) : Location :=
  if name = ['.', '.'] then l.dropLast else l ++ [name]

/-- What the operating system says when it does not go on: the number of an error, and a reason. -/
structure Refusal where
  number : Nat
  reason : Text
  deriving DecidableEq

def Refusal.text (r : Refusal) : Text :=
  "[Errno ".toList ++ natNumeral r.number ++ "] ".toList ++ r.reason

inductive Access where
  | reading
  | writing
  deriving DecidableEq

/-- What keeps a file from being read or written. -/
inductive Hindrance where
  | atOpening (r : Refusal)
  /-- Only so many bytes pass. -/
  | halfway (r : Refusal) (passed : Nat)
  deriving DecidableEq

structure Workspace where
  files : List (Location × Bytes)
  directories : List Location
  /-- The directory in which relative paths begin. -/
  current : Location
  /-- What the operating system has against reading or writing at a path. -/
  hindrances : List ((Access × Text) × Hindrance) := []
  deriving DecidableEq

inductive StorageCause where
  | missing
  | notDirectory
  | isDirectory
  | nameTooLong
  /-- No path may hold a null character. -/
  | nullCharacter
  /-- The file is not opened for another reason. -/
  | refused (r : Refusal)
  /-- The file is opened, but not read or written to its end. -/
  | brokenOff (r : Refusal)
  deriving DecidableEq

/-- A path that cannot be read or written. -/
structure StorageFault where
  cause : StorageCause
  path : Text
  deriving DecidableEq

/-- The path is told unless the file was open already. -/
def StorageFault.message (f : StorageFault) : Text :=
  let refusal (r : Refusal) : Text := r.text ++ ": ".toList ++ quoted f.path
  match f.cause with
  | .missing => refusal ⟨2, "No such file or directory".toList⟩
  | .notDirectory => refusal ⟨20, "Not a directory".toList⟩
  | .isDirectory => refusal ⟨21, "Is a directory".toList⟩
  | .nameTooLong => refusal ⟨36, "File name too long".toList⟩
  | .nullCharacter => "embedded null byte".toList
  | .refused r => refusal r
  | .brokenOff r => r.text

/-- The greatest number of bytes of a path, and of a name in it. -/
def pathLimit : Nat := 4095

def nameLimit : Nat := 255

namespace Workspace

/-- Whatever lies above something known is a directory. -/
def isDirectory (w : Workspace) (l : Location) : Bool :=
  (w.current :: w.directories ++ w.files.map fun f ↦ f.1.dropLast).any l.isPrefixOf

def file? (w : Workspace) (l : Location) : Option Bytes := w.files.lookup l

/-- Where a path begins. -/
def origin (w : Workspace) (path : Text) : Location :=
  if path.head? = some '/' then [] else w.current

/-- Follows names from a location.  Every step must start in a directory. -/
def follow (w : Workspace) (l : Location) : List Text → Except StorageCause Location
  | [] => .ok l
  | name :: rest =>
      if w.isDirectory l then
        if nameLimit < (Utf8.encode name).length then .error .nameTooLong
        else w.follow (l.step name) rest
      else if (w.file? l).isSome then .error .notDirectory
      else .error .missing

/-- Where a path leads.  There may be a file, or nothing yet, but no directory. -/
def find (w : Workspace) (path : Text) : Except StorageCause Location := do
  if '\x00' ∈ path then .error .nullCharacter
  if pathLimit < (Utf8.encode path).length then .error .nameTooLong
  let l ← w.follow (w.origin path) (pathNames path)
  if w.isDirectory l then .error .isDirectory else return l

/-- The operating system never sees a path with a null character. -/
def hindrance? (w : Workspace) (access : Access) (path : Text) : Option Hindrance :=
  if '\x00' ∈ path then none else w.hindrances.lookup (access, path)

/-- Where a file is that is opened. -/
def opened (w : Workspace) (access : Access) (path : Text) : Except StorageCause Location :=
  match w.hindrance? access path with
  | some (.atOpening r) => .error (.refused r)
  | _ => w.find path

def read (w : Workspace) (path : Text) : Except StorageFault Bytes :=
  match w.opened .reading path with
  | .error cause => .error ⟨cause, path⟩
  | .ok l =>
      match w.file? l, w.hindrance? .reading path with
      | none, _ => .error ⟨.missing, path⟩
      | some _, some (.halfway r _) => .error ⟨.brokenOff r, path⟩
      | some bytes, _ => .ok bytes

/-- The workspace with these bytes in the file at this place. -/
def place (w : Workspace) (l : Location) (bytes : Bytes) : Workspace :=
  { w with files := (l, bytes) :: w.files.filter fun f ↦ f.1 ≠ l }

/-- Whether the file was written, and what there is afterwards in either case. -/
def write (w : Workspace) (path : Text) (bytes : Bytes) : Except StorageFault Unit × Workspace :=
  match w.opened .writing path with
  | .error cause => (.error ⟨cause, path⟩, w)
  | .ok l =>
      match w.hindrance? .writing path with
      | some (.halfway r passed) => (.error ⟨.brokenOff r, path⟩, w.place l (bytes.take passed))
      | _ => (.ok (), w.place l bytes)

end Workspace
end TabletopDice.CommandLine
