import TabletopDice.CommandLine.Performance

/-!
# The command

Collects what `CommandLine.perform` needs to know of the world: the files that the arguments name,
what hinders access to them, and random draws.  Draws are made from one generator, so a longer list
of them continues a shorter one, and a command that runs out of draws is performed again with more.
So is one whose report cannot be written, with the hindrance that has shown itself.
-/

namespace TabletopDice.CommandLine

/-- How many draws are made at first, and how often their number is doubled at most. -/
def firstDraws : Nat := 256

def doublings : Nat := 8

/-- Draws one after the other from a generator. -/
def randomDraws (generator : StdGen) : Nat → Draws
  | 0 => []
  | n + 1 =>
      let (d, next) := randNat generator 0 0x3FFFFFFFFFFFFFFF
      (d : Int) :: randomDraws next n

def generatorFor (seed : Option Int) : IO StdGen :=
  match seed with
  | some n => return mkStdGen (2 * n.natAbs + if n < 0 then 1 else 0)
  | none => IO.stdGenRef.get

/-- The path from the root to a location. -/
def Location.path (l : Location) : String := String.ofList ('/' :: ['/'].intercalate l)

/-- Adds what is found at a location, if anything. -/
def explore (w : Workspace) (l : Location) : IO Workspace := do
  try
    let bytes ← IO.FS.readBinFile l.path
    return { w with files := (l, bytes.toList) :: w.files }
  catch
    | .inappropriateType _ 21 _ => return { w with directories := l :: w.directories }
    | _ => return w

/-- The locations that a path goes through. -/
def passed (w : Workspace) (path : Text) : List Location :=
  let names := pathNames path
  (List.range (names.length + 1)).map fun k ↦ (names.take k).foldl Location.step (w.origin path)

/-- What the operating system has said, unless it is about what stands at the path. -/
def refusal? : IO.Error → Option Refusal
  | .permissionDenied _ number details | .resourceExhausted _ number details
  | .hardwareFault number details | .resourceBusy number details | .otherError number details =>
      some ⟨number.toNat, details.toList⟩
  | _ => none

def Workspace.hindered (w : Workspace) (access : Access) (path : Text) (r : Refusal) : Workspace :=
  { w with hindrances := ((access, path), .atOpening r) :: w.hindrances }

def Source.path? : Source → Option Text
  | .file path => some path
  | _ => none

/-- What there is at the paths that the arguments name, and on the way to them. -/
def surroundings (here : Workspace) (a : Arguments) : IO Workspace := do
  let named := a.save.toList ++ a.source.path?.toList
  let w ← (named.flatMap (passed here)).eraseDups.foldlM explore here
  let some path := a.source.path? | return w
  try
    let _ ← IO.FS.readBinFile (String.ofList path)
    return w
  catch e =>
    return (refusal? e).elim w (w.hindered .reading path)

/-- Performs a command with as many draws as it takes. -/
def performWithDraws (arguments : List Text) (w : Workspace) (generator : StdGen)
    (count : Nat) : Nat → Performance
  | 0 => perform {} {} arguments w (randomDraws generator count)
  | more + 1 =>
      let p := perform {} {} arguments w (randomDraws generator count)
      if p.ending = .interrupted (.failure .noDrawLeft) then
        performWithDraws arguments w generator (2 * count) more
      else p

/-- Writes the files that a command has changed. -/
def writeChanges (before after : Workspace) : IO Unit :=
  for (l, bytes) in after.files do
    if before.file? l ≠ some bytes then
      IO.FS.writeBinFile l.path ⟨bytes.toArray⟩

/-- Performs a command and writes what it saves. -/
def performAndWrite (arguments : List Text) (w : Workspace) (save : Option Text)
    (generator : StdGen) : IO Performance := do
  let p := performWithDraws arguments w generator firstDraws doublings
  try
    writeChanges w p.workspace
    return p
  catch e =>
    match save, refusal? e with
    | some path, some r =>
        return performWithDraws arguments (w.hindered .writing path r) generator firstDraws
          doublings
    | _, _ => throw e

end TabletopDice.CommandLine

open TabletopDice TabletopDice.CommandLine in
def main (args : List String) : IO UInt32 := do
  let arguments := args.map String.toList
  let here : Workspace :=
    { files := [], directories := [], current := pathNames (← IO.currentDir).toString.toList }
  let (w, save, seed) ← match Arguments.ofList {} arguments with
    | .ok a => pure (← surroundings here a, a.save, a.seed.value?)
    | .error _ => pure (here, none, none)
  let p ← performAndWrite arguments w save (← generatorFor seed)
  IO.print (String.ofList p.output)
  match p.ending with
  | .exit code =>
      if code = 2 then IO.eprint (String.ofList usageText)
      return code.toUInt32
  | .interrupted trouble =>
      IO.eprintln (String.ofList trouble.message)
      return 1
