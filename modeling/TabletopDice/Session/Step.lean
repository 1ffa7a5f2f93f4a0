import TabletopDice.Session.Basic

/-!
# Steps of a session

The private actions of the requests come first, then actions for all results, then perhaps a total
or a count.  A total or a count ends the session: no step is accepted afterwards.

The steps run on a table, where the session lies together with the draws that are left.  A step
that fails leaves the draws it took and nothing else.
-/

namespace TabletopDice

structure Table where
  session : Session
  draws : Draws

/-- A computation that changes the table and may fail. -/
abbrev Play := EStateM Failure Table

namespace Play

/-- Rolls with the draws on the table. -/
def ofRolling {α : Type} (roll : Rolling α) : Play α := fun table ↦
  match roll.run table.draws with
  | .ok a rest => .ok a { table with draws := rest }
  | .error f rest => .error f { table with draws := rest }

instance : MonadLift Rolling Play := ⟨ofRolling⟩

def session : Play Session := return (← get).session

def setSession (s : Session) : Play Unit := modify fun table ↦ { table with session := s }

def setResults (results : List Rolls) : Play Unit :=
  modify fun table ↦ { table with session := { table.session with results } }

/-- Fails if a total or a count has ended the session. -/
def ensureOpen (attempt : Attempt) : Play Unit := do
  let s ← session
  if s.terminated then Rolling.fail (.incompatible attempt s.kind .terminated)

end Play

/-- Applies the private actions of the request behind the rolls. -/
def Rolls.applyOwn (r : Rolls) : Rolling Rolls :=
  match r.origin with
  | some request => Action.applyAll request.actions r
  | none => Rolling.fail (.misuse .noRequest)

namespace Session

def applyRequestActions : Play Unit := do
  Play.ensureOpen .requestActions
  let results := (← Play.session).results
  Play.setResults (← Play.ofRolling (results.mapM Rolls.applyOwn))

/-- Replaces all results by their total and ends the session. -/
def addTotal : Play Unit := do
  let s ← Play.session
  let total ← Rolls.total s.results
  Play.setSession { s with results := [total], terminated := true }

/-- Applies an action to every result.  A total looks at all results at once. -/
def addStep (a : Action) : Play Unit := do
  Play.ensureOpen (.action a)
  if a = .total then addTotal
  else
    let s ← Play.session
    if a.kind ≠ s.kind then Rolling.fail (.incompatible (.action a) s.kind .kind)
    Play.setResults (← Play.ofRolling (s.results.mapM a.apply))

/-- The counts of the values on the table, as a session of its own. -/
def counted : Play Session := do
  Play.ensureOpen .count
  return ofCounts (← Rolls.count (← Play.session).results)

/-- The private actions, then the given ones. -/
def runActions (actions : List Action) : Play Unit := do
  applyRequestActions
  actions.forM addStep

end Session

/-- One thing to do with the session on the table. -/
inductive Step where
  | requestActions
  | action (a : Action)
  /-- The private actions, then actions for all results. -/
  | run (actions : List Action)
  /-- Hands out the counts and leaves the session as it is. -/
  | count
  /-- Puts the counts in the place of the session. -/
  | enterCount

/-- Performs a step; a `count` hands out a session. -/
def Step.perform : Step → Play (Option Session)
  | requestActions => do
      Session.applyRequestActions
      return none
  | action a => do
      Session.addStep a
      return none
  | run actions => do
      Session.runActions actions
      return none
  | count => return some (← Session.counted)
  | enterCount => do
      Play.setSession (← Session.counted)
      return none

end TabletopDice
