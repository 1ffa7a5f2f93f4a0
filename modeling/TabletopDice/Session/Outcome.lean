import TabletopDice.Notation.Reader
import TabletopDice.Session.Step

/-!
# Outcomes

Running a plan rolls the numeric requests and takes them through all their actions, and then does
the same with the fudge requests.  Counts of fudge values join those of the numbers.
-/

namespace TabletopDice

/-- The sessions that a plan leads to, at most one of either kind. -/
structure Outcome where
  numeric : Option Session
  fudge : Option Session
  deriving DecidableEq

namespace Outcome

def sessions (o : Outcome) : List Session := o.numeric.toList ++ o.fudge.toList

def results (o : Outcome) : List Rolls := o.sessions.flatMap Session.results

def text (o : Outcome) : Text := ['\n'].intercalate (o.sessions.map Session.text)

def numbers (o : Outcome) : List Int := o.sessions.flatMap Session.numbers

/-- The text of the outcome, all of whose numbers must be writable. -/
def report (o : Outcome) : Except Failure Text := do
  checkWritable o.numbers
  return o.text

end Outcome

namespace Session

/-- The session after some steps. -/
def after (s : Session) (play : Play Unit) : Rolling Session := fun draws ↦
  match play.run ⟨s, draws⟩ with
  | .ok _ table => .ok table.session table.draws
  | .error f table => .error f table.draws

/-- All steps of a session from the private actions to the count. -/
def pipeline (actions : List Action) (counts : Bool) : Play Unit := do
  runActions actions
  if counts then Play.setSession (← counted)

/-- Rolls requests of one kind and takes them through all steps, if there are any. -/
def run? (kind : Kind) (requests : List Request) (actions : List Action) (counts : Bool) :
    Rolling (Option Session) :=
  if requests.isEmpty then return none
  else do
    let s ← start kind requests
    return some (← s.after (pipeline actions counts))

/-- Two sessions of counts in one. -/
def joinCounts : Option Session → Option Session → Option Session
  | some s, some t => some { s with results := s.results ++ t.results }
  | some s, none => some s
  | none, t => t

end Session

namespace Plan

/-- The actions for numeric results: a total is added on request if there is nothing else to do. -/
def numericActions (p : Plan) (autoTotal : Bool) : List Action :=
  if autoTotal ∧ p.actions = [] ∧ ¬p.counts then [.total] else p.actions

def run (p : Plan) (autoTotal : Bool) : Rolling Outcome := do
  let numeric ← Session.run? .numeric p.numeric (p.numericActions autoTotal) p.counts
  let fudge ← Session.run? .fudge p.fudge p.actions p.counts
  return if p.counts then ⟨Session.joinCounts numeric fudge, none⟩ else ⟨numeric, fudge⟩

end Plan

/-- Reads a request text, rolls it and applies every action. -/
def roll (limits : Limits) (text : Text) (autoTotal : Bool) : Rolling Outcome := do
  let plan ← Notation.readPlan limits text
  plan.run autoTotal

end TabletopDice
