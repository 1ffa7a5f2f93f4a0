import TabletopDice.Tally

/-!
# Sessions

A session holds the current rolls of a list of requests of one kind.  Starting it rolls every
request once.
-/

namespace TabletopDice

structure Session where
  kind : Kind
  requests : List Request
  results : List Rolls
  /-- Whether a total or a count has ended the session. -/
  terminated : Bool
  deriving DecidableEq

/-- The rolls of a request before any action. -/
def Request.roll (r : Request) : Rolling Rolls := do
  let values ← r.dice.roll r.number
  checkWritable r.numbers
  return ⟨r.kind, r.text, values, some r⟩

namespace Session

/-- Rolls all requests, provided that every one of them is of the session's kind. -/
def start (kind : Kind) (requests : List Request) : Rolling Session :=
  match requests.find? fun r ↦ r.kind ≠ kind with
  | some r => Rolling.fail (.incompatible .roll kind (.otherKind r))
  | none => do return ⟨kind, requests, ← requests.mapM Request.roll, false⟩

/-- A session of counts: it has ended, and no request belongs to it. -/
def ofCounts (counts : List Rolls) : Session := ⟨.numeric, [], counts, true⟩

/-- The results, one to a line. -/
def text (s : Session) : Text := Rolls.lines s.results

def numbers (s : Session) : List Int := s.results.flatMap Rolls.numbers

end Session
end TabletopDice
