import TabletopDice.Request

/-!
# Plans

Everything that a request text asks for: the requests of either kind, the actions that apply to all
of them, and whether the values are counted in the end.
-/

namespace TabletopDice

structure Plan where
  numeric : List Request
  fudge : List Request
  actions : List Action
  counts : Bool
  deriving DecidableEq

namespace Plan

def empty : Plan := ⟨[], [], [], false⟩

/-- All requests, the numeric ones first. -/
def requests (p : Plan) : List Request := p.numeric ++ p.fudge

def addRequest (p : Plan) (r : Request) : Plan :=
  match r.kind with
  | .numeric => { p with numeric := p.numeric ++ [r] }
  | .fudge => { p with fudge := p.fudge ++ [r] }

def addAction (p : Plan) (a : Action) : Plan := { p with actions := p.actions ++ [a] }

end Plan
end TabletopDice
