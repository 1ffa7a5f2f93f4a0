import TabletopDice.Proofs.Rolling.Running
import TabletopDice.Proofs.Session.Representation

/-!
# From the first roll to the last action

A session that is started from its requests is taken through their private actions and then through
the common ones.  A count, if there is one, comes after all of that.
-/

namespace TabletopDice.Session

variable {kind : Kind} {requests : List Request} {actions : List Action}

/-- Rolls requests and takes them through their own actions and then through the given ones. -/
def through (kind : Kind) (requests : List Request) (actions : List Action) : Rolling Session := do
  let s ← start kind requests
  s.after (runActions actions)

theorem through_eq (kind : Kind) (requests : List Request) (actions : List Action) :
    through kind requests actions = (do
      let s ← start kind requests
      let t ← s.afterRequestActions
      actions.foldlM afterStep t) := by
  rw [through]
  exact bind_congr fun s ↦ after_runActions s actions

theorem run?_nil (kind : Kind) (actions : List Action) (counts : Bool) :
    run? kind [] actions counts = return none :=
  rfl

theorem run?_of_ne_nil (hne : requests ≠ []) (kind : Kind) (actions : List Action)
    (counts : Bool) :
    run? kind requests actions counts = (do
      let t ← through kind requests actions
      if counts then some <$> t.afterCount else return some t) := by
  rw [run?, if_neg (by simp [hne]), through_eq]
  simp only [after_pipeline, bind_assoc]
  refine bind_congr fun s ↦ bind_congr fun t ↦ bind_congr fun u ↦ ?_
  cases counts with
  | true => exact bind_pure_comp _ _
  | false => rfl

theorem through_represents (kind : Kind) (requests : List Request) (actions : List Action) :
    (through kind requests actions).Gives (Represents kind requests) fun _ ↦ True := by
  rw [through_eq]
  refine (start_represents kind requests).bind fun s hs ↦ ?_
  refine (afterRequestActions_represents hs).bind fun t ht ↦ ?_
  exact Rolling.gives_foldlM_of_keeps (fun _ a hu ↦ afterStep_represents hu a) ht

theorem run?_represents (kind : Kind) (requests : List Request) (actions : List Action) :
    (run? kind requests actions false).Gives (fun o ↦ ∀ s ∈ o, Represents kind requests s)
      fun _ ↦ True := by
  by_cases hne : requests = []
  · subst hne
    exact Rolling.gives_pure fun _ hs ↦ nomatch hs
  · rw [run?_of_ne_nil hne]
    refine (through_represents kind requests actions).bind fun s hs ↦ Rolling.gives_pure ?_
    rintro _ ⟨⟩
    exact hs

end TabletopDice.Session
