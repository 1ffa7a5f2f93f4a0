import TabletopDice.Rolling.Basic

/-!
# Runs of several parts

What a run has come to when it has a result, and where it has stopped when it fails.
-/

namespace TabletopDice.Rolling

variable {α β : Type} {roll : Rolling α} {draws left : Draws} {f : Failure}

theorem run_bind_eq_ok_iff {next : α → Rolling β} {b : β} :
    (roll >>= next).run draws = .ok b left ↔
      ∃ a mid, roll.run draws = .ok a mid ∧ (next a).run mid = .ok b left := by
  rw [EStateM.run_bind]
  cases roll.run draws with
  | ok a mid =>
      refine ⟨fun h ↦ ⟨a, mid, rfl, h⟩, ?_⟩
      rintro ⟨_, _, heq, h⟩
      cases heq
      exact h
  | error g mid =>
      constructor
      · intro h
        cases h
      · rintro ⟨_, _, heq, _⟩
        cases heq

theorem run_bind_of_ok {next : α → Rolling β} {a : α} {mid : Draws}
    (h : roll.run draws = .ok a mid) : (roll >>= next).run draws = (next a).run mid := by
  rw [EStateM.run_bind, h]

theorem run_bind_of_error {next : α → Rolling β} (h : roll.run draws = .error f left) :
    (roll >>= next).run draws = .error f left := by
  rw [EStateM.run_bind, h]

theorem run_map_eq_ok_iff {g : α → β} {b : β} :
    (g <$> roll).run draws = .ok b left ↔ ∃ a, roll.run draws = .ok a left ∧ g a = b := by
  rw [← bind_pure_comp, run_bind_eq_ok_iff]
  constructor
  · rintro ⟨a, mid, heq, h⟩
    cases h
    exact ⟨a, heq, rfl⟩
  · rintro ⟨a, heq, rfl⟩
    exact ⟨a, left, heq, rfl⟩

theorem run_pure_eq_ok_iff {a b : α} :
    (pure a : Rolling α).run draws = .ok b left ↔ a = b ∧ draws = left := by
  constructor
  · intro h
    cases h
    exact ⟨rfl, rfl⟩
  · rintro ⟨rfl, rfl⟩
    rfl

theorem run_ofExcept_eq_ok_iff {e : Except Failure α} {a : α} :
    (ofExcept e).run draws = .ok a left ↔ e = .ok a ∧ draws = left := by
  cases e with
  | ok b =>
      rw [Except.ok.injEq]
      exact run_pure_eq_ok_iff
  | error g =>
      constructor
      · intro h
        cases h
      · rintro ⟨h, _⟩
        cases h

/-- The result of a run with the draws that are left, unless it has failed. -/
def result? : EStateM.Result Failure Draws α → Option (α × Draws)
  | .ok a left => some (a, left)
  | .error _ _ => none

theorem eq_ok_of_result? {r : EStateM.Result Failure Draws α} {a : α}
    (h : result? r = some (a, left)) : r = .ok a left := by
  cases r with
  | ok b rest =>
      cases h
      rfl
  | error g rest => cases h

/-- The failure of a run with the draws that are left, if it has failed. -/
def failure? : EStateM.Result Failure Draws α → Option (Failure × Draws)
  | .ok _ _ => none
  | .error f left => some (f, left)

theorem eq_error_of_failure? {r : EStateM.Result Failure Draws α}
    (h : failure? r = some (f, left)) : r = .error f left := by
  cases r with
  | ok b rest => cases h
  | error g rest =>
      cases h
      rfl

end TabletopDice.Rolling
