import TabletopDice.Proofs.Rolling.Kinds
import TabletopDice.Proofs.Rolling.Running

/-!
# What dice show

A numbered or fudge dice shows one value for each draw.  Its rolls take the next draws in order, and
they fail only if there are not enough of them.  A constant or repeating dice takes no draws, and
every roll of it begins with the same value.
-/

namespace TabletopDice

namespace Rolling

variable {α : Type} {shows : Int → α} {n : Nat} {draws : Draws}

theorem run_times_draw_of_le (h : n ≤ draws.length) :
    (times (shows <$> draw) n).run draws = .ok ((draws.take n).map shows) (draws.drop n) := by
  induction n generalizing draws with
  | zero => rfl
  | succ n ih =>
      cases draws with
      | nil => cases h
      | cons d rest =>
          have hfirst : (shows <$> draw).run (d :: rest) = .ok (shows d) rest := rfl
          rw [times, run_bind_of_ok hfirst, run_bind_of_ok (ih (Nat.le_of_succ_le_succ h))]
          rfl

theorem run_times_draw_of_lt (h : draws.length < n) :
    (times (shows <$> draw) n).run draws = .error .noDrawLeft [] := by
  induction n generalizing draws with
  | zero => cases h
  | succ n ih =>
      cases draws with
      | nil => rfl
      | cons d rest =>
          have hfirst : (shows <$> draw).run (d :: rest) = .ok (shows d) rest := rfl
          rw [times, run_bind_of_ok hfirst]
          exact run_bind_of_error (ih (Nat.lt_of_succ_lt_succ h))

end Rolling

namespace Cycle

theorem eq_first_of_mem_head? (c : Cycle) {n : Nat} {v : Value} (h : v ∈ (c.take n).head?) :
    v = c.first := by
  cases n with
  | zero => cases h
  | succ n =>
      rw [take, List.range_succ_eq_map] at h
      exact (Option.mem_some.1 h).symm

end Cycle

namespace Dice

/-- What the dice shows for a draw, if it takes any. -/
def shows? : Dice → Option (Int → Value)
  | numbered sides _ => some (sideOf sides)
  | fudge => some faceOf
  | const _ | repeating _ => none

/-- The value that comes first whenever the dice is rolled, if it takes no draws. -/
def opening? : Dice → Option Value
  | const value => some value
  | repeating cycle => some cycle.first
  | numbered _ _ | fudge => none

variable {dice : Dice} {shows : Int → Value} {v : Value} {n : Nat} {draws left : Draws}

theorem exists_shows_or_opening (dice : Dice) :
    (∃ shows, dice.shows? = some shows) ∨ ∃ v, dice.opening? = some v := by
  cases dice with
  | const value => exact .inr ⟨value, rfl⟩
  | numbered sides hpos => exact .inl ⟨sideOf sides, rfl⟩
  | repeating cycle => exact .inr ⟨cycle.first, rfl⟩
  | fudge => exact .inl ⟨faceOf, rfl⟩

theorem opening?_of_shows (h : dice.shows? = some shows) : dice.opening? = none := by
  cases dice with
  | numbered | fudge => rfl
  | const | repeating => cases h

theorem roll_of_shows (h : dice.shows? = some shows) (n : Nat) :
    dice.roll n = Rolling.times (shows <$> Rolling.draw) n := by
  cases dice with
  | numbered | fudge =>
      cases h
      rfl
  | const | repeating => cases h

/-- Rolls that succeed show the next draws. -/
theorem run_roll_eq_ok_of_shows {values : List Value} (h : dice.shows? = some shows)
    (hrun : (dice.roll n).run draws = .ok values left) :
    ∃ used, draws = used ++ left ∧ values = used.map shows ∧ used.length = n := by
  rw [roll_of_shows h] at hrun
  rcases Nat.lt_or_ge draws.length n with hlt | hle
  · rw [Rolling.run_times_draw_of_lt hlt] at hrun
    cases hrun
  · rw [Rolling.run_times_draw_of_le hle] at hrun
    cases hrun
    exact ⟨draws.take n, (List.take_append_drop n draws).symm, rfl, List.length_take_of_le hle⟩

theorem run_roll_of_opening (h : dice.opening? = some v) (n : Nat) (draws : Draws) :
    ∃ values, (dice.roll n).run draws = .ok values draws ∧ values.length = n ∧
      ∀ first ∈ values.head?, first = v := by
  cases dice with
  | const value =>
      cases h
      refine ⟨List.replicate n v, rfl, List.length_replicate, fun first hfirst ↦ ?_⟩
      exact List.eq_of_mem_replicate (List.mem_of_mem_head? hfirst)
  | repeating cycle =>
      cases h
      exact ⟨cycle.take n, rfl, cycle.length_take n, fun first ↦ cycle.eq_first_of_mem_head?⟩
  | numbered | fudge => cases h

/-- Only a lack of draws can make rolls fail. -/
theorem run_roll_eq_error {f : Failure} (h : (dice.roll n).run draws = .error f left) :
    f = .noDrawLeft ∧ left = [] := by
  rcases dice.exists_shows_or_opening with ⟨shows, hshows⟩ | ⟨v, hopening⟩
  · rw [roll_of_shows hshows] at h
    rcases Nat.lt_or_ge draws.length n with hlt | hle
    · rw [Rolling.run_times_draw_of_lt hlt] at h
      cases h
      exact ⟨rfl, rfl⟩
    · rw [Rolling.run_times_draw_of_le hle] at h
      cases h
  · obtain ⟨values, hroll, _⟩ := run_roll_of_opening hopening n draws
    rw [hroll] at h
    cases h

end Dice
end TabletopDice
