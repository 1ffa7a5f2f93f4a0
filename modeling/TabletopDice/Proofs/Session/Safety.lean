import TabletopDice.Proofs.Notation.Acceptance
import TabletopDice.Proofs.Session.Compatibility

/-!
# Plans that were read from a text

The reader puts every request into the list of its kind.  No run of the plan then does to a face
what is defined for numbers only, or meets with a result that it cannot handle.
-/

namespace TabletopDice

open Notation

variable {limits : Limits} {text : Text} {p : Plan}

theorem sorted_of_readPlan (h : readPlan limits text = .ok p) : p.Sorted := by
  obtain ⟨lexemes, _, hwrites, hne⟩ := readPlan_eq_ok_iff.1 h
  exact ⟨hwrites.kind_eq.1, hwrites.kind_eq.2, hne⟩

/-- Every run of a plan that was read has an outcome, or stops for one of a few reasons: the values
and the draws, or an action that does not fit in its place. -/
theorem run_of_readPlan (h : readPlan limits text = .ok p) (autoTotal : Bool) (draws : Draws) :
    (∃ outcome left, (p.run autoTotal).run draws = .ok outcome left) ∨
      ∃ f left, (p.run autoTotal).run draws = .error f left ∧ (f.Incidental ∨ f.Mismatched) := by
  have hgives := Plan.run_gives (sorted_of_readPlan h) autoTotal
  cases hrun : (p.run autoTotal).run draws with
  | ok outcome left => exact .inl ⟨outcome, left, rfl⟩
  | error f left =>
      have hblames := hgives.of_error hrun
      exact .inr ⟨f, left, rfl, Or.imp_right And.left hblames⟩

theorem run_of_group : ∃ p, readPlan {} "(DMG 2D8 explode(8)) 4F keep-best(1)".toList = .ok p ∧
    ((∃ outcome left, (p.run true).run [7, 3, 5, 0, 1, 2, 0] = .ok outcome left) ∨
      ∃ f left, (p.run true).run [7, 3, 5, 0, 1, 2, 0] = .error f left ∧
        (f.Incidental ∨ f.Mismatched)) := by
  have hread : readPlan {} "(DMG 2D8 explode(8)) 4F keep-best(1)".toList = .ok
      ⟨[⟨2, .numbered 8 (by decide), some "DMG".toList,
        [.explode .numeric (.ofList [.number 8])], by decide, by decide⟩],
        [⟨4, .fudge, none, [], by decide, by decide⟩], [.keep .best 1], false⟩ := by
    decide +kernel
  exact ⟨_, hread, run_of_readPlan hread true [7, 3, 5, 0, 1, 2, 0]⟩

/-- Whether the actions of a plan fit can be told beforehand: no run of a well-kinded plan ends
because an action is incompatible, and no run of any other plan has an outcome. -/
theorem incompatible_iff_not_wellKinded (h : readPlan limits text = .ok p) (autoTotal : Bool)
    (draws : Draws) :
    (p.WellKinded → ∀ attempt kind reason left,
        (p.run autoTotal).run draws ≠ .error (.incompatible attempt kind reason) left) ∧
      (¬p.WellKinded → ∃ f left, (p.run autoTotal).run draws = .error f left) := by
  have hgives := Plan.run_gives (sorted_of_readPlan h) autoTotal
  constructor
  · intro hfits attempt kind reason left hrun
    have hblames := hgives.of_error hrun
    exact (hblames.incidental (not_not.2 hfits)).ne_incompatible attempt kind reason rfl
  · intro hunfit
    cases hrun : (p.run autoTotal).run draws with
    | ok outcome left => exact (hunfit (hgives.of_ok hrun)).elim
    | error f left => exact ⟨f, left, rfl⟩

/-- A total at the end fits, and one in front of a further action does not. -/
theorem incompatible_of_total :
    (∃ p, readPlan {} "3D6 total".toList = .ok p ∧ p.WellKinded ∧
      ∀ draws attempt kind reason left,
        (p.run false).run draws ≠ .error (.incompatible attempt kind reason) left) ∧
      ∃ p, readPlan {} "3D6 total sum".toList = .ok p ∧ ¬p.WellKinded ∧
        ∀ draws, ∃ f left, (p.run false).run draws = .error f left := by
  constructor
  · have hread : readPlan {} "3D6 total".toList = .ok
        ⟨[⟨3, .numbered 6 (by decide), none, [], by decide, by simp⟩], [], [.total], false⟩ := by
      decide +kernel
    refine ⟨_, hread, ?_, fun draws ↦ (incompatible_iff_not_wellKinded hread false draws).1 ?_⟩
    all_goals exact ⟨by decide, by decide, by decide, by decide, by decide⟩
  · have hread : readPlan {} "3D6 total sum".toList = .ok
        ⟨[⟨3, .numbered 6 (by decide), none, [], by decide, by simp⟩], [], [.total, .sum],
          false⟩ := by
      decide +kernel
    refine ⟨_, hread, ?_, fun draws ↦ (incompatible_iff_not_wellKinded hread false draws).2 ?_⟩
    all_goals exact fun hfits ↦ absurd hfits.total_last (by decide)

end TabletopDice
