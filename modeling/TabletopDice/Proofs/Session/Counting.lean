import Mathlib
import TabletopDice.Proofs.Notation.Acceptance
import TabletopDice.Proofs.Session.Passage
import TabletopDice.Proofs.Tally.Groups

/-!
# Counting the values of a plan

A plan with a count runs like the plan without it, and then every value that its results hold is
counted: the numbers first, the faces behind them, each of them once.
-/

namespace TabletopDice

open Notation

namespace Session

variable {kind : Kind} {requests : List Request} {actions : List Action} {draws left : Draws}

/-- The results of a session, or none if there is no session. -/
def held (o : Option Session) : List Rolls := o.toList.flatMap results

theorem held_none : held none = [] := rfl

theorem held_some (t : Session) : held (some t) = t.results := List.append_nil _

theorem run_afterCount_eq_ok_iff {t counted : Session} :
    t.afterCount.run draws = .ok counted left ↔
      t.terminated = false ∧ draws = left ∧
        ∃ groups, Rolls.count t.results = .ok groups ∧ ofCounts groups = counted := by
  unfold afterCount
  split
  · next hterm =>
      have hmismatched : Failure.Mismatched (.incompatible .count t.kind .terminated) := trivial
      rw [Rolling.run_fail_of_mismatched hmismatched]
      simp [hterm]
  · next hopen =>
      rw [Rolling.run_map_eq_ok_iff]
      simp only [Rolling.run_ofExcept_eq_ok_iff, Bool.eq_false_iff.2 hopen, true_and]
      grind

/-- What is counted are the results of the run without the count, all of them of one kind. -/
theorem count_of_run? {o : Option Session}
    (h : (run? kind requests actions true).run draws = .ok o left) :
    ∃ before groups, (run? kind requests actions false).run draws = .ok before left ∧
      Rolls.count (held before) = .ok groups ∧ o = before.map (fun _ ↦ ofCounts groups) ∧
        (before = none → requests = []) ∧
          ∀ v ∈ (held before).flatMap Rolls.values, v.kind = kind := by
  by_cases hne : requests = []
  · subst hne
    rw [run?_nil] at h
    obtain ⟨rfl, rfl⟩ := Rolling.run_pure_eq_ok_iff.1 h
    exact ⟨none, [], rfl, Rolls.count_nil, rfl, fun _ ↦ rfl, by simp [held_none]⟩
  · rw [run?_of_ne_nil hne] at h ⊢
    obtain ⟨t, mid, hthrough, h⟩ := Rolling.run_bind_eq_ok_iff.1 h
    obtain ⟨counted, hcounted, rfl⟩ := Rolling.run_map_eq_ok_iff.1 h
    obtain ⟨hopen, rfl, groups, hgroups, rfl⟩ := run_afterCount_eq_ok_iff.1 hcounted
    have hrep := (through_represents kind requests actions).of_ok hthrough
    refine ⟨some t, groups, ?_, ?_, rfl, by simp, fun v hv ↦ ?_⟩
    · rw [Rolling.run_bind_of_ok hthrough]
      rfl
    · rwa [held_some]
    · rw [held_some] at hv
      obtain ⟨r, hr, hv⟩ := List.mem_flatMap.1 hv
      obtain ⟨q, _, hstems⟩ := exists_left_of_mem (hrep.results_of_open hopen) hr
      exact hstems.values_kind v hv

/-- A session that is missing adds no counts. -/
theorem joinCounts_map {before others : Option Session} {groups more : List Rolls}
    (hgroups : Rolls.count (held before) = .ok groups)
    (hmore : Rolls.count (held others) = .ok more) (hsome : before = none → others ≠ none) :
    joinCounts (before.map fun _ ↦ ofCounts groups) (others.map fun _ ↦ ofCounts more) =
      some (ofCounts (groups ++ more)) := by
  cases before with
  | none =>
      obtain ⟨u, rfl⟩ := Option.ne_none_iff_exists'.1 (hsome rfl)
      obtain rfl := Except.ok.inj (Rolls.count_nil.symm.trans hgroups)
      rfl
  | some t =>
      cases others with
      | none =>
          obtain rfl := Except.ok.inj (Rolls.count_nil.symm.trans hmore)
          rw [List.append_nil]
          rfl
      | some u => rfl

end Session

/-- All values that an outcome holds. -/
def Outcome.values (o : Outcome) : List Value := o.results.flatMap Rolls.values

theorem Outcome.values_mk (numeric fudge : Option Session) :
    values ⟨numeric, fudge⟩ =
      (Session.held numeric ++ Session.held fudge).flatMap Rolls.values := by
  rw [values, results, sessions, List.flatMap_append]
  rfl

variable {limits : Limits} {text : Text} {p : Plan}

theorem Plan.run_counts (hcounts : p.counts) (autoTotal : Bool) :
    p.run autoTotal = (do
      let numeric ← Session.run? .numeric p.numeric p.actions true
      let fudge ← Session.run? .fudge p.fudge p.actions true
      return ⟨Session.joinCounts numeric fudge, none⟩) := by
  have hactions : p.numericActions autoTotal = p.actions := if_neg (by simp [hcounts])
  simp only [run, hactions, hcounts, if_true]

theorem Plan.run_without_counts (p : Plan) :
    Plan.run { p with counts := false } false = (do
      let numeric ← Session.run? .numeric p.numeric p.actions false
      let fudge ← Session.run? .fudge p.fudge p.actions false
      return ⟨numeric, fudge⟩) :=
  rfl

/-- Counting loses no value and makes none up, whatever has been done to the values before. -/
theorem counts_of_run (h : readPlan limits text = .ok p) (hcounts : p.counts) {autoTotal : Bool}
    {draws left : Draws} {outcome : Outcome}
    (hrun : (p.run autoTotal).run draws = .ok outcome left) :
    ∃ (before : Outcome) (groups : List Rolls),
      (Plan.run { p with counts := false } false).run draws = .ok before left ∧
        outcome = ⟨some ⟨.numeric, [], groups, true⟩, none⟩ ∧
          Rolls.Accounts before.values groups := by
  obtain ⟨lexemes, _, hwrites, hne⟩ := readPlan_eq_ok_iff.1 h
  rw [Plan.run_counts hcounts] at hrun
  obtain ⟨numeric, mid, hnumeric, hrun⟩ := Rolling.run_bind_eq_ok_iff.1 hrun
  obtain ⟨fudge, mid', hfudge, hrun⟩ := Rolling.run_bind_eq_ok_iff.1 hrun
  obtain ⟨rfl, rfl⟩ := Rolling.run_pure_eq_ok_iff.1 hrun
  obtain ⟨before, groups, hbefore, hgroups, rfl, hnone, hnumbers⟩ := Session.count_of_run? hnumeric
  obtain ⟨others, more, hothers, hmore, rfl, hnone', hfaces⟩ := Session.count_of_run? hfudge
  refine ⟨⟨before, others⟩, groups ++ more, ?_, ?_, ?_⟩
  · rw [Plan.run_without_counts, Rolling.run_bind_of_ok hbefore, Rolling.run_bind_of_ok hothers]
    rfl
  · rw [Session.joinCounts_map hgroups hmore]
    · rfl
    · intro hleft hright
      exact hne (by rw [Plan.requests, hnone hleft, hnone' hright]; rfl)
  · rw [Outcome.values_mk]
    exact (Rolls.tallies_append hnumbers hfaces hgroups hmore).accounts

/-- A blank face is not the number zero. -/
theorem counts_of_run_zeros :
    ∃ p outcome left, readPlan {} "(AB 2D6 x0) 3F count".toList = .ok p ∧ p.counts ∧
      (p.run true).run [5, 1, 0, 0, 1, 7] = .ok outcome left ∧
        ∃ (before : Outcome) (groups : List Rolls),
          (Plan.run { p with counts := false } false).run [5, 1, 0, 0, 1, 7] = .ok before left ∧
            outcome = ⟨some ⟨.numeric, [], groups, true⟩, none⟩ ∧
              Rolls.Accounts before.values groups := by
  have hread : readPlan {} "(AB 2D6 x0) 3F count".toList = .ok
      ⟨[⟨2, .numbered 6 (by decide), some "AB".toList, [.multiply 0], by decide, by decide⟩],
        [⟨3, .fudge, none, [], by decide, by decide⟩], [], true⟩ := by
    decide +kernel
  have hrun : (Plan.run
      ⟨[⟨2, .numbered 6 (by decide), some "AB".toList, [.multiply 0], by decide, by decide⟩],
        [⟨3, .fudge, none, [], by decide, by decide⟩], [], true⟩ true).run [5, 1, 0, 0, 1, 7] =
      .ok ⟨some ⟨.numeric, [], [.aggregate "COUNT(0)".toList 2,
        .aggregate "COUNT(blank)".toList 2, .aggregate "COUNT(+)".toList 1], true⟩, none⟩ [7] := by
    cbv
  exact ⟨_, _, _, hread, rfl, hrun, counts_of_run hread rfl hrun⟩

end TabletopDice
