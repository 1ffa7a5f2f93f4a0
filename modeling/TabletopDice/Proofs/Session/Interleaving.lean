import TabletopDice.Proofs.Notation.Acceptance
import TabletopDice.Proofs.Session.Passage

/-!
# Numeric and fudge dice in one request

The numeric part of a plan runs as if it were alone, and the fudge part runs as if it were alone
with the draws that are left.  So it does not matter how the dice of the two kinds are mixed in a
text, as long as those of each kind keep their order.
-/

namespace TabletopDice

open Notation
open List (Forall₂)

/-! ## The parts of a run -/

theorem Session.exists_of_run? {kind : Kind} {requests : List Request} {actions : List Action}
    {counts : Bool} {draws left : Draws} {o : Option Session} (hne : requests ≠ [])
    (h : (run? kind requests actions counts).run draws = .ok o left) : ∃ s, o = some s := by
  rw [run?_of_ne_nil hne] at h
  obtain ⟨t, mid, _, h⟩ := Rolling.run_bind_eq_ok_iff.1 h
  cases counts with
  | true =>
      obtain ⟨s, _, rfl⟩ := Rolling.run_map_eq_ok_iff.1 h
      exact ⟨s, rfl⟩
  | false =>
      obtain ⟨rfl, _⟩ := Rolling.run_pure_eq_ok_iff.1 h
      exact ⟨t, rfl⟩

theorem Session.joinCounts_none (o : Option Session) : joinCounts o none = o := by
  cases o <;> rfl

namespace Plan

variable {p : Plan} {draws left : Draws}

/-- The plan without the requests of the other kind. -/
def only (p : Plan) : Kind → Plan
  | .numeric => { p with fudge := [] }
  | .fudge => { p with numeric := [] }

theorem run_only_numeric (p : Plan) (autoTotal : Bool) :
    (p.only .numeric).run autoTotal = (fun s ↦ ⟨s, none⟩) <$>
      Session.run? .numeric p.numeric (p.numericActions autoTotal) p.counts := by
  rw [← bind_pure_comp]
  refine bind_congr fun s ↦ ?_
  change (pure (if p.counts then ⟨Session.joinCounts s none, none⟩ else ⟨s, none⟩) :
    Rolling Outcome) = _
  rw [Session.joinCounts_none, ite_self]

theorem run_only_fudge (p : Plan) (autoTotal : Bool) :
    (p.only .fudge).run autoTotal = (fun s ↦ if p.counts then ⟨s, none⟩ else ⟨none, s⟩) <$>
      Session.run? .fudge p.fudge p.actions p.counts := by
  rw [← bind_pure_comp]
  rfl

/-- A plan runs its numeric part first, and then its fudge part with the draws that are left. -/
theorem run_eq_only (p : Plan) (autoTotal : Bool) :
    p.run autoTotal = (do
      let numbers ← (p.only .numeric).run autoTotal
      let faces ← (p.only .fudge).run autoTotal
      return ⟨Session.joinCounts numbers.numeric faces.numeric, faces.fudge⟩) := by
  rw [run_only_numeric, run_only_fudge, run]
  simp only [bind_map_left]
  refine bind_congr fun s ↦ bind_congr fun t ↦ ?_
  cases p.counts with
  | true => rfl
  | false => simp [Session.joinCounts_none]

theorem run_only_numeric_of_error {autoTotal : Bool} {f : Failure}
    (h : ((p.only .numeric).run autoTotal).run draws = .error f left) :
    (p.run autoTotal).run draws = .error f left := by
  rw [run_eq_only]
  exact Rolling.run_bind_of_error h

theorem run_eq_ok_only {autoTotal : Bool} {outcome : Outcome} (hne : p.numeric ≠ [])
    (h : (p.run autoTotal).run draws = .ok outcome left) :
    ∃ s mid faces, ((p.only .numeric).run autoTotal).run draws = .ok ⟨some s, none⟩ mid ∧
      ((p.only .fudge).run autoTotal).run mid = .ok faces left ∧
        if p.counts then
          faces.fudge = none ∧
            outcome = ⟨some { s with results := s.results ++ faces.results }, none⟩
        else faces.numeric = none ∧ outcome = ⟨some s, faces.fudge⟩ := by
  rw [run_eq_only] at h
  obtain ⟨numbers, mid, hnumbers, h⟩ := Rolling.run_bind_eq_ok_iff.1 h
  obtain ⟨faces, rest, hfaces, h⟩ := Rolling.run_bind_eq_ok_iff.1 h
  obtain ⟨rfl, rfl⟩ := Rolling.run_pure_eq_ok_iff.1 h
  have hnumbers' := hnumbers
  rw [run_only_numeric] at hnumbers'
  obtain ⟨o, ho, rfl⟩ := Rolling.run_map_eq_ok_iff.1 hnumbers'
  obtain ⟨s, rfl⟩ := Session.exists_of_run? hne ho
  refine ⟨s, mid, faces, hnumbers, hfaces, ?_⟩
  rw [run_only_fudge] at hfaces
  obtain ⟨t, _, rfl⟩ := Rolling.run_map_eq_ok_iff.1 hfaces
  cases p.counts with
  | true => cases t <;> simp [Session.joinCounts, Outcome.results, Outcome.sessions]
  | false => simp [Session.joinCounts]

end Plan

/-! ## What a text lists -/

namespace Notation

variable {limits : Limits} {text : Text} {requests : List Request} {actions : List Action}
  {counts : Bool}

/-- The text consists of dice and groups for these requests, words for these actions, and perhaps
the word for a count. -/
def Lists (limits : Limits) (text : Text) (requests : List Request) (actions : List Action)
    (counts : Bool) : Prop :=
  ∃ (parts : List (List Lexeme)) (words : List Text),
    Lexed text (parts.flatten ++ words.map .word ++ if counts then [.word countWord] else []) ∧
      Forall₂ (WritesRequest (ReadsRolls limits) ReadsAction) parts requests ∧
        Forall₂ ReadsAction words actions

/-- The requests of either kind in the order in which they are listed. -/
def planOf (requests : List Request) (actions : List Action) (counts : Bool) : Plan :=
  ⟨requests.filter (·.kind = .numeric), requests.filter (·.kind = .fudge), actions, counts⟩

theorem requests_planOf_eq_nil_iff : (planOf requests actions counts).requests = [] ↔
    requests = [] := by
  constructor
  · intro h
    obtain ⟨hnumeric, hfudge⟩ := List.append_eq_nil_iff.1 h
    refine List.eq_nil_iff_forall_not_mem.2 fun q hq ↦ ?_
    cases hkind : q.kind with
    | numeric => simpa [hkind] using List.filter_eq_nil_iff.1 hnumeric q hq
    | fudge => simpa [hkind] using List.filter_eq_nil_iff.1 hfudge q hq
  · rintro rfl
    rfl

/-- What a text is read as depends on what it lists, and not on where. -/
theorem readPlan_of_lists (h : Lists limits text requests actions counts) :
    readPlan limits text =
      if requests = [] then .error (.unreadable ⟨.noDice, stripped text, some 0⟩)
      else .ok (planOf requests actions counts) := by
  obtain ⟨parts, words, hlexed, hrequests, hactions⟩ := h
  have hread : (tokens text).foldlM (Reader.read limits) ⟨Plan.empty, .outside⟩ =
      .ok ⟨planOf requests actions counts, .outside⟩ :=
    foldlM_read_of_writesPlan (lexed_iff.1 hlexed)
      (.intro parts words requests rfl hrequests hactions rfl rfl)
  rw [readPlan, hread, ok_bind]
  simp only [Reader.finish, requests_planOf_eq_nil_iff]
  split
  · rw [blame, Failure.raised_of_writable]
    intro n hn
    rw [List.mem_singleton.1 hn]
    decide
  · rfl

/-- A text that is read as a plan lists the requests of the plan. -/
theorem exists_lists_of_readPlan {p : Plan} (h : readPlan limits text = .ok p) :
    ∃ requests, Lists limits text requests p.actions p.counts ∧
      p = planOf requests p.actions p.counts := by
  obtain ⟨lexemes, hlexed, hwrites, _⟩ := readPlan_eq_ok_iff.1 h
  obtain ⟨parts, words, requests, rfl, hrequests, hactions, hnumeric, hfudge⟩ := hwrites
  refine ⟨requests, ⟨parts, words, hlexed, hrequests, hactions⟩, ?_⟩
  rw [planOf, ← hnumeric, ← hfudge]

theorem planOf_congr {requests requests' : List Request}
    (h : ∀ kind, requests.filter (·.kind = kind) = requests'.filter (·.kind = kind)) :
    planOf requests actions counts = planOf requests' actions counts := by
  rw [planOf, h .numeric, h .fudge, planOf]

end Notation

theorem roll_of_readPlan {limits : Limits} {text : Text} {p : Plan}
    (h : readPlan limits text = .ok p) (autoTotal : Bool) :
    roll limits text autoTotal = p.run autoTotal := by
  rw [roll, h]
  rfl

theorem roll_of_unreadable {limits : Limits} {text : Text} {f : Failure}
    (h : readPlan limits text = .error f) (autoTotal : Bool) (draws : Draws) :
    (roll limits text autoTotal).run draws = .error f draws := by
  rw [roll, h]
  rfl

theorem exists_plan_of_roll {limits : Limits} {text : Text} {autoTotal : Bool} {draws left : Draws}
    {outcome : Outcome} (h : (roll limits text autoTotal).run draws = .ok outcome left) :
    ∃ p, readPlan limits text = .ok p ∧ (p.run autoTotal).run draws = .ok outcome left := by
  cases hread : readPlan limits text with
  | error f =>
      rw [roll_of_unreadable hread] at h
      cases h
  | ok p =>
      rw [roll_of_readPlan hread] at h
      exact ⟨p, rfl, h⟩

/-- Fudge dice neither change nor hide what becomes of the numeric dice, and they fare as if they
were rolled afterwards.  So two texts that list the same dice of either kind, and the same actions,
have the same outcome. -/
theorem numeric_apart_from_fudge (limits : Limits) (autoTotal : Bool) :
    (∀ (p : Plan) (draws : Draws), p.numeric ≠ [] →
      (∀ outcome left, (p.run autoTotal).run draws = .ok outcome left →
        ∃ s mid faces, ((p.only .numeric).run autoTotal).run draws = .ok ⟨some s, none⟩ mid ∧
          ((p.only .fudge).run autoTotal).run mid = .ok faces left ∧
            if p.counts then
              faces.fudge = none ∧
                outcome = ⟨some { s with results := s.results ++ faces.results }, none⟩
            else faces.numeric = none ∧ outcome = ⟨some s, faces.fudge⟩) ∧
      ∀ f left, ((p.only .numeric).run autoTotal).run draws = .error f left →
        (p.run autoTotal).run draws = .error f left) ∧
    ∀ text text' requests requests' actions counts, Lists limits text requests actions counts →
      Lists limits text' requests' actions counts →
      (∀ kind, requests.filter (·.kind = kind) = requests'.filter (·.kind = kind)) →
        (requests ≠ [] ∧ roll limits text autoTotal = roll limits text' autoTotal) ∨
          requests = [] ∧ ∀ draws, ∀ t ∈ [text, text'], (roll limits t autoTotal).run draws =
            .error (.unreadable ⟨.noDice, stripped t, some 0⟩) draws := by
  constructor
  · intro p draws hne
    exact ⟨fun outcome left ↦ Plan.run_eq_ok_only hne,
      fun f left ↦ Plan.run_only_numeric_of_error⟩
  · intro text text' requests requests' actions counts hlists hlists' hfilters
    have hplan : planOf requests actions counts = planOf requests' actions counts :=
      planOf_congr hfilters
    have hread := readPlan_of_lists hlists
    have hread' := readPlan_of_lists hlists'
    have hnil : requests' = [] ↔ requests = [] := by
      rw [← requests_planOf_eq_nil_iff, ← hplan, requests_planOf_eq_nil_iff]
    by_cases hempty : requests = []
    · right
      rw [if_pos hempty] at hread
      rw [if_pos (hnil.2 hempty)] at hread'
      refine ⟨hempty, fun draws ↦ ?_⟩
      simp [roll_of_unreadable hread, roll_of_unreadable hread']
    · left
      rw [if_neg hempty] at hread
      rw [if_neg (mt hnil.1 hempty), ← hplan] at hread'
      exact ⟨hempty, by rw [roll_of_readPlan hread, roll_of_readPlan hread']⟩

theorem numeric_apart_from_fudge_mixed :
    ∃ p requests requests', readPlan {} "2F D6 F".toList = .ok p ∧ p.numeric ≠ [] ∧
      Lists {} "2F D6 F".toList requests p.actions p.counts ∧
      Lists {} "D6 2F F".toList requests' p.actions p.counts ∧
      (∃ s mid faces, ((p.only .numeric).run true).run [3, 0, 1, 2] = .ok ⟨some s, none⟩ mid ∧
        ((p.only .fudge).run true).run mid = .ok faces [] ∧
          (p.run true).run [3, 0, 1, 2] = .ok ⟨some s, faces.fudge⟩ []) ∧
      (p.run true).run [] = .error .noDrawLeft [] ∧
      (roll {} "2F D6 F".toList true).run [3, 0, 1, 2] =
        (roll {} "D6 2F F".toList true).run [3, 0, 1, 2] := by
  let p : Plan := ⟨[⟨1, .numbered 6 (by decide), none, [], by decide, by decide⟩],
    [⟨2, .fudge, none, [], by decide, by decide⟩, ⟨1, .fudge, none, [], by decide, by decide⟩],
    [], false⟩
  have hread : readPlan {} "2F D6 F".toList = .ok p := by decide +kernel
  have hread' : readPlan {} "D6 2F F".toList = .ok p := by decide +kernel
  have hne : p.numeric ≠ [] := by decide
  obtain ⟨requests, hlists, hplan⟩ := exists_lists_of_readPlan hread
  obtain ⟨requests', hlists', hplan'⟩ := exists_lists_of_readPlan hread'
  have hfilters : ∀ kind, requests.filter (·.kind = kind) = requests'.filter (·.kind = kind) := by
    intro kind
    cases kind with
    | numeric => exact congrArg Plan.numeric (hplan.symm.trans hplan')
    | fudge => exact congrArg Plan.fudge (hplan.symm.trans hplan')
  have hrun : ∃ outcome, (p.run true).run [3, 0, 1, 2] = .ok outcome [] := ⟨_, rfl⟩
  obtain ⟨outcome, hrun⟩ := hrun
  obtain ⟨hapart, hmixed⟩ := numeric_apart_from_fudge {} true
  obtain ⟨hreturns, hfails⟩ := hapart p _ hne
  obtain ⟨s, mid, faces, hnumbers, hfaces, _, rfl⟩ := hreturns outcome [] hrun
  refine ⟨p, requests, requests', hread, hne, hlists, hlists',
    ⟨s, mid, faces, hnumbers, hfaces, hrun⟩, (hapart p [] hne).2 _ _ rfl, ?_⟩
  rcases hmixed _ _ _ _ _ _ hlists hlists' hfilters with ⟨_, heq⟩ | ⟨hnil, _⟩
  · rw [heq]
  · rw [hnil] at hplan
    exact absurd (congrArg Plan.numeric hplan) hne

end TabletopDice
