import TabletopDice.Proofs.Notation.RoundTrip
import TabletopDice.Proofs.Session.Interleaving

/-!
# Descriptions as records

As long as no total or count has ended its session, the description of a result is the text of the
request followed by the texts of all actions that have been applied, private and common ones in this
order.  Read as a request, it asks for these dice and these actions once more.
-/

namespace TabletopDice

open Notation
open List (Forall₂)

variable {kind : Kind} {requests : List Request} {actions done : List Action} {q : Request}
  {r : Rolls} {s : Session}

namespace Request

/-- The request and then the actions. -/
def record (q : Request) (actions : List Action) : Text :=
  [' '].intercalate (q.text :: actions.map Action.text)

/-- An identifier needs parentheses around it and what belongs to it. -/
def enclosed (q : Request) (text : Text) : Text :=
  match q.identifier with
  | none => text
  | some _ => '(' :: text ++ [')']

/-- The same rolls with these private actions. -/
def withActions (q : Request) (actions : List Action) : Request := { q with actions }

/-- The same rolls with these actions; under an identifier the actions are private. -/
def replay (q : Request) (actions : List Action) : Plan :=
  match q.identifier with
  | none => planOf [q.withActions []] actions false
  | some _ => planOf [q.withActions actions] [] false

theorem record_concat (q : Request) (actions : List Action) (a : Action) :
    q.record (actions ++ [a]) = q.record actions ++ ' ' :: a.text := by
  rw [record, record, List.map_append, List.map_singleton, ← List.cons_append,
    intercalate_append _ (List.cons_ne_nil _ _) (List.cons_ne_nil _ _), List.intercalate_singleton,
    List.singleton_append]

end Request

/-! ## What the steps write down -/

/-- The rolls stem from the request, and their description lists these actions. -/
structure Rolls.Records (q : Request) (actions : List Action) (r : Rolls) : Prop where
  origin_eq : r.origin = some q
  description_eq : r.description = q.record actions

namespace Rolls

theorem roll_records (q : Request) : q.roll.Gives (Records q []) fun _ ↦ True := by
  rw [Request.roll]
  refine (Rolling.gives_anything _).bind fun values _ ↦ ?_
  refine Rolling.gives_lift_bind (fun _ _ ↦ trivial) fun _ _ ↦ Rolling.gives_pure ⟨rfl, ?_⟩
  rw [Request.record, List.map_nil, List.intercalate_singleton]

theorem apply_records (h : r.Records q done) (a : Action) :
    (a.apply r).Gives (Records q (done ++ [a])) fun _ ↦ True := by
  refine (a.apply_describes r).imp ?_ fun _ h ↦ h
  rintro t ⟨hdescription, horigin, _⟩
  refine ⟨horigin.trans h.origin_eq, ?_⟩
  rw [hdescription, h.description_eq, Request.record_concat]

theorem applyAll_records (h : r.Records q done) (actions : List Action) :
    (Action.applyAll actions r).Gives (Records q (done ++ actions)) fun _ ↦ True := by
  have hstep : ∀ done r a, Records q done r →
      (Action.apply a r).Gives (Records q (done ++ [a])) fun _ ↦ True := fun _ _ a hr ↦
    apply_records hr a
  exact Rolling.gives_foldlM hstep h

theorem applyOwn_records (h : r.Records q []) :
    r.applyOwn.Gives (Records q q.actions) fun _ ↦ True := by
  rw [Session.applyOwn_eq h.origin_eq]
  exact applyAll_records h q.actions

end Rolls

namespace Session

/-- Unless the session has ended, its results record their private actions and then those that have
been done in common, none of which is a total. -/
def Records (requests : List Request) (done : List Action) (s : Session) : Prop :=
  s.terminated = false →
    .total ∉ done ∧ Forall₂ (fun q r ↦ r.Records q (q.actions ++ done)) requests s.results

theorem start_records (kind : Kind) (requests : List Request) :
    (start kind requests).Gives
      (fun s ↦ Forall₂ (fun q r ↦ r.Records q []) requests s.results) fun _ ↦ True :=
  start_gives_of fun _ ↦ Rolling.gives_mapM fun q _ ↦ Rolls.roll_records q

theorem afterRequestActions_records
    (h : Forall₂ (fun q r ↦ r.Records q []) requests s.results) :
    s.afterRequestActions.Gives (Records requests []) fun _ ↦ True := by
  refine afterRequestActions_gives_of fun _ ↦ ?_
  have hown := Rolling.gives_mapM_of_related h fun q r hr ↦ Rolls.applyOwn_records hr
  refine hown.imp (fun results hresults _ ↦ ⟨by simp, ?_⟩) fun _ h ↦ h
  simpa using hresults

theorem afterStep_records (h : s.Records requests done) (a : Action) :
    (s.afterStep a).Gives (Records requests (done ++ [a])) fun _ ↦ True := by
  refine afterStep_gives_of (fun _ _ ↦ ?_) fun hopen htotal ↦ ?_
  · refine (Rolling.gives_ofExcept (fun total _ hopen ↦ ?_) fun _ _ ↦ trivial).map
    -- A total ends the session, so that there is nothing to record.
    cases hopen
  · obtain ⟨hdone, hresults⟩ := h hopen
    have happly := Rolling.gives_mapM_of_related hresults fun q r hr ↦ Rolls.apply_records hr a
    refine happly.imp (fun results hresults _ ↦ ⟨?_, ?_⟩) fun _ h ↦ h
    · simp [hdone, Ne.symm htotal]
    · simpa only [List.append_assoc] using hresults

theorem through_records (kind : Kind) (requests : List Request) (actions : List Action) :
    (through kind requests actions).Gives (Records requests actions) fun _ ↦ True := by
  rw [through_eq]
  refine (start_records kind requests).bind fun s hs ↦ ?_
  refine (afterRequestActions_records hs).bind fun t ht ↦ ?_
  have hstep : ∀ done u a, Records requests done u →
      (afterStep u a).Gives (Records requests (done ++ [a])) fun _ ↦ True := fun _ _ a hu ↦
    afterStep_records hu a
  exact Rolling.gives_foldlM hstep ht

/-- A session that is open at the end has not been counted. -/
theorem run?_records (kind : Kind) (requests : List Request) (actions : List Action)
    (counts : Bool) :
    (run? kind requests actions counts).Gives
      (fun o ↦ (o = none → requests = []) ∧
        ∀ s ∈ o, s.Records requests actions ∧ (counts → s.terminated))
      fun _ ↦ True := by
  by_cases hne : requests = []
  · rw [hne, run?_nil]
    exact Rolling.gives_pure ⟨fun _ ↦ rfl, by simp⟩
  rw [run?_of_ne_nil hne]
  refine (through_records kind requests actions).bind fun t ht ↦ ?_
  cases counts with
  | true =>
      refine Rolling.Gives.map ((afterCount_ends t).imp (fun u hu ↦ ?_) fun _ h ↦ h)
      simp [Records, hu.2]
  | false =>
      apply Rolling.gives_pure
      simpa using ht

end Session

/-! ## Whole plans -/

theorem Session.results_of_records {o : Option Session} (hnone : o = none → requests = [])
    (h : ∀ s ∈ o, s.Records requests actions) (hopen : ∀ s ∈ o, s.terminated = false) :
    (requests ≠ [] → .total ∉ actions) ∧
      Forall₂ (fun q r ↦ r.Records q (q.actions ++ actions)) requests
        (o.toList.flatMap Session.results) := by
  cases o with
  | none =>
      rw [hnone rfl]
      exact ⟨fun hne ↦ (hne rfl).elim, .nil⟩
  | some s =>
      obtain ⟨htotal, hresults⟩ := h s rfl (hopen s rfl)
      refine ⟨fun _ ↦ htotal, ?_⟩
      simpa using hresults

theorem Session.terminated_of_joinCounts {o o' : Option Session} (h : ∀ s ∈ o, s.terminated)
    (h' : ∀ s ∈ o', s.terminated) : ∀ s ∈ joinCounts o o', s.terminated := by
  cases o with
  | none => exact h'
  | some t =>
      have ht : t.terminated := h t rfl
      cases o' <;> simpa [joinCounts] using ht

theorem Session.joinCounts_eq_none {o o' : Option Session} (h : joinCounts o o' = none) :
    o = none ∧ o' = none := by
  cases o with
  | none => exact ⟨rfl, h⟩
  | some s => cases o' <;> cases h

namespace Plan

theorem numericActions_of_not_mem {p : Plan} {autoTotal : Bool}
    (h : .total ∉ p.numericActions autoTotal) : p.numericActions autoTotal = p.actions := by
  unfold numericActions at h ⊢
  split
  · next hadded =>
      rw [if_pos hadded] at h
      exact (h List.mem_cons_self).elim
  · rfl

/-- One result for each request, numeric ones first, recording the private and the common actions.
Open sessions mean that nothing has been counted and no total has been added. -/
theorem run_records (p : Plan) (autoTotal : Bool) :
    (p.run autoTotal).Gives
      (fun outcome ↦ (∀ s ∈ outcome.sessions, s.terminated = false) →
        Forall₂ (fun q r ↦ r.Records q (q.actions ++ p.actions)) p.requests outcome.results)
      fun _ ↦ True := by
  refine (Session.run?_records _ _ _ _).bind fun numeric ⟨hnone, hnumeric⟩ ↦ ?_
  refine (Session.run?_records _ _ _ _).bind fun fudge ⟨hnone', hfudge⟩ ↦ Rolling.gives_pure ?_
  intro hopen
  by_cases hcounts : p.counts
  · simp only [if_pos hcounts, Outcome.sessions, Option.toList_none, List.append_nil,
      Option.mem_toList] at hopen ⊢
    have hended := Session.terminated_of_joinCounts (fun s hs ↦ (hnumeric s hs).2 hcounts)
      fun s hs ↦ (hfudge s hs).2 hcounts
    cases hjoined : Session.joinCounts numeric fudge with
    | some s =>
        have hterm := hended s hjoined
        rw [hopen s hjoined] at hterm
        cases hterm
    | none =>
        obtain ⟨hnumericNone, hfudgeNone⟩ := Session.joinCounts_eq_none hjoined
        rw [requests, hnone hnumericNone, hnone' hfudgeNone]
        exact .nil
  · simp only [if_neg hcounts, Outcome.sessions, List.mem_append, Option.mem_toList] at hopen ⊢
    obtain ⟨htotal, hnumbers⟩ := Session.results_of_records hnone (fun s hs ↦ (hnumeric s hs).1)
      fun s hs ↦ hopen s (.inl hs)
    obtain ⟨_, hfaces⟩ := Session.results_of_records hnone' (fun s hs ↦ (hfudge s hs).1)
      fun s hs ↦ hopen s (.inr hs)
    rw [requests, Outcome.results, Outcome.sessions, List.flatMap_append]
    refine List.rel_append ?_ hfaces
    by_cases hne : p.numeric = []
    · rw [hne] at hnumbers ⊢
      rw [List.forall₂_nil_left_iff.1 hnumbers]
      exact .nil
    · rwa [numericActions_of_not_mem (htotal hne)] at hnumbers

end Plan

/-! ## Reading a description -/

namespace Notation

variable {limits : Limits} {p : Plan}

theorem requests_planOf_singleton (q : Request) (actions : List Action) :
    (planOf [q] actions false).requests = [q] := by
  cases hkind : q.kind <;> simp [planOf, Plan.requests, hkind]

theorem text_planOf_singleton (q : Request) (actions : List Action) :
    (planOf [q] actions false).text = [' '].intercalate (q.written :: actions.map Action.text) := by
  rw [Plan.text, Plan.words, requests_planOf_singleton]
  simp [planOf]

theorem text_replay (q : Request) (actions : List Action) :
    (q.replay actions).text = q.enclosed (q.record actions) := by
  have htext (own : List Action) : (q.withActions own).text = q.text := rfl
  unfold Request.replay Request.enclosed
  split
  · next hidentifier =>
      have hwritten : (q.withActions []).written = q.text := by
        rw [Request.written, htext]
        simp only [Request.withActions, hidentifier]
      rw [text_planOf_singleton, hwritten, Request.record]
  · next name hidentifier =>
      have hwritten : (q.withActions actions).written = '(' :: q.record actions ++ [')'] := by
        rw [Request.written, htext]
        simp only [Request.withActions, hidentifier, Request.record]
      rw [text_planOf_singleton, hwritten, List.map_nil, List.intercalate_singleton]

/-- The private actions of a request and the common actions can be written for it alone. -/
theorem exists_writesPlan_replay (h : readPlan limits text = .ok p) (hq : q ∈ p.requests) :
    ∃ lexemes, WritesPlan (ReadsRolls limits) ReadsAction lexemes
      (q.replay (q.actions ++ p.actions)) := by
  obtain ⟨lexemes, _, hwrites, _⟩ := readPlan_eq_ok_iff.1 h
  obtain ⟨parts, words, requests, rfl, hrequests, hactions, hnumeric, hfudge⟩ := hwrites
  have hmem : q ∈ requests := by
    rw [Plan.requests, hnumeric, hfudge] at hq
    exact (List.mem_append.1 hq).elim List.mem_of_mem_filter List.mem_of_mem_filter
  obtain ⟨part, _, hpart⟩ := exists_left_of_mem hrequests hmem
  unfold Request.replay
  cases hpart with
  | plain hrolls hidentifier hown =>
      rw [hidentifier, hown]
      exact ⟨_, .intro [_] words [q.withActions []] rfl
        (.cons (.plain hrolls hidentifier rfl) .nil) hactions rfl rfl⟩
  | group hrolls hidentifier hown =>
      rw [hidentifier]
      have hall := List.rel_append hown hactions
      exact ⟨_, .intro [_] [] [q.withActions (q.actions ++ p.actions)] rfl
        (.cons (.group hrolls hidentifier hall) .nil) .nil rfl rfl⟩

theorem readPlan_enclosed_record (h : readPlan limits text = .ok p) (hq : q ∈ p.requests) :
    readPlan limits (q.enclosed (q.record (q.actions ++ p.actions))) =
      .ok (q.replay (q.actions ++ p.actions)) := by
  obtain ⟨lexemes, hwrites⟩ := exists_writesPlan_replay h hq
  obtain ⟨⟨others, hfalls, hothers⟩, _⟩ := writesPlan_words hwrites
  rw [← text_replay]
  refine readPlan_eq_ok_iff.2 ⟨others, hfalls.lexed, hothers, ?_⟩
  unfold Request.replay
  split <;> simp [requests_planOf_singleton]

end Notation

/-- Unless a total or a count has ended a session, there is one result for each request, whose
description lists what has been done to it.  The description can be read, and it asks for the same
once more. -/
theorem results_replayable {limits : Limits} {text : Text} {autoTotal : Bool}
    {draws left : Draws} {outcome : Outcome}
    (h : (roll limits text autoTotal).run draws = .ok outcome left)
    (hopen : ∀ s ∈ outcome.sessions, s.terminated = false) :
    ∃ p, readPlan limits text = .ok p ∧
      Forall₂ (fun q r ↦ r.Records q (q.actions ++ p.actions) ∧
          readPlan limits (q.enclosed r.description) = .ok (q.replay (q.actions ++ p.actions)))
        p.requests outcome.results := by
  obtain ⟨p, hread, hrun⟩ := exists_plan_of_roll h
  refine ⟨p, hread, related_imp ((p.run_records autoTotal).of_ok hrun hopen) ?_⟩
  intro q hq r _ hr
  refine ⟨hr, ?_⟩
  rw [hr.description_eq]
  exact readPlan_enclosed_record hread hq

theorem results_replayable_of_explosion :
    ∃ p outcome, readPlan {} "3D8 (FIRE 2D6 explode(6)) x10 sum".toList = .ok p ∧
      (roll {} "3D8 (FIRE 2D6 explode(6)) x10 sum".toList false).run [0, 4, 7, 5, 1, 2] =
          .ok outcome [] ∧
        (∀ s ∈ outcome.sessions, s.terminated = false) ∧
          outcome.results.map Rolls.description =
              ["3D8 x10 sum".toList, "FIRE 2D6 explode(6) x10 sum".toList] ∧
            Forall₂ (fun q r ↦ r.Records q (q.actions ++ p.actions) ∧
                readPlan {} (q.enclosed r.description) = .ok (q.replay (q.actions ++ p.actions)))
              p.requests outcome.results := by
  have hrun : (roll {} "3D8 (FIRE 2D6 explode(6)) x10 sum".toList false).run
      [0, 4, 7, 5, 1, 2] = .ok ⟨some ⟨.numeric,
        [⟨3, .numbered 8 (by decide), none, [], by decide, by decide⟩,
          ⟨2, .numbered 6 (by decide), some "FIRE".toList,
            [.explode .numeric (.ofList [.number 6])], by decide, by decide⟩],
        [⟨.numeric, "3D8 x10 sum".toList, [.number 140],
            some ⟨3, .numbered 8 (by decide), none, [], by decide, by decide⟩⟩,
          ⟨.numeric, "FIRE 2D6 explode(6) x10 sum".toList, [.number 110],
            some ⟨2, .numbered 6 (by decide), some "FIRE".toList,
              [.explode .numeric (.ofList [.number 6])], by decide, by decide⟩⟩],
        false⟩, none⟩ [] :=
    Rolling.eq_ok_of_result? (by decide +kernel)
  obtain ⟨p, hread, hresults⟩ := results_replayable hrun (by decide)
  exact ⟨p, _, hread, hrun, by decide, rfl, hresults⟩

end TabletopDice
