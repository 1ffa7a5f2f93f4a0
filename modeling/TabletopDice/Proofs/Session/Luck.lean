import TabletopDice.Proofs.Rolling.Sizes
import TabletopDice.Proofs.Session.Passage

/-!
# Failures that do not depend on luck

Without explosions two sessions of the same requests stay in step through all of their actions,
although they hold other values: each result of the one has as many values as that of the other.  So
a plan either fails whatever is rolled, and always with the same failure, or has an outcome whatever
is rolled.
-/

namespace TabletopDice

open Notation
open List (Forall₂)

variable {kind : Kind} {requests : List Request} {q : Request} {a : Action}

/-! ## Results -/

namespace Rolls

/-- The rolls are what two runs have made of the same request. -/
structure Twins (kind : Kind) (q : Request) (r t : Rolls) : Prop where
  left : StemsFrom kind q r
  right : StemsFrom kind q t
  length_eq : r.values.length = t.values.length

/-- The results have the same kind, the same request and equally many values. -/
structure Corresponds (r t : Rolls) : Prop where
  kind_eq : r.kind = t.kind
  origin_eq : r.origin = t.origin
  length_eq : r.values.length = t.values.length

variable {r t : Rolls}

theorem Twins.corresponds (h : Twins kind q r t) : r.Corresponds t :=
  ⟨h.left.kind_eq.trans h.right.kind_eq.symm, h.left.origin_eq.trans h.right.origin_eq.symm,
    h.length_eq⟩

theorem apply_twins (hquiet : a.explodes = false) (h : Twins kind q r t) :
    (a.apply r).Accords (a.apply t) (Twins kind q) := by
  have hkind : t.kind = r.kind := h.right.kind_eq.trans h.left.kind_eq.symm
  have hlength : (a.apply r).Accords (a.apply t) fun r' t' ↦
      r'.values.length = t'.values.length := by
    by_cases ha : a.kind = r.kind
    · rw [Action.apply_of_kind_eq ha, Action.apply_of_kind_eq (ha.trans hkind.symm)]
      refine (Action.transform_accords hquiet ha hkind h.left.consistent h.right.consistent
        h.left.origin_eq h.right.origin_eq h.length_eq).bind fun values values' hvalues ↦ ?_
      exact (Rolling.accords_lift_self _).bind fun _ _ _ ↦ Rolling.accords_pure hvalues
    · rw [Action.apply_of_kind_ne ha, Action.apply_of_kind_ne (hkind ▸ ha), hkind]
      exact Rolling.accords_throw _
  refine (hlength.and_gives (apply_stemsFrom h.left a) (apply_stemsFrom h.right a)).imp ?_
  rintro r' t' ⟨hvalues, hleft, hright⟩
  exact ⟨hleft, hright, hvalues⟩

theorem applyOwn_twins (hquiet : ∀ a ∈ q.actions, a.explodes = false) (h : Twins kind q r t) :
    r.applyOwn.Accords t.applyOwn (Twins kind q) := by
  rw [Session.applyOwn_eq h.left.origin_eq, Session.applyOwn_eq h.right.origin_eq]
  refine Rolling.accords_foldlM (fun a ha r t htwins ↦ ?_) h
  exact apply_twins (hquiet a ha) htwins

theorem roll_twins (q : Request) : q.roll.Accords q.roll (Twins q.kind q) := by
  have hlength : q.roll.Accords q.roll fun r t ↦ r.values.length = t.values.length := by
    have hrolled := q.dice.roll_gives_length q.number
    unfold Request.roll
    refine (Rolling.accords_of_gives hrolled hrolled fun _ _ hv hv' ↦ hv.trans hv'.symm).bind
      fun values values' hvalues ↦ ?_
    exact (Rolling.accords_lift_self _).bind fun _ _ _ ↦ Rolling.accords_pure hvalues
  refine (hlength.and_gives (roll_stemsFrom q) (roll_stemsFrom q)).imp ?_
  rintro r t ⟨hvalues, hleft, hright⟩
  exact ⟨hleft, hright, hvalues⟩

/-- One by one, the results are what two runs have made of the same request. -/
def Twinned (kind : Kind) (requests : List Request) : List Rolls → List Rolls → Prop :=
  Forall₂ fun r t ↦ ∃ q ∈ requests, Twins kind q r t

variable {results results' : List Rolls}

theorem Twinned.corresponds (h : Twinned kind requests results results') :
    Forall₂ Corresponds results results' :=
  h.imp fun _ _ ⟨_, _, htwins⟩ ↦ htwins.corresponds

theorem mapM_twinned {step : Rolls → Rolling Rolls} (h : Twinned kind requests results results')
    (hstep : ∀ q ∈ requests, ∀ r t, Twins kind q r t → (step r).Accords (step t) (Twins kind q)) :
    (results.mapM step).Accords (results'.mapM step) (Twinned kind requests) := by
  refine Rolling.accords_mapM h ?_
  rintro r t ⟨q, hq, htwins⟩
  exact (hstep q hq r t htwins).imp fun _ _ hnext ↦ ⟨q, hq, hnext⟩

theorem Corresponds.refl (r : Rolls) : r.Corresponds r := ⟨rfl, rfl, rfl⟩

/-- A total looks at the kinds of the results, and then there is nothing in its way. -/
theorem total_accords (h : Twinned kind requests results results') :
    Rolling.Accords (liftM (total results)) (liftM (total results')) Corresponds := by
  have hleft : ∀ r ∈ results, r.kind = kind ∧ r.Consistent := fun r hr ↦ by
    obtain ⟨t, _, q, _, htwins⟩ := exists_right_of_mem h hr
    exact ⟨htwins.left.kind_eq, htwins.left.consistent⟩
  have hright : ∀ t ∈ results', t.kind = kind ∧ t.Consistent := fun t ht ↦ by
    obtain ⟨r, _, q, _, htwins⟩ := exists_left_of_mem h ht
    exact ⟨htwins.right.kind_eq, htwins.right.consistent⟩
  cases kind with
  | numeric =>
      refine Rolling.accords_lift (fun r t hr ht ↦ ?_) (fun f hf ↦ .inl ?_) fun f hf ↦ .inl ?_
      · obtain ⟨_, _, rfl⟩ := isAggregate_of_total hr
        obtain ⟨_, _, rfl⟩ := isAggregate_of_total ht
        exact ⟨rfl, rfl, rfl⟩
      · rw [tooLong_of_total hleft hf]
        trivial
      · rw [tooLong_of_total hright hf]
        trivial
  | fudge =>
      cases h with
      | nil => exact (Rolling.accords_lift_self _).imp fun r t heq ↦ heq ▸ .refl r
      | @cons r t _ _ hfirst _ =>
          obtain ⟨q, _, hfirst⟩ := hfirst
          rw [total_of_not_numeric List.mem_cons_self (by simp [hfirst.left.kind_eq]),
            total_of_not_numeric List.mem_cons_self (by simp [hfirst.right.kind_eq])]
          exact Rolling.accords_throw _

end Rolls

/-! ## Sessions -/

namespace Session

/-- Two sessions of the same requests that have been through the same steps. -/
structure InStep (kind : Kind) (requests : List Request) (s s' : Session) : Prop where
  kind_eq : s.kind = kind
  kind_eq' : s'.kind = kind
  terminated_eq : s.terminated = s'.terminated
  twinned_of_open : s.terminated = false → Rolls.Twinned kind requests s.results s'.results
  corresponds : Forall₂ Rolls.Corresponds s.results s'.results

variable {s s' : Session} {actions : List Action}

theorem InStep.with_results (h : InStep kind requests s s') {results results' : List Rolls}
    (htwinned : Rolls.Twinned kind requests results results') :
    InStep kind requests { s with results } { s' with results := results' } :=
  ⟨h.kind_eq, h.kind_eq', h.terminated_eq, fun _ ↦ htwinned, htwinned.corresponds⟩

theorem fail_accords {α β : Type} {related : α → β → Prop} (f : Failure) :
    (Rolling.fail f : Rolling α).Accords (Rolling.fail f : Rolling β) related :=
  Rolling.accords_throw f.raised

theorem start_inStep (kind : Kind) (requests : List Request) :
    (start kind requests).Accords (start kind requests) (InStep kind requests) := by
  by_cases hkind : ∀ q ∈ requests, q.kind = kind
  · rw [start_of_kind hkind]
    have hrolled : (requests.mapM Request.roll).Accords (requests.mapM Request.roll)
        (Rolls.Twinned kind requests) := by
      have hsame : Forall₂ (fun q q' ↦ q = q' ∧ q ∈ requests) requests requests :=
        List.forall₂_same.2 fun q hq ↦ ⟨rfl, hq⟩
      refine Rolling.accords_mapM hsame ?_
      rintro q _ ⟨rfl, hq⟩
      exact (Rolls.roll_twins q).imp fun r t htwins ↦ ⟨q, hq, hkind q hq ▸ htwins⟩
    exact (hrolled.imp fun _ _ h ↦ ⟨rfl, rfl, rfl, fun _ ↦ h, h.corresponds⟩).map
  · unfold start
    split
    · exact fail_accords _
    · next hfind =>
        refine (hkind fun q hq ↦ ?_).elim
        simpa using List.find?_eq_none.1 hfind q hq

theorem afterRequestActions_inStep
    (hquiet : ∀ q ∈ requests, ∀ a ∈ q.actions, a.explodes = false)
    (h : InStep kind requests s s') :
    s.afterRequestActions.Accords s'.afterRequestActions (InStep kind requests) := by
  have hterm' := h.terminated_eq
  cases hterm : s.terminated with
  | true =>
      rw [afterRequestActions, afterRequestActions, if_pos hterm, if_pos (hterm' ▸ hterm),
        h.kind_eq, h.kind_eq']
      exact fail_accords _
  | false =>
      rw [hterm] at hterm'
      rw [afterRequestActions, afterRequestActions, if_neg (by simp [hterm]),
        if_neg (by simp [← hterm'])]
      have hown := Rolls.mapM_twinned (h.twinned_of_open hterm) fun q hq _ _ ↦
        Rolls.applyOwn_twins (hquiet q hq)
      exact (hown.imp fun _ _ ↦ h.with_results).map

theorem afterTotal_inStep (hopen : s.terminated = false) (h : InStep kind requests s s') :
    s.afterTotal.Accords s'.afterTotal (InStep kind requests) := by
  have htotal := Rolls.total_accords (h.twinned_of_open hopen)
  refine Rolling.Accords.map (htotal.imp fun r t hrt ↦ ?_)
  exact ⟨h.kind_eq, h.kind_eq', rfl, (nomatch ·), .cons hrt .nil⟩

theorem afterStep_inStep (hquiet : a.explodes = false) (h : InStep kind requests s s') :
    (s.afterStep a).Accords (s'.afterStep a) (InStep kind requests) := by
  have hterm' := h.terminated_eq
  cases hterm : s.terminated with
  | true =>
      rw [afterStep_of_terminated hterm, afterStep_of_terminated (hterm' ▸ hterm), h.kind_eq,
        h.kind_eq']
      exact fail_accords _
  | false =>
      rw [hterm] at hterm'
      by_cases htotal : a = .total
      · subst htotal
        rw [afterStep_total hterm, afterStep_total hterm'.symm]
        exact afterTotal_inStep hterm h
      by_cases hkind : a.kind = kind
      · rw [afterStep_of_kind_eq hterm htotal (hkind.trans h.kind_eq.symm),
          afterStep_of_kind_eq hterm'.symm htotal (hkind.trans h.kind_eq'.symm)]
        have hall := Rolls.mapM_twinned (h.twinned_of_open hterm) fun _ _ _ _ ↦
          Rolls.apply_twins hquiet
        exact (hall.imp fun _ _ ↦ h.with_results).map
      · rw [afterStep_of_kind_ne hterm htotal (h.kind_eq ▸ hkind),
          afterStep_of_kind_ne hterm'.symm htotal (h.kind_eq' ▸ hkind), h.kind_eq, h.kind_eq']
        exact fail_accords _

theorem through_inStep (hown : ∀ q ∈ requests, ∀ a ∈ q.actions, a.explodes = false)
    (hactions : ∀ a ∈ actions, a.explodes = false) :
    (through kind requests actions).Accords (through kind requests actions)
      (InStep kind requests) := by
  rw [through_eq]
  refine (start_inStep kind requests).bind fun s s' hs ↦ ?_
  refine (afterRequestActions_inStep hown hs).bind fun t t' ht ↦ ?_
  refine Rolling.accords_foldlM (fun a ha u u' hu ↦ ?_) ht
  exact afterStep_inStep (hactions a ha) hu

/-- A count can only fail because a label is too long. -/
theorem afterCount_accords (h : InStep kind requests s s') :
    s.afterCount.Accords s'.afterCount fun _ _ ↦ True := by
  unfold afterCount
  rw [← h.terminated_eq, h.kind_eq, h.kind_eq']
  split
  · exact fail_accords _
  · refine (Rolling.accords_lift (fun _ _ _ _ ↦ trivial) (fun f hf ↦ .inl ?_)
      fun f hf ↦ .inl ?_).map
    all_goals
      rw [Rolls.tooLong_of_count hf]
      trivial

theorem run?_accords (kind : Kind) (counts : Bool)
    (hown : ∀ q ∈ requests, ∀ a ∈ q.actions, a.explodes = false)
    (hactions : ∀ a ∈ actions, a.explodes = false) :
    (run? kind requests actions counts).Accords (run? kind requests actions counts)
      fun o o' ↦ counts = false → Option.Rel (InStep kind requests) o o' := by
  by_cases hne : requests = []
  · subst hne
    exact Rolling.accords_pure fun _ ↦ .none
  · rw [run?_of_ne_nil hne]
    refine (through_inStep hown hactions).bind fun s s' hs ↦ ?_
    cases counts with
    | false => exact Rolling.accords_pure fun _ ↦ .some hs
    | true => exact ((afterCount_accords hs).imp fun _ _ _ hfalse ↦ nomatch hfalse).map

theorem corresponds_toList {o o' : Option Session} (h : Option.Rel (InStep kind requests) o o') :
    Forall₂ Rolls.Corresponds (o.toList.flatMap results) (o'.toList.flatMap results) := by
  cases h with
  | none => exact .nil
  | some hs => simpa using hs.corresponds

end Session

/-! ## Plans -/

namespace Plan

/-- Nothing in the plan explodes, neither for one request nor for all of them. -/
structure IsQuiet (p : Plan) : Prop where
  own_actions : ∀ q ∈ p.requests, ∀ a ∈ q.actions, a.explodes = false
  actions : ∀ a ∈ p.actions, a.explodes = false

variable {p : Plan}

theorem IsQuiet.numericActions (h : p.IsQuiet) (autoTotal : Bool) :
    ∀ a ∈ p.numericActions autoTotal, a.explodes = false := by
  unfold Plan.numericActions
  split
  · simp [Action.explodes]
  · exact h.actions

theorem run_accords (h : p.IsQuiet) (autoTotal : Bool) :
    (p.run autoTotal).Accords (p.run autoTotal) fun o o' ↦
      p.counts = false → Forall₂ Rolls.Corresponds o.results o'.results := by
  have hnumeric := Session.run?_accords .numeric p.counts
    (fun q hq ↦ h.own_actions q (List.mem_append_left _ hq)) (h.numericActions autoTotal)
  have hfudge := Session.run?_accords .fudge p.counts
    (fun q hq ↦ h.own_actions q (List.mem_append_right _ hq)) h.actions
  unfold run
  refine hnumeric.bind fun o o' ho ↦ hfudge.bind fun u u' hu ↦ Rolling.accords_pure ?_
  intro hcounts
  simp only [hcounts, Bool.false_eq_true, if_false, Outcome.results, Outcome.sessions,
    List.flatMap_append]
  exact List.rel_append (Session.corresponds_toList (ho hcounts))
    (Session.corresponds_toList (hu hcounts))

/-- Without explosions any two runs that luck does not stop end alike: both of them with the same
failure, or both with an outcome, and then, if nothing is counted, with results that have equally
many values. -/
theorem ends_alike_of_isQuiet (h : p.IsQuiet) (autoTotal : Bool) {draws draws' : Draws}
    (hluck : ∀ f left, (p.run autoTotal).run draws = .error f left → ¬f.OfLuck)
    (hluck' : ∀ f left, (p.run autoTotal).run draws' = .error f left → ¬f.OfLuck) :
    (∃ f left left', (p.run autoTotal).run draws = .error f left ∧
        (p.run autoTotal).run draws' = .error f left') ∨
      ∃ outcome outcome' left left', (p.run autoTotal).run draws = .ok outcome left ∧
        (p.run autoTotal).run draws' = .ok outcome' left' ∧
          (p.counts = false →
            Forall₂ Rolls.Corresponds outcome.results outcome'.results) := by
  have hends := run_accords h autoTotal draws draws'
  generalize (p.run autoTotal).run draws = result,
    (p.run autoTotal).run draws' = result' at hends hluck hluck' ⊢
  cases hends with
  | ok hresults => exact .inr ⟨_, _, _, _, rfl, rfl, hresults⟩
  | error => exact .inl ⟨_, _, _, rfl, rfl⟩
  | first hf => exact (hluck _ _ rfl hf).elim
  | second hf => exact (hluck' _ _ rfl hf).elim

/-- Luck decides which dice are rolled again, but not whether three values can be kept. -/
theorem ends_alike_of_isQuiet_selection :
    (∃ p outcome outcome' left left',
      readPlan {} "4D6 (AB 5D8 reroll(1)) keep-best(3)".toList = .ok p ∧ p.IsQuiet ∧
        (p.run false).run [0, 1, 2, 3, 0, 0, 7, 6, 0, 1, 2, 3] = .ok outcome left ∧
        (p.run false).run [5, 5, 5, 5, 1, 2, 3, 4, 5] = .ok outcome' left' ∧
          Forall₂ Rolls.Corresponds outcome.results outcome'.results) ∧
      ∃ p f left left', readPlan {} "4D6 (AB 2D8 reroll(1)) keep-best(3)".toList = .ok p ∧
        p.IsQuiet ∧ (p.run false).run [0, 1, 2, 3, 0, 0, 7, 6] = .error f left ∧
          (p.run false).run [5, 5, 5, 5, 1, 2] = .error f left' := by
  constructor
  · have hplan : ∃ p : Plan, readPlan {} "4D6 (AB 5D8 reroll(1)) keep-best(3)".toList = .ok p ∧
        p.IsQuiet ∧ p.counts = false ∧
          (Rolling.result? ((p.run false).run [0, 1, 2, 3, 0, 0, 7, 6, 0, 1, 2, 3])).isSome ∧
            (Rolling.result? ((p.run false).run [5, 5, 5, 5, 1, 2, 3, 4, 5])).isSome :=
      ⟨⟨[⟨4, .numbered 6 (by decide), none, [], by decide, by simp⟩,
          ⟨5, .numbered 8 (by decide), some "AB".toList,
            [.reroll .numeric (.ofList [.number 1])], by decide, by decide⟩],
          [], [.keep .best 3], false⟩,
        by decide +kernel, ⟨by decide, by decide⟩, rfl, by decide +kernel, by decide +kernel⟩
    obtain ⟨p, hread, hquiet, hcounts, hfirst, hsecond⟩ := hplan
    obtain ⟨⟨outcome, left⟩, hfirst⟩ := Option.isSome_iff_exists.1 hfirst
    obtain ⟨⟨outcome', left'⟩, hsecond⟩ := Option.isSome_iff_exists.1 hsecond
    have hrun := Rolling.eq_ok_of_result? hfirst
    have hrun' := Rolling.eq_ok_of_result? hsecond
    have hluck : ∀ f mid, (p.run false).run [0, 1, 2, 3, 0, 0, 7, 6, 0, 1, 2, 3] =
        .error f mid → ¬f.OfLuck := by simp [hrun]
    have hluck' : ∀ f mid, (p.run false).run [5, 5, 5, 5, 1, 2, 3, 4, 5] = .error f mid →
        ¬f.OfLuck := by simp [hrun']
    rcases ends_alike_of_isQuiet hquiet false hluck hluck' with
      ⟨f, mid, _, hfail, _⟩ | ⟨u, u', mid, mid', hu, hu', hresults⟩
    · cases hrun.symm.trans hfail
    · exact ⟨p, u, u', mid, mid', hread, hquiet, hu, hu', hresults hcounts⟩
  · have hplan : ∃ p : Plan, readPlan {} "4D6 (AB 2D8 reroll(1)) keep-best(3)".toList = .ok p ∧
        p.IsQuiet ∧
          Rolling.failure? ((p.run false).run [0, 1, 2, 3, 0, 0, 7, 6]) =
              some (.badSelection (.tooMany 3 2), []) ∧
            Rolling.failure? ((p.run false).run [5, 5, 5, 5, 1, 2]) =
              some (.badSelection (.tooMany 3 2), []) :=
      ⟨⟨[⟨4, .numbered 6 (by decide), none, [], by decide, by simp⟩,
          ⟨2, .numbered 8 (by decide), some "AB".toList,
            [.reroll .numeric (.ofList [.number 1])], by decide, by decide⟩],
          [], [.keep .best 3], false⟩,
        by decide +kernel, ⟨by decide, by decide⟩, by decide +kernel, by decide +kernel⟩
    obtain ⟨p, hread, hquiet, hfirst, hsecond⟩ := hplan
    have hrun := Rolling.eq_error_of_failure? hfirst
    have hrun' := Rolling.eq_error_of_failure? hsecond
    have hluck : ∀ f mid, (p.run false).run [0, 1, 2, 3, 0, 0, 7, 6] = .error f mid →
        ¬f.OfLuck := by simp [hrun, Failure.OfLuck]
    have hluck' : ∀ f mid, (p.run false).run [5, 5, 5, 5, 1, 2] = .error f mid → ¬f.OfLuck := by
      simp [hrun', Failure.OfLuck]
    rcases ends_alike_of_isQuiet hquiet false hluck hluck' with
      ⟨f, mid, mid', hfail, hfail'⟩ | ⟨u, _, mid, _, hu, _⟩
    · exact ⟨p, f, mid, mid', hread, hquiet, hfail, hfail'⟩
    · cases hrun.symm.trans hu

end Plan
end TabletopDice
