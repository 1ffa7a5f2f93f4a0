import TabletopDice.Proofs.RelatedLists
import TabletopDice.Proofs.Rolling.Application
import TabletopDice.Proofs.Session.Update

/-!
# Sessions underway

A session is underway as long as it holds one result for each of its requests, in the same order,
and all of them are consistent and of its kind.  Starting a session brings it underway, private
actions and steps other than a total keep it so, and each of them has a result only if the actions
are defined for the kind of the session.
-/

namespace TabletopDice

namespace Rolls

variable {results : List Rolls} {f : Failure}

theorem total_of_not_numeric {r : Rolls} (hr : r ∈ results) (hkind : r.kind ≠ .numeric) :
    total results = .error (.incompatible (.action .total) .fudge .notNumeric) := by
  cases hfind : results.find? fun r ↦ r.kind ≠ .numeric with
  | none =>
      have hnumeric := List.find?_eq_none.1 hfind r hr
      simp [hkind] at hnumeric
  | some other =>
      have hmismatched : Failure.Mismatched
          (.incompatible (.action .total) .fudge .notNumeric) := trivial
      have hfound := List.find?_some hfind
      have hother : other.kind = .fudge := by
        cases hkind : other.kind with
        | numeric => simp [hkind] at hfound
        | fudge => rfl
      rw [total, hfind]
      simp only [hother, hmismatched.raised]

theorem exists_subtotals (h : ∀ r ∈ results, r.kind = .numeric ∧ r.Consistent) :
    ∃ sums, subtotals results = .ok sums := by
  induction results with
  | nil => exact ⟨[], rfl⟩
  | cons r rest ih =>
      obtain ⟨hkind, hr⟩ := h r List.mem_cons_self
      obtain ⟨numbers, hnum⟩ := exists_eq_map_number fun v hv ↦ (hr.values_kind v hv).trans hkind
      obtain ⟨sums, hsums⟩ := ih fun s hs ↦ h s (List.mem_cons_of_mem r hs)
      refine ⟨sumOf numbers :: sums, ?_⟩
      rw [subtotals] at hsums ⊢
      rw [List.mapM_cons, hsums, hnum, calculable_map]
      rfl

theorem tooLong_of_total (h : ∀ r ∈ results, r.kind = .numeric ∧ r.Consistent)
    (hf : total results = .error f) : f = .numberTooLong none := by
  have hfind : results.find? (fun r ↦ r.kind ≠ .numeric) = none :=
    List.find?_eq_none.2 fun r hr ↦ by simp [(h r hr).1]
  rw [total, hfind] at hf
  by_cases hempty : results.isEmpty
  · simp only [if_pos hempty] at hf
    cases hf
  · simp only [if_neg hempty] at hf
    obtain ⟨sums, hsums⟩ := exists_subtotals h
    rw [sumUp, hsums, ok_bind] at hf
    rcases bind_eq_error_iff.1 hf with hf | ⟨u, _, hf⟩
    · exact tooLong_of_checkWritable hf
    · cases hf

theorem incidental_of_total (h : ∀ r ∈ results, r.kind = .numeric ∧ r.Consistent)
    (hf : total results = .error f) : f.Incidental := by
  rw [tooLong_of_total h hf]
  trivial

theorem tooLong_of_count (hf : count results = .error f) : f = .numberTooLong none := by
  rcases bind_eq_error_iff.1 hf with hf | ⟨u, _, hf⟩
  · exact tooLong_of_checkWritable hf
  · cases hf

theorem incidental_of_count (hf : count results = .error f) : f.Incidental := by
  rw [tooLong_of_count hf]
  trivial

end Rolls

namespace Session

structure Underway (s : Session) : Prop where
  terminated_eq : s.terminated = false
  requests_ne_nil : s.requests ≠ []
  origins : s.results.map Rolls.origin = s.requests.map some
  results_kind : ∀ r ∈ s.results, r.kind = s.kind
  results_consistent : ∀ r ∈ s.results, r.Consistent

variable {s : Session}

theorem Underway.exists_origin (h : s.Underway) {r : Rolls} (hr : r ∈ s.results) :
    ∃ q ∈ s.requests, r.origin = some q := by
  have hmem : r.origin ∈ s.requests.map some := by
    rw [← h.origins]
    exact List.mem_map_of_mem hr
  obtain ⟨q, hq, heq⟩ := List.mem_map.1 hmem
  exact ⟨q, hq, heq.symm⟩

theorem Underway.exists_result (h : s.Underway) {q : Request} (hq : q ∈ s.requests) :
    ∃ r ∈ s.results, r.origin = some q := by
  have hmem : some q ∈ s.results.map Rolls.origin := by
    rw [h.origins]
    exact List.mem_map_of_mem hq
  exact List.mem_map.1 hmem

theorem Underway.results_ne_nil (h : s.Underway) : s.results ≠ [] := by
  intro hnil
  have horigins := h.origins
  rw [hnil] at horigins
  exact h.requests_ne_nil (List.map_eq_nil_iff.1 horigins.symm)

/-- New results that follow the present ones keep a session underway. -/
theorem Underway.with_results (h : s.Underway) {results : List Rolls}
    (hresults : List.Forall₂ (fun r t ↦ t.Follows r) s.results results) :
    Underway { s with results } := by
  have horigins : s.results.map Rolls.origin = results.map Rolls.origin :=
    map_eq_map_of_related (hresults.imp fun r t ht ↦ ht.origin_eq.symm)
  refine ⟨h.terminated_eq, h.requests_ne_nil, horigins.symm.trans h.origins, fun t ht ↦ ?_,
    fun t ht ↦ ?_⟩
  · obtain ⟨r, hr, hfollows⟩ := exists_left_of_mem hresults ht
    exact hfollows.kind_eq.trans (h.results_kind r hr)
  · obtain ⟨r, hr, hfollows⟩ := exists_left_of_mem hresults ht
    exact hfollows.consistent

/-! ## Single steps -/

theorem roll_gives (q : Request) :
    q.roll.Gives (fun r ↦ r.kind = q.kind ∧ r.Consistent ∧ some q = r.origin)
      Failure.Incidental := by
  rw [Request.roll]
  apply (q.dice.roll_gives q.number).bind
  intro values hvalues
  apply Rolling.gives_lift_bind
  · exact fun f hf ↦ incidental_of_checkWritable hf
  · intro _ _
    refine Rolling.gives_pure ⟨rfl, ⟨hvalues, fun p hp ↦ ?_⟩, rfl⟩
    rw [← Option.mem_some.1 hp]

theorem start_of_kind {kind : Kind} {requests : List Request}
    (hkind : ∀ q ∈ requests, q.kind = kind) :
    start kind requests = (⟨kind, requests, ·, false⟩) <$> requests.mapM Request.roll := by
  have hfind : requests.find? (fun q ↦ q.kind ≠ kind) = none :=
    List.find?_eq_none.2 fun q hq ↦ by simp [hkind q hq]
  rw [start, hfind, ← bind_pure_comp]

/-- Requests of the session's kind bring the session underway. -/
theorem start_gives {kind : Kind} {requests : List Request} (hne : requests ≠ [])
    (hkind : ∀ q ∈ requests, q.kind = kind) :
    (start kind requests).Gives
      (fun s ↦ s.Underway ∧ s.kind = kind ∧ s.requests = requests) Failure.Incidental := by
  rw [start_of_kind hkind]
  refine ((Rolling.gives_mapM fun q _ ↦ roll_gives q).imp (fun results hresults ↦ ?_)
    fun _ hf ↦ hf).map
  refine ⟨⟨rfl, hne, ?_, fun r hr ↦ ?_, fun r hr ↦ ?_⟩, rfl, rfl⟩
  · exact (map_eq_map_of_related (hresults.imp fun q r hr ↦ hr.2.2)).symm
  · obtain ⟨q, hq, hroll⟩ := exists_left_of_mem hresults hr
    exact hroll.1.trans (hkind q hq)
  · obtain ⟨q, hq, hroll⟩ := exists_left_of_mem hresults hr
    exact hroll.2.1

/-- Requests of the session's kind are rolled, and others are refused. -/
theorem start_gives_of {kind : Kind} {requests : List Request} {good : Session → Prop}
    (h : (∀ q ∈ requests, q.kind = kind) → (requests.mapM Request.roll).Gives
      (fun results ↦ good ⟨kind, requests, results, false⟩) fun _ ↦ True) :
    (start kind requests).Gives good fun _ ↦ True := by
  by_cases hkind : ∀ q ∈ requests, q.kind = kind
  · rw [start_of_kind hkind]
    exact (h hkind).map
  · unfold start
    split
    · exact Rolling.gives_fail trivial
    · next hfind =>
        refine (hkind fun q hq ↦ ?_).elim
        simpa using List.find?_eq_none.1 hfind q hq

/-- An open session takes every result through the private actions. -/
theorem afterRequestActions_gives_of {good : Session → Prop}
    (h : s.terminated = false → (s.results.mapM Rolls.applyOwn).Gives
      (fun results ↦ good { s with results }) fun _ ↦ True) :
    s.afterRequestActions.Gives good fun _ ↦ True := by
  unfold afterRequestActions
  split
  · exact Rolling.gives_fail trivial
  · next hopen => exact (h (Bool.eq_false_iff.2 hopen)).map

/-- An open session adds up all results, or it takes every result through the action. -/
theorem afterStep_gives_of {good : Session → Prop} {a : Action}
    (htotal : s.terminated = false → a = .total → s.afterTotal.Gives good fun _ ↦ True)
    (happly : s.terminated = false → a ≠ .total → (s.results.mapM a.apply).Gives
      (fun results ↦ good { s with results }) fun _ ↦ True) :
    (s.afterStep a).Gives good fun _ ↦ True := by
  unfold afterStep
  split
  · exact Rolling.gives_fail trivial
  next hopen =>
  have hopen := Bool.eq_false_iff.2 hopen
  split
  · next h => exact htotal hopen h
  next hne =>
  split
  · exact Rolling.gives_fail trivial
  · exact (happly hopen hne).map

theorem applyOwn_eq {r : Rolls} {q : Request} (hq : r.origin = some q) :
    r.applyOwn = Action.applyAll q.actions r := by
  rw [Rolls.applyOwn, hq]

theorem afterRequestActions_gives (h : s.Underway) :
    s.afterRequestActions.Gives
      (fun t ↦ (∀ q ∈ s.requests, ∀ a ∈ q.actions, a.kind = s.kind) ∧
        t.Underway ∧ t.kind = s.kind ∧ t.requests = s.requests)
      (Failure.Blames (∃ q ∈ s.requests, ∃ a ∈ q.actions, a.kind ≠ s.kind)) := by
  rw [afterRequestActions, if_neg (by simp [h.terminated_eq])]
  have hroll : ∀ r ∈ s.results, r.applyOwn.Gives
      (fun t ↦ (∀ q ∈ r.origin, ∀ a ∈ q.actions, a.kind = s.kind) ∧ t.Follows r)
      (Failure.Blames (∃ q ∈ s.requests, ∃ a ∈ q.actions, a.kind ≠ s.kind)) := by
    intro r hr
    obtain ⟨q, hmem, hq⟩ := h.exists_origin hr
    have hkind := h.results_kind r hr
    rw [applyOwn_eq hq]
    refine (Action.applyAll_gives q.actions (h.results_consistent r hr) hq).imp
      (fun t ht ↦ ⟨fun p hp ↦ ?_, ht.2⟩) fun f hf ↦ hf.imp ?_
    · obtain rfl := Option.some.inj (hq.symm.trans hp)
      exact fun a ha ↦ (ht.1 a ha).trans hkind
    · rintro ⟨a, ha, hne⟩
      exact ⟨q, hmem, a, ha, hkind ▸ hne⟩
  refine ((Rolling.gives_mapM hroll).imp (fun results hresults ↦ ?_) fun f hf ↦ hf).map
  refine ⟨fun q hq ↦ ?_, h.with_results (hresults.imp fun r t ht ↦ ht.2), rfl, rfl⟩
  obtain ⟨r, hr, horigin⟩ := h.exists_result hq
  obtain ⟨t, _, ht⟩ := exists_right_of_mem hresults hr
  exact ht.1 q horigin

theorem afterTotal_gives (h : s.Underway) :
    s.afterTotal.Gives (fun t ↦ s.kind = .numeric ∧ t.terminated ∧ t.kind = s.kind)
      (Failure.Blames (s.kind ≠ .numeric)) := by
  refine Rolling.Gives.map (Rolling.gives_ofExcept (fun total htotal ↦ ?_) fun f hf ↦ ?_)
  · refine ⟨?_, rfl, rfl⟩
    by_contra hkind
    obtain ⟨r, hr⟩ := List.exists_mem_of_ne_nil _ h.results_ne_nil
    cases htotal.symm.trans (Rolls.total_of_not_numeric hr (h.results_kind r hr ▸ hkind))
  · by_cases hkind : s.kind = .numeric
    · exact .inl (Rolls.incidental_of_total
        (fun r hr ↦ ⟨(h.results_kind r hr).trans hkind, h.results_consistent r hr⟩) hf)
    · obtain ⟨r, hr⟩ := List.exists_mem_of_ne_nil _ h.results_ne_nil
      cases hf.symm.trans (Rolls.total_of_not_numeric hr (h.results_kind r hr ▸ hkind))
      exact .inr ⟨trivial, hkind⟩

/-- A step other than a total keeps the session underway; a total ends it. -/
theorem afterStep_gives (h : s.Underway) (a : Action) :
    (s.afterStep a).Gives
      (fun t ↦ a.kind = s.kind ∧ t.kind = s.kind ∧
        if a = .total then t.terminated = true else t.Underway)
      (Failure.Blames (a.kind ≠ s.kind)) := by
  by_cases htotal : a = .total
  · subst htotal
    rw [afterStep_total h.terminated_eq]
    refine (afterTotal_gives h).imp (fun t ht ↦ ?_) fun f hf ↦ hf.imp fun hkind ↦ Ne.symm hkind
    exact ⟨ht.1.symm, ht.2.2, by simpa using ht.2.1⟩
  by_cases hkind : a.kind = s.kind
  · rw [afterStep_of_kind_eq h.terminated_eq htotal hkind]
    have hroll : ∀ r ∈ s.results, (a.apply r).Gives (·.Follows r)
        (Failure.Blames (a.kind ≠ s.kind)) := by
      intro r hr
      obtain ⟨q, _, hq⟩ := h.exists_origin hr
      rw [← h.results_kind r hr]
      exact (a.apply_gives (h.results_consistent r hr) hq).imp (fun t ht ↦ ht.2) fun f hf ↦ hf
    refine ((Rolling.gives_mapM hroll).imp (fun results hresults ↦ ?_) fun f hf ↦ hf).map
    rw [if_neg htotal]
    exact ⟨hkind, rfl, h.with_results hresults⟩
  · rw [afterStep_of_kind_ne h.terminated_eq htotal hkind]
    have hfail : Rolling.Gives (Rolling.fail (.incompatible (.action a) s.kind .kind))
        (fun _ : Session ↦ False) Failure.Mismatched := Rolling.gives_fail_of_mismatched trivial
    exact hfail.imp (fun _ h ↦ h.elim) fun f hf ↦ .inr ⟨hf, hkind⟩

theorem afterStep_gives_of_terminated (h : s.terminated) (a : Action) :
    (s.afterStep a).Gives (fun _ ↦ False) Failure.Mismatched := by
  rw [afterStep_of_terminated h]
  exact Rolling.gives_fail_of_mismatched trivial

theorem afterCount_gives (h : s.terminated = false) :
    s.afterCount.Gives (fun _ ↦ True) Failure.Incidental := by
  rw [afterCount, if_neg (by simp [h])]
  exact Rolling.Gives.map (Rolling.gives_ofExcept (fun _ _ ↦ trivial)
    fun f hf ↦ Rolls.incidental_of_count hf)

theorem afterCount_ends (s : Session) :
    s.afterCount.Gives (fun t ↦ s.terminated = false ∧ t.terminated) fun _ ↦ True := by
  unfold afterCount
  split
  · exact Rolling.gives_fail trivial
  · next hopen =>
      refine Rolling.Gives.map (Rolling.gives_ofExcept (fun _ _ ↦ ?_) fun _ _ ↦ trivial)
      exact ⟨Bool.eq_false_iff.2 hopen, rfl⟩

theorem afterCount_gives_of_terminated (h : s.terminated) :
    s.afterCount.Gives (fun _ ↦ False) Failure.Mismatched := by
  rw [afterCount, if_pos h]
  exact Rolling.gives_fail_of_mismatched trivial

end Session
end TabletopDice
