import TabletopDice.Proofs.Session.Keeping
import TabletopDice.Proofs.Session.Underway

/-!
# Sessions and their requests

Until it ends, a session holds one result for each of its requests, in their order.  A total leaves
a single number that belongs to no request, and only numbers can be totalled.  Whatever steps are
taken, and whichever of them fail, a session represents the requests from which it was started.
-/

namespace TabletopDice

open List (Forall₂)

variable {kind : Kind} {requests : List Request} {q : Request}

/-! ## Results -/

namespace Rolls

/-- The rolls have come from the request of this kind by way of actions. -/
structure StemsFrom (kind : Kind) (q : Request) (r : Rolls) : Prop where
  request_kind : q.kind = kind
  origin_eq : r.origin = some q
  kind_eq : r.kind = kind
  values_kind : ∀ v ∈ r.values, v.kind = kind
  description_prefix : q.text <+: r.description

/-- A single number, and no request behind it. -/
def IsAggregate (r : Rolls) : Prop := ∃ description n, r = aggregate description n

variable {r : Rolls}

theorem StemsFrom.consistent (h : StemsFrom kind q r) : r.Consistent := by
  refine ⟨fun v hv ↦ (h.values_kind v hv).trans h.kind_eq.symm, fun p hp ↦ ?_⟩
  obtain rfl := Option.some.inj (h.origin_eq.symm.trans hp)
  exact h.request_kind.trans h.kind_eq.symm

theorem apply_stemsFrom (h : StemsFrom kind q r) (a : Action) :
    (a.apply r).Gives (StemsFrom kind q) fun _ ↦ True := by
  have hgives := (a.apply_gives h.consistent h.origin_eq).and (a.apply_describes r)
  refine hgives.imp ?_ fun _ _ ↦ trivial
  rintro t ⟨⟨_, hfollows⟩, hdescription, _⟩
  have hkind := hfollows.kind_eq.trans h.kind_eq
  refine ⟨h.request_kind, hfollows.origin_eq.trans h.origin_eq, hkind, fun v hv ↦ ?_, ?_⟩
  · exact (hfollows.consistent.values_kind v hv).trans hkind
  · rw [hdescription]
    exact h.description_prefix.trans (List.prefix_append _ _)

theorem applyAll_stemsFrom (h : StemsFrom kind q r) (actions : List Action) :
    (Action.applyAll actions r).Gives (StemsFrom kind q) fun _ ↦ True :=
  Rolling.gives_foldlM_of_keeps (fun _ a hr ↦ apply_stemsFrom hr a) h

theorem applyOwn_stemsFrom (h : StemsFrom kind q r) :
    r.applyOwn.Gives (StemsFrom kind q) fun _ ↦ True := by
  rw [Session.applyOwn_eq h.origin_eq]
  exact applyAll_stemsFrom h q.actions

theorem roll_stemsFrom (q : Request) : q.roll.Gives (StemsFrom q.kind q) fun _ ↦ True := by
  rw [Request.roll]
  refine (q.dice.roll_gives q.number).good_only.bind fun values hvalues ↦ ?_
  refine Rolling.gives_lift_bind (fun _ _ ↦ trivial) fun _ _ ↦ Rolling.gives_pure ?_
  exact ⟨rfl, rfl, rfl, hvalues, List.prefix_refl _⟩

variable {results : List Rolls}

theorem isAggregate_of_total (h : total results = .ok r) : r.IsAggregate := by
  unfold total at h
  split at h
  · cases h
  split at h
  · cases h
    exact ⟨_, _, rfl⟩
  · obtain ⟨sums, _, h⟩ := bind_eq_ok_iff.1 h
    obtain ⟨_, _, h⟩ := bind_eq_ok_iff.1 h
    cases h
    exact ⟨_, _, rfl⟩

theorem isAggregate_of_count {counts : List Rolls} (h : count results = .ok counts) :
    ∀ r ∈ counts, r.IsAggregate := by
  obtain ⟨_, _, h⟩ := bind_eq_ok_iff.1 h
  cases h
  intro r hr
  obtain ⟨v, _, rfl⟩ := List.mem_map.1 hr
  exact ⟨_, _, rfl⟩

/-- Only numeric results have a total, unless there are no results at all. -/
theorem kind_of_total (h : total results = .ok r) (hkind : ∀ s ∈ results, s.kind = kind)
    (hne : results ≠ []) : kind = .numeric := by
  cases kind with
  | numeric => rfl
  | fudge =>
      obtain ⟨s, hs⟩ := List.exists_mem_of_ne_nil _ hne
      cases h.symm.trans (total_of_not_numeric hs (by simp [hkind s hs]))

end Rolls

/-! ## Sessions -/

namespace Session

/-- The session was started from requests of this kind and is still the same session. -/
structure Represents (kind : Kind) (requests : List Request) (s : Session) : Prop where
  kind_eq : s.kind = kind
  requests_eq : s.requests = requests
  results_of_open : s.terminated = false → Forall₂ (Rolls.StemsFrom kind) requests s.results
  result_of_terminated : s.terminated → ∃ r, s.results = [r] ∧ r.IsAggregate
  numeric_of_terminated : s.terminated → requests ≠ [] → kind = .numeric

/-- The session holds counts and accepts nothing more. -/
structure IsCount (s : Session) : Prop where
  kind_eq : s.kind = .numeric
  requests_eq : s.requests = []
  terminated_eq : s.terminated = true
  results_aggregate : ∀ r ∈ s.results, r.IsAggregate

variable {s : Session}

theorem results_kind (h : Forall₂ (Rolls.StemsFrom kind) requests s.results) :
    ∀ r ∈ s.results, r.kind = kind := by
  intro r hr
  obtain ⟨q, _, hq⟩ := exists_left_of_mem h hr
  exact hq.kind_eq

theorem results_ne_nil (h : Forall₂ (Rolls.StemsFrom kind) requests s.results)
    (hne : requests ≠ []) : s.results ≠ [] := by
  intro hnil
  rw [hnil] at h
  exact hne (List.forall₂_nil_right_iff.1 h)

theorem rolled_stemsFrom (hkind : ∀ q ∈ requests, q.kind = kind) :
    (requests.mapM Request.roll).Gives (Forall₂ (Rolls.StemsFrom kind) requests)
      fun _ ↦ True := by
  refine Rolling.gives_mapM fun q hq ↦ ?_
  rw [← hkind q hq]
  exact Rolls.roll_stemsFrom q

theorem start_represents (kind : Kind) (requests : List Request) :
    (start kind requests).Gives (Represents kind requests) fun _ ↦ True := by
  refine start_gives_of fun hkind ↦ (rolled_stemsFrom hkind).imp (fun results hresults ↦ ?_)
    fun _ h ↦ h
  exact ⟨rfl, rfl, fun _ ↦ hresults, by simp, by simp⟩

theorem Represents.open_of_fudge (h : s.Represents .fudge requests) (hne : requests ≠ []) :
    s.terminated = false := by
  refine Bool.eq_false_iff.2 fun hterm ↦ ?_
  cases h.numeric_of_terminated hterm hne

theorem Represents.origins (h : s.Represents kind requests) (hopen : s.terminated = false) :
    s.results.map Rolls.origin = requests.map some :=
  (map_eq_map_of_related ((h.results_of_open hopen).imp fun _ _ hr ↦ hr.origin_eq.symm)).symm

/-- New results that stem from the requests may take the place of the present ones. -/
theorem Represents.with_results (h : s.Represents kind requests) (hopen : s.terminated = false)
    {results : List Rolls} (hresults : Forall₂ (Rolls.StemsFrom kind) requests results) :
    Represents kind requests { s with results } :=
  ⟨h.kind_eq, h.requests_eq, fun _ ↦ hresults, by simp [hopen], by simp [hopen]⟩

theorem afterRequestActions_represents (h : s.Represents kind requests) :
    s.afterRequestActions.Gives (Represents kind requests) fun _ ↦ True := by
  refine afterRequestActions_gives_of fun hopen ↦ ?_
  have hown := Rolling.gives_mapM_of_related (h.results_of_open hopen) fun q r hr ↦
    Rolls.applyOwn_stemsFrom hr
  exact hown.imp (fun results hresults ↦ h.with_results hopen hresults) fun _ h ↦ h

theorem afterTotal_represents (h : s.Represents kind requests) (hopen : s.terminated = false) :
    s.afterTotal.Gives (Represents kind requests) fun _ ↦ True := by
  have hresults := h.results_of_open hopen
  refine Rolling.Gives.map (Rolling.gives_ofExcept (fun total htotal ↦ ?_) fun _ _ ↦ trivial)
  refine ⟨h.kind_eq, h.requests_eq, by simp, fun _ ↦ ?_, fun _ hne ↦ ?_⟩
  · exact ⟨total, rfl, Rolls.isAggregate_of_total htotal⟩
  · exact Rolls.kind_of_total htotal (results_kind hresults) (results_ne_nil hresults hne)

theorem afterStep_represents (h : s.Represents kind requests) (a : Action) :
    (s.afterStep a).Gives (Represents kind requests) fun _ ↦ True := by
  refine afterStep_gives_of (fun hopen _ ↦ afterTotal_represents h hopen) fun hopen _ ↦ ?_
  have happly := Rolling.gives_mapM_of_related (h.results_of_open hopen) fun q r hr ↦
    Rolls.apply_stemsFrom hr a
  exact happly.imp (fun results hresults ↦ h.with_results hopen hresults) fun _ h ↦ h

/-- Steps that go on with the session keep it in accordance with its requests. -/
theorem represents_after {steps : List Step} (hsteps : .enterCount ∉ steps) {table : Table}
    (h : table.session.Represents kind requests) :
    (table.after steps).session.Represents kind requests := by
  refine Table.after_keeps (fun step hstep ↦ ?_) h
  refine Step.perform_keeps ?_ (fun a ↦ ?_) (ne_of_mem_of_not_mem hstep hsteps)
  · rw [applyRequestActions_eq]
    exact Play.keeps_update fun s hs ↦ afterRequestActions_represents hs
  · rw [addStep_eq]
    exact Play.keeps_update fun s hs ↦ afterStep_represents hs a

theorem isCount_of_counted {table left : Table} {counts : Session}
    (h : counted.run table = .ok counts left) : counts.IsCount := by
  rw [run_counted] at h
  split at h
  · cases h
  split at h
  · next counts hcounts =>
      cases h
      exact ⟨rfl, rfl, rfl, Rolls.isAggregate_of_count hcounts⟩
  · cases h

/-- Steps that go on with the session lead to the table from the start of a session. -/
def Reached (kind : Kind) (requests : List Request) (table : Table) : Prop :=
  ∃ (draws left : Draws) (s : Session) (steps : List Step),
    (start kind requests).run draws = .ok s left ∧ .enterCount ∉ steps ∧
      table = Table.after ⟨s, left⟩ steps

variable {table : Table}

theorem Reached.represents (h : Reached kind requests table) :
    table.session.Represents kind requests := by
  obtain ⟨draws, left, s, steps, hstart, hsteps, rfl⟩ := h
  exact represents_after hsteps ((start_represents kind requests).of_ok hstart)

/-- Whatever steps have been taken, the session represents its requests, it is numeric if it has
ended, and a count of it is a session of counts. -/
theorem represents_of_reached (hne : requests ≠ []) (h : Reached kind requests table) :
    table.session.Represents kind requests ∧
      (table.session.terminated → table.session.kind = .numeric) ∧
      (kind = .fudge → table.session.terminated = false) ∧
      ∀ counts left, counted.run table = .ok counts left → counts.IsCount := by
  have hrep := h.represents
  refine ⟨hrep, fun hterm ↦ ?_, ?_, fun _ _ ↦ isCount_of_counted⟩
  · exact hrep.kind_eq.trans (hrep.numeric_of_terminated hterm hne)
  · rintro rfl
    exact hrep.open_of_fudge hne

/-- A selection fails, a count changes nothing, and the total stays when a sum is refused. -/
theorem represents_of_reached_total :
    ∃ (requests : List Request) (table : Table),
      requests ≠ [] ∧ Reached .numeric requests table ∧ table.session.terminated ∧
        table.session.Represents .numeric requests ∧ table.session.kind = .numeric ∧
          ∀ counts left, counted.run table = .ok counts left → counts.IsCount := by
  have hstart : (start .numeric
      [⟨2, .numbered 6 (by decide), none, [.multiply 2], by decide, by simp⟩,
        ⟨1, .const (.number 5), none, [], by decide, by simp⟩]).run [1, 4] = .ok _ [] := rfl
  have hreached : Reached .numeric _ (Table.after _
      [.action (.keep .best 3), .requestActions, .count, .action .total, .action .sum]) :=
    ⟨_, _, _, _, hstart, by simp, rfl⟩
  obtain ⟨hrep, hnumeric, -, hcount⟩ := represents_of_reached (List.cons_ne_nil _ _) hreached
  refine ⟨_, _, List.cons_ne_nil _ _, hreached, ?hterm, hrep, hnumeric ?hterm, hcount⟩
  simp only [Table.after, List.foldl_cons, Step.leaves_count]
  decide +kernel

/-! ## Actions of the other kind -/

theorem run_update_of_mismatched {next : Session → Rolling Session} {f : Failure}
    (hf : f.Mismatched) (h : next table.session = Rolling.fail f) :
    (Play.update next).run table = .error f table := by
  obtain ⟨s, draws⟩ := table
  refine Play.run_update_of_error ?_
  rw [h]
  exact Rolling.run_fail_of_mismatched hf draws

theorem run_addStep_of_mismatched {a : Action} {f : Failure} (hf : f.Mismatched)
    (h : table.session.afterStep a = Rolling.fail f) :
    (addStep a).run table = .error f table := by
  rw [addStep_eq]
  exact run_update_of_mismatched hf h

theorem run_addStep_total (hopen : table.session.terminated = false) :
    (addStep .total).run table = match Rolls.total table.session.results with
      | .ok total =>
          .ok () { table with
            session := { table.session with results := [total], terminated := true } }
      | .error f => .error f table := by
  obtain ⟨⟨kind, requests, results, terminated⟩, draws⟩ := table
  cases hopen
  rw [addStep_eq]
  change (Play.update fun _ ↦ afterStep ⟨kind, requests, results, false⟩ .total).run
    ⟨⟨kind, requests, results, false⟩, draws⟩ = _
  rw [afterStep_total rfl, afterTotal]
  cases Rolls.total results <;> rfl

theorem run_addStep_total_of_fudge (h : table.session.Represents .fudge requests)
    (hne : requests ≠ []) :
    (addStep .total).run table =
      .error (.incompatible (.action .total) .fudge .notNumeric) table := by
  have hopen := h.open_of_fudge hne
  have hresults := h.results_of_open hopen
  obtain ⟨r, hr⟩ := List.exists_mem_of_ne_nil _ (results_ne_nil hresults hne)
  rw [run_addStep_total hopen,
    Rolls.total_of_not_numeric hr (by simp [results_kind hresults r hr])]

/-- An action of the other kind is refused, and nothing changes; a total of no requests at all is
the only exception.  So no fudge session with requests ever holds a numeric result. -/
theorem refused_of_other_kind (h : Reached kind requests table) :
    (∀ a : Action, a.kind ≠ kind →
        (∃ reason, (addStep a).run table =
            .error (.incompatible (.action a) kind reason) table) ∨
          a = .total ∧ requests = [] ∧ (addStep a).run table =
            .ok () { table with
              session := { table.session with
                results := [.aggregate "TOTAL (no dice to total)".toList 0]
                terminated := true } }) ∧
      (kind = .fudge → requests ≠ [] → ∀ r ∈ table.session.results, r.kind = .fudge) := by
  have hrep := h.represents
  constructor
  · intro a ha
    by_cases hterm : table.session.terminated
    · refine .inl ⟨.terminated, run_addStep_of_mismatched trivial ?_⟩
      rw [afterStep_of_terminated hterm, hrep.kind_eq]
    have hopen := Bool.eq_false_iff.2 hterm
    by_cases htotal : a = .total
    · subst htotal
      obtain rfl : kind = .fudge := by
        cases kind with
        | numeric => exact (ha rfl).elim
        | fudge => rfl
      by_cases hne : requests = []
      · subst hne
        have hresults := List.forall₂_nil_left_iff.1 (hrep.results_of_open hopen)
        rw [run_addStep_total hopen, hresults]
        exact .inr ⟨rfl, rfl, rfl⟩
      · exact .inl ⟨.notNumeric, run_addStep_total_of_fudge hrep hne⟩
    · refine .inl ⟨.kind, run_addStep_of_mismatched trivial ?_⟩
      rw [afterStep_of_kind_ne hopen htotal (hrep.kind_eq ▸ ha), hrep.kind_eq]
  · rintro rfl hne
    exact results_kind (hrep.results_of_open (hrep.open_of_fudge hne))

theorem refused_of_other_kind_total :
    ∃ (requests : List Request) (table : Table),
      Reached .fudge requests table ∧ requests ≠ [] ∧
        (∃ reason, (addStep .total).run table =
          .error (.incompatible (.action .total) .fudge reason) table) ∧
        ∀ r ∈ table.session.results, r.kind = .fudge := by
  have hstart : (start .fudge [⟨4, .fudge, none, [], by decide, by simp⟩]).run [0, 1, 2, 1, 2] =
      .ok _ [2] := rfl
  have hreached : Reached .fudge _ (Table.after _
      [.action (.reroll .fudge (.ofList [.face .blank]))]) :=
    ⟨_, _, _, _, hstart, by simp, rfl⟩
  obtain ⟨hrefused, hresults⟩ := refused_of_other_kind hreached
  refine ⟨_, _, hreached, List.cons_ne_nil _ _, ?_, hresults rfl (List.cons_ne_nil _ _)⟩
  rcases hrefused .total (by decide) with h | ⟨_, hnil, _⟩
  · exact h
  · cases hnil

/-- A fudge session without requests accepts a total, ends, and holds a numeric result. -/
theorem total_accepted_of_no_requests :
    ∃ table left : Table, Reached .fudge [] table ∧ Action.total.kind ≠ .fudge ∧
      (addStep .total).run table = .ok () left ∧ left.session.kind = .fudge ∧
        table.session.terminated = false ∧ left.session.terminated = true ∧
          ∃ r ∈ left.session.results, r.kind = .numeric := by
  have hreached : Reached .fudge [] (Table.after ⟨⟨.fudge, [], [], false⟩, []⟩ []) :=
    ⟨[], [], _, [], rfl, by simp, rfl⟩
  exact ⟨_, _, hreached, by decide, rfl, rfl, rfl, rfl, _, List.mem_cons_self, rfl⟩

end Session

end TabletopDice
