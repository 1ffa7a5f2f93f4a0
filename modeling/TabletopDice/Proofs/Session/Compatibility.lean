import TabletopDice.Proofs.Session.Underway

/-!
# Compatibility as a property of the plan

Whether every action of a plan is defined for the rolls it meets can be told from the plan alone: a
plan is well-kinded if it is.  A run of a well-kinded plan fails because of its values or draws
only, and a run of any other plan has no outcome.
-/

namespace TabletopDice

/-! ## Common actions of a session -/

namespace Session

/-- All actions are of this kind, and no action follows a total. -/
structure InOrder (kind : Kind) (actions : List Action) : Prop where
  kind_eq : ∀ a ∈ actions, a.kind = kind
  total_last : .total ∉ actions.dropLast

variable {s : Session} {kind : Kind} {requests : List Request} {actions : List Action}

theorem inOrder_nil (kind : Kind) : InOrder kind [] := ⟨by simp, by simp⟩

theorem inOrder_cons {a : Action} {rest : List Action} :
    InOrder kind (a :: rest) ↔ a.kind = kind ∧ InOrder kind rest ∧ (a = .total → rest = []) := by
  have hlast : .total ∉ (a :: rest).dropLast ↔
      .total ∉ rest.dropLast ∧ (a = .total → rest = []) := by
    cases rest with
    | nil => simp
    | cons b rest => simp [List.dropLast_cons_cons, and_comm, eq_comm]
  constructor
  · intro h
    obtain ⟨hdrop, hnil⟩ := hlast.1 h.total_last
    exact ⟨h.kind_eq a List.mem_cons_self,
      ⟨fun b hb ↦ h.kind_eq b (List.mem_cons_of_mem a hb), hdrop⟩, hnil⟩
  · rintro ⟨ha, hrest, hnil⟩
    refine ⟨fun b hb ↦ ?_, hlast.2 ⟨hrest.total_last, hnil⟩⟩
    rcases List.mem_cons.1 hb with rfl | hb
    · exact ha
    · exact hrest.kind_eq b hb

/-- Steps on a session underway have a result only if they are in order. -/
theorem foldlM_afterStep_gives (h : s.Underway) (actions : List Action) :
    Rolling.Gives (actions.foldlM afterStep s)
      (fun t ↦ InOrder s.kind actions ∧ t.terminated = decide (.total ∈ actions))
      (Failure.Blames ¬InOrder s.kind actions) := by
  induction actions generalizing s with
  | nil => exact Rolling.gives_pure ⟨inOrder_nil s.kind, by simp [h.terminated_eq]⟩
  | cons a rest ih =>
      rw [List.foldlM_cons]
      have hfirst := (afterStep_gives h a).imp (fun _ ht ↦ ht) fun f hf ↦
        (hf.imp fun hne hfit ↦ hne (inOrder_cons.1 hfit).1 : f.Blames ¬InOrder s.kind (a :: rest))
      apply hfirst.bind
      rintro t ⟨ha, hkind, hnext⟩
      by_cases htotal : a = .total
      · rw [if_pos htotal] at hnext
        cases rest with
        | nil =>
            refine Rolling.gives_pure ⟨inOrder_cons.2 ⟨ha, inOrder_nil _, fun _ ↦ rfl⟩, ?_⟩
            simp [hnext, htotal]
        | cons b rest =>
            rw [List.foldlM_cons]
            have hend := (afterStep_gives_of_terminated hnext b).imp (fun _ hu ↦ hu) fun f hf ↦
              (.inr ⟨hf, fun hfit ↦ by cases (inOrder_cons.1 hfit).2.2 htotal⟩ :
                f.Blames ¬InOrder s.kind (a :: b :: rest))
            exact hend.bind fun _ hu ↦ hu.elim
      · rw [if_neg htotal] at hnext
        refine (ih hnext).imp (fun u hu ↦ ?_) fun f hf ↦ hf.imp fun hunfit hfit ↦ hunfit ?_
        · refine ⟨inOrder_cons.2 ⟨ha, hkind ▸ hu.1, fun h ↦ (htotal h).elim⟩, ?_⟩
          simp [hu.2, Ne.symm htotal]
        · exact hkind ▸ (inOrder_cons.1 hfit).2.1

/-! ## All steps of a session -/

/-- Everything that is asked of a session of this kind is defined for it. -/
structure Fits (kind : Kind) (requests : List Request) (actions : List Action) (counts : Bool) :
    Prop where
  own_kind : ∀ q ∈ requests, ∀ a ∈ q.actions, a.kind = kind
  inOrder : InOrder kind actions
  total_alone : counts → .total ∉ actions

theorem run?_gives (hkind : ∀ q ∈ requests, q.kind = kind) (actions : List Action)
    (counts : Bool) :
    (run? kind requests actions counts).Gives
      (fun _ ↦ requests ≠ [] → Fits kind requests actions counts)
      (Failure.Blames ¬(requests ≠ [] → Fits kind requests actions counts)) := by
  by_cases hne : requests = []
  · rw [run?, if_pos (by simp [hne])]
    exact Rolling.gives_pure fun h ↦ (h hne).elim
  rw [run?, if_neg (by simp [hne])]
  refine ((start_gives hne hkind).imp (fun _ h ↦ h) fun f hf ↦ .inl hf).bind
    fun s ⟨hs, hskind, hsreq⟩ ↦ ?_
  simp only [after_pipeline, bind_assoc]
  subst hskind hsreq
  have hown := (afterRequestActions_gives hs).imp (fun _ h ↦ h) fun f hf ↦
    (hf.imp fun ⟨q, hq, a, ha, hne'⟩ hfit ↦ hne' ((hfit hne).own_kind q hq a ha) :
      f.Blames ¬(s.requests ≠ [] → Fits s.kind s.requests actions counts))
  apply hown.bind
  rintro t ⟨hfirst, ht, htkind, _⟩
  have hsteps := (foldlM_afterStep_gives ht actions).imp (fun _ h ↦ h) fun f hf ↦
    (hf.imp fun hout hfit ↦ hout (htkind ▸ (hfit hne).inOrder) :
      f.Blames ¬(s.requests ≠ [] → Fits s.kind s.requests actions counts))
  apply hsteps.bind
  rintro u ⟨hinOrder, hterm⟩
  rw [htkind] at hinOrder
  cases counts with
  | false => exact Rolling.gives_pure fun _ ↦ ⟨hfirst, hinOrder, by simp⟩
  | true =>
      by_cases htotal : .total ∈ actions
      · have hend := afterCount_gives_of_terminated (s := u) (by simp [hterm, htotal])
        refine (hend.imp (fun _ h ↦ h) fun f hf ↦ ?_).bind fun _ hv ↦ hv.elim
        exact .inr ⟨hf, fun hfit ↦ (hfit hne).total_alone rfl htotal⟩
      · have hend := afterCount_gives (s := u) (by simp [hterm, htotal])
        refine (hend.imp (fun _ h ↦ h) fun f hf ↦ .inl hf).bind fun _ _ ↦ ?_
        exact Rolling.gives_pure fun _ ↦ ⟨hfirst, hinOrder, fun _ ↦ htotal⟩

end Session

/-! ## Plans -/

namespace Plan

/-- The requests stand in the list of their kind, and there is one. -/
structure Sorted (p : Plan) : Prop where
  numeric_kind : ∀ q ∈ p.numeric, q.kind = .numeric
  fudge_kind : ∀ q ∈ p.fudge, q.kind = .fudge
  requests_ne_nil : p.requests ≠ []

/-- The actions of each request are defined for its kind, the common actions are defined for every
kind of which there are requests, and a total among them stands at the end and without a count. -/
structure WellKinded (p : Plan) : Prop where
  own_kind : ∀ q ∈ p.requests, ∀ a ∈ q.actions, a.kind = q.kind
  numeric_kind : p.numeric ≠ [] → ∀ a ∈ p.actions, a.kind = .numeric
  fudge_kind : p.fudge ≠ [] → ∀ a ∈ p.actions, a.kind = .fudge
  total_last : .total ∉ p.actions.dropLast
  total_alone : p.counts → .total ∉ p.actions

variable {p : Plan}

theorem wellKinded_iff (h : p.Sorted) :
    p.WellKinded ↔
      (p.numeric ≠ [] → Session.Fits .numeric p.numeric p.actions p.counts) ∧
        (p.fudge ≠ [] → Session.Fits .fudge p.fudge p.actions p.counts) := by
  constructor
  · intro hp
    refine ⟨fun hne ↦ ⟨fun q hq a ha ↦ ?_, ⟨hp.numeric_kind hne, hp.total_last⟩, hp.total_alone⟩,
      fun hne ↦ ⟨fun q hq a ha ↦ ?_, ⟨hp.fudge_kind hne, hp.total_last⟩, hp.total_alone⟩⟩
    · exact (hp.own_kind q (List.mem_append_left _ hq) a ha).trans (h.numeric_kind q hq)
    · exact (hp.own_kind q (List.mem_append_right _ hq) a ha).trans (h.fudge_kind q hq)
  · rintro ⟨hnumeric, hfudge⟩
    have hsome : p.numeric ≠ [] ∨ p.fudge ≠ [] := by
      by_contra hnone
      simp only [not_or, not_not] at hnone
      exact h.requests_ne_nil (by simp [requests, hnone])
    refine ⟨fun q hq a ha ↦ ?_, fun hne ↦ (hnumeric hne).inOrder.kind_eq,
      fun hne ↦ (hfudge hne).inOrder.kind_eq, ?_, ?_⟩
    · rcases List.mem_append.1 hq with hq | hq
      · rw [(hnumeric (List.ne_nil_of_mem hq)).own_kind q hq a ha, h.numeric_kind q hq]
      · rw [(hfudge (List.ne_nil_of_mem hq)).own_kind q hq a ha, h.fudge_kind q hq]
    · exact hsome.elim (fun hne ↦ (hnumeric hne).inOrder.total_last) fun hne ↦
        (hfudge hne).inOrder.total_last
    · exact hsome.elim (fun hne ↦ (hnumeric hne).total_alone) fun hne ↦ (hfudge hne).total_alone

/-- A total that is added because there is nothing else to do always fits. -/
theorem fits_numericActions_iff {requests : List Request} (autoTotal : Bool) :
    Session.Fits .numeric requests (p.numericActions autoTotal) p.counts ↔
      Session.Fits .numeric requests p.actions p.counts := by
  unfold numericActions
  split
  · next hauto =>
      obtain ⟨_, hnil, hcounts⟩ := hauto
      rw [hnil]
      refine ⟨fun h ↦ ⟨h.own_kind, Session.inOrder_nil _, by simp⟩, fun h ↦ ⟨h.own_kind, ?_, ?_⟩⟩
      · exact Session.inOrder_cons.2 ⟨rfl, Session.inOrder_nil _, fun _ ↦ rfl⟩
      · exact fun htrue ↦ (hcounts htrue).elim
  · exact Iff.rfl

/-- A run has an outcome only if the plan is well-kinded, and it fails for another reason than its
values and draws only if the plan is not. -/
theorem run_gives (h : p.Sorted) (autoTotal : Bool) :
    (p.run autoTotal).Gives (fun _ ↦ p.WellKinded) (Failure.Blames ¬p.WellKinded) := by
  rw [wellKinded_iff h]
  have hnumeric := Session.run?_gives h.numeric_kind (p.numericActions autoTotal) p.counts
  rw [fits_numericActions_iff] at hnumeric
  have hfudge := Session.run?_gives h.fudge_kind p.actions p.counts
  unfold run
  refine (hnumeric.imp (fun _ h ↦ h) fun f hf ↦ hf.imp (mt And.left)).bind fun s hs ↦ ?_
  refine (hfudge.imp (fun _ h ↦ h) fun f hf ↦ hf.imp (mt And.right)).bind fun t ht ↦ ?_
  exact Rolling.gives_pure ⟨hs, ht⟩

end Plan
end TabletopDice
