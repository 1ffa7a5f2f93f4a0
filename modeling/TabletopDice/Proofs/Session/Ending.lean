import TabletopDice.Proofs.Session.Representation

/-!
# The end of a session

A total ends a session, and so do counts that take its place; nothing else does.  A session that has
ended refuses every step, and neither the results nor the draws change any more.
-/

namespace TabletopDice

variable {table left : Table}

namespace Play

variable {α β : Type} {f : Failure}

theorem run_bind_of_error {play : Play α} {next : α → Play β}
    (h : play.run table = .error f left) : (play >>= next).run table = .error f left := by
  rw [EStateM.run_bind, h]

theorem leaves_bind_of_ok {play : Play α} {next : α → Play β} {a : α}
    (h : play.run table = .ok a left) : (play >>= next).leaves table = (next a).leaves left := by
  rw [leaves, leaves, EStateM.run_bind, h]

theorem leaves_bind_of_error {play : Play α} {next : α → Play β}
    (h : play.run table = .error f left) : (play >>= next).leaves table = left :=
  leaves_of_error (run_bind_of_error h)

theorem leaves_bind_pure (play : Play α) (b : β) :
    (play >>= fun _ ↦ pure b).leaves table = play.leaves table := by
  cases h : play.run table with
  | ok a mid =>
      rw [leaves_bind_of_ok h, leaves_of_ok h]
      rfl
  | error f mid => rw [leaves_bind_of_error h, leaves_of_error h]

/-- What a play rolls from the session on the table is what it leaves there. -/
theorem session_of_bind_pure {play : Play Unit} (good : Session → Prop) {a b : β}
    (hgives : (table.session.after play).Gives good fun _ ↦ True)
    (h : (play >>= fun _ ↦ pure b).run table = .ok a left) : good left.session := by
  rw [EStateM.run_bind] at h
  cases heq : play.run table with
  | ok u mid =>
      rw [heq] at h
      cases h
      exact hgives.of_ok (Session.run_after_of_ok heq)
  | error f mid =>
      rw [heq] at h
      cases h

end Play

/-! ## What ends a session -/

namespace Session

variable {s : Session}

theorem afterRequestActions_ends (s : Session) :
    s.afterRequestActions.Gives (fun t ↦ s.terminated = false ∧ t.terminated = false)
      fun _ ↦ True :=
  afterRequestActions_gives_of fun hopen ↦
    (Rolling.gives_anything _).imp (fun _ _ ↦ ⟨hopen, hopen⟩) fun _ h ↦ h

theorem afterStep_ends (s : Session) (a : Action) :
    (s.afterStep a).Gives (fun t ↦ s.terminated = false ∧ (t.terminated ↔ a = .total))
      fun _ ↦ True := by
  refine afterStep_gives_of (fun hopen htotal ↦ ?_) fun hopen htotal ↦ ?_
  · refine ((Rolling.gives_anything _).imp (fun _ _ ↦ ⟨hopen, ?_⟩) fun _ h ↦ h).map
    simp [htotal]
  · refine (Rolling.gives_anything _).imp (fun _ _ ↦ ⟨hopen, ?_⟩) fun _ h ↦ h
    simp [hopen, htotal]

theorem foldlM_afterStep_ends (s : Session) (actions : List Action) :
    (actions.foldlM afterStep s).Gives (fun t ↦ t.terminated ↔ s.terminated ∨ .total ∈ actions)
      fun _ ↦ True := by
  induction actions generalizing s with
  | nil => exact Rolling.gives_pure (by simp)
  | cons a rest ih =>
      rw [List.foldlM_cons]
      refine (afterStep_ends s a).bind fun t ⟨hopen, ht⟩ ↦ ?_
      refine (ih t).imp (fun u hu ↦ ?_) fun _ h ↦ h
      rw [hu, ht, hopen, List.mem_cons, eq_comm]
      simp

theorem after_runActions_ends (s : Session) (actions : List Action) :
    (s.after (runActions actions)).Gives
      (fun t ↦ s.terminated = false ∧ (t.terminated ↔ .total ∈ actions)) fun _ ↦ True := by
  rw [after_runActions]
  refine (afterRequestActions_ends s).bind fun t ⟨hopen, ht⟩ ↦ ?_
  refine (foldlM_afterStep_ends t actions).imp (fun u hu ↦ ⟨hopen, ?_⟩) fun _ h ↦ h
  simpa [ht] using hu

end Session

/-! ## Steps -/

namespace Step

/-- What the step attempts first. -/
def attempt : Step → Attempt
  | requestActions | run _ => .requestActions
  | action a => .action a
  | count | enterCount => .count

/-- The step adds up all results or puts their counts in the place of the session. -/
def Ends : Step → Prop
  | action a => a = .total
  | run actions => .total ∈ actions
  | enterCount => True
  | requestActions | count => False

theorem run_perform_of_terminated (hterm : table.session.terminated) (step : Step) :
    step.perform.run table =
      .error (.incompatible step.attempt table.session.kind .terminated) table := by
  have hown : Session.applyRequestActions.run table =
      .error (.incompatible .requestActions table.session.kind .terminated) table := by
    rw [Session.applyRequestActions_eq]
    refine Session.run_update_of_mismatched trivial ?_
    rw [Session.afterRequestActions, if_pos hterm]
  have hcount : Session.counted.run table =
      .error (.incompatible .count table.session.kind .terminated) table := by
    rw [Session.run_counted, if_pos hterm]
  cases step with
  | requestActions => exact Play.run_bind_of_error hown
  | action a =>
      refine Play.run_bind_of_error (Session.run_addStep_of_mismatched trivial ?_)
      exact Session.afterStep_of_terminated hterm a
  | run actions => exact Play.run_bind_of_error (Play.run_bind_of_error hown)
  | count => exact Play.run_bind_of_error hcount
  | enterCount => exact Play.run_bind_of_error hcount

/-- A step that succeeds finds the session open, and it leaves an ended one only if it ends it. -/
theorem ends_iff_of_ok {step : Step} {handed : Option Session}
    (h : step.perform.run table = .ok handed left) :
    table.session.terminated = false ∧ (left.session.terminated ↔ step.Ends) := by
  cases step with
  | requestActions =>
      refine Play.session_of_bind_pure (fun t ↦
        table.session.terminated = false ∧ (t.terminated ↔ False)) ?_ h
      rw [Session.applyRequestActions_eq, Session.after_update]
      refine (Session.afterRequestActions_ends _).imp (fun t ht ↦ ?_) fun _ h ↦ h
      simpa using ht
  | action a =>
      refine Play.session_of_bind_pure (fun t ↦
        table.session.terminated = false ∧ (t.terminated ↔ a = .total)) ?_ h
      rw [Session.addStep_eq, Session.after_update]
      exact Session.afterStep_ends _ a
  | run actions =>
      exact Play.session_of_bind_pure (fun t ↦
        table.session.terminated = false ∧ (t.terminated ↔ .total ∈ actions))
        (Session.after_runActions_ends _ actions) h
  | count =>
      have hopen : table.session.terminated = false := by
        refine Bool.eq_false_iff.2 fun hterm ↦ ?_
        cases (run_perform_of_terminated hterm count).symm.trans h
      have hleft : left = table := (Play.leaves_of_ok h).symm.trans (leaves_count table)
      exact ⟨hopen, by simp [hleft, hopen, Ends]⟩
  | enterCount =>
      have hplay : ((Session.counted >>= Play.setSession) >>= fun _ ↦ pure none).run table =
          .ok handed left := by
        rw [bind_assoc]
        exact h
      rw [Session.counted_bind_setSession_eq] at hplay
      refine Play.session_of_bind_pure (fun t ↦
        table.session.terminated = false ∧ (t.terminated ↔ True)) ?_ hplay
      rw [Session.after_update]
      refine (Session.afterCount_ends _).imp (fun t ht ↦ ?_) fun _ h ↦ h
      simpa using ht

end Step

/-! ## Runs of steps -/

namespace Table

/-- Those of the steps that succeed when all are tried one after the other. -/
def performed (table : Table) : List Step → List Step
  | [] => []
  | step :: rest =>
      match step.perform.run table with
      | .ok _ left => step :: left.performed rest
      | .error _ left => left.performed rest

theorem after_of_terminated (h : table.session.terminated) (steps : List Step) :
    table.after steps = table := by
  induction steps with
  | nil => rfl
  | cons step rest ih =>
      rw [after, List.foldl_cons, Play.leaves_of_error (step.run_perform_of_terminated h)]
      exact ih

theorem performed_of_terminated (h : table.session.terminated) (steps : List Step) :
    table.performed steps = [] := by
  induction steps with
  | nil => rfl
  | cons step rest ih =>
      rw [performed, step.run_perform_of_terminated h]
      exact ih

/-- Nothing succeeds any more after a step that has ended the session. -/
theorem performed_after_end {steps before later : List Step} {step : Step} (hends : step.Ends)
    (h : table.performed steps = before ++ step :: later) : later = [] := by
  induction steps generalizing table before with
  | nil => cases before <;> cases h
  | cons first rest ih =>
      rw [performed] at h
      split at h
      · next handed left hrun =>
          cases before with
          | nil =>
              obtain ⟨rfl, rfl⟩ := List.cons.inj h
              exact performed_of_terminated ((Step.ends_iff_of_ok hrun).2.2 hends) rest
          | cons other before => exact ih (List.cons.inj h).2
      · exact ih h

theorem leaves_forM_addStep (table : Table) (actions : List Action) :
    ∃ taken, taken <+: actions.map Step.action ∧
      (actions.forM Session.addStep).leaves table = table.after taken := by
  induction actions generalizing table with
  | nil => exact ⟨[], List.prefix_refl _, rfl⟩
  | cons a rest ih =>
      rw [List.forM_eq_forM, List.forM_cons, List.map_cons]
      have hstep : (Step.action a).perform.leaves table = (Session.addStep a).leaves table :=
        Play.leaves_bind_pure _ _
      cases hrun : (Session.addStep a).run table with
      | ok u mid =>
          obtain ⟨taken, hprefix, htaken⟩ := ih mid
          refine ⟨.action a :: taken, List.cons_prefix_cons.2 ⟨rfl, hprefix⟩, ?_⟩
          rw [Play.leaves_bind_of_ok hrun, after, List.foldl_cons, hstep, Play.leaves_of_ok hrun]
          exact htaken
      | error f mid =>
          refine ⟨[.action a], by simp, ?_⟩
          rw [Play.leaves_bind_of_error hrun, after, List.foldl_cons, hstep,
            Play.leaves_of_error hrun, List.foldl_nil]

/-- A run is the private actions and then one action after the other, up to the first failure. -/
theorem leaves_run (table : Table) (actions : List Action) :
    ∃ taken, taken <+: .requestActions :: actions.map Step.action ∧
      (Step.run actions).perform.leaves table = table.after taken := by
  have hstep : Step.requestActions.perform.leaves table =
      Session.applyRequestActions.leaves table := Play.leaves_bind_pure _ _
  have hplay : (Step.run actions).perform.leaves table =
      (Session.runActions actions).leaves table := Play.leaves_bind_pure _ _
  rw [hplay, Session.runActions]
  cases hrun : Session.applyRequestActions.run table with
  | ok u mid =>
      obtain ⟨taken, hprefix, htaken⟩ := leaves_forM_addStep mid actions
      refine ⟨.requestActions :: taken, List.cons_prefix_cons.2 ⟨rfl, hprefix⟩, ?_⟩
      rw [Play.leaves_bind_of_ok hrun, after, List.foldl_cons, hstep, Play.leaves_of_ok hrun]
      exact htaken
  | error f mid =>
      refine ⟨[.requestActions], by simp, ?_⟩
      rw [Play.leaves_bind_of_error hrun, after, List.foldl_cons, hstep,
        Play.leaves_of_error hrun, List.foldl_nil]

end Table

/-- The end of a session is final: every further step fails without a draw and changes nothing, and
only the steps that end a session lead to an ended one.  So no step succeeds after one of them, be
it on its own or part of a run, which is made of other steps. -/
theorem ended_for_ever :
    (∀ table : Table, table.session.terminated →
      (∀ step : Step, step.perform.run table =
          .error (.incompatible step.attempt table.session.kind .terminated) table) ∧
        ∀ steps, table.after steps = table ∧ table.performed steps = []) ∧
    (∀ (table left : Table) (step : Step) (handed : Option Session),
      step.perform.run table = .ok handed left →
        table.session.terminated = false ∧ (left.session.terminated ↔ step.Ends)) ∧
    (∀ (table : Table) (steps before : List Step) (step : Step) (later : List Step), step.Ends →
      table.performed steps = before ++ step :: later → later = []) ∧
    ∀ (table : Table) (actions : List Action),
      ∃ taken, taken <+: .requestActions :: actions.map Step.action ∧
        (Step.run actions).perform.leaves table = table.after taken := by
  refine ⟨fun table h ↦ ⟨fun step ↦ step.run_perform_of_terminated h, fun steps ↦ ?_⟩,
    fun table left step handed h ↦ Step.ends_iff_of_ok h,
    fun table steps before step later hends h ↦ table.performed_after_end hends h,
    Table.leaves_run⟩
  exact ⟨table.after_of_terminated h steps, table.performed_of_terminated h steps⟩

theorem ended_for_ever_of_total :
    ∃ (requests : List Request) (table ended : Table),
      Session.Reached .numeric requests table ∧
        (Step.action .total).perform.run table = .ok none ended ∧
        table.session.terminated = false ∧ ended.session.terminated ∧
          (∀ step : Step, step.perform.run ended =
            .error (.incompatible step.attempt ended.session.kind .terminated) ended) ∧
          (∀ steps, ended.after steps = ended ∧ ended.performed steps = []) ∧
          ∃ later, table.performed [.requestActions, .run [.sum, .total], .action .total, .count] =
            [.requestActions] ++ .run [.sum, .total] :: later ∧ later = [] := by
  have hplay : ∃ (requests : List Request) (table ended : Table),
      Session.Reached .numeric requests table ∧
        (Step.action .total).perform.run table = .ok none ended ∧
          table.performed [.requestActions, .run [.sum, .total], .action .total, .count] =
            [.requestActions] ++ .run [.sum, .total] :: [] :=
    ⟨[⟨1, .numbered 6 (by decide), none, [.multiply 2], by decide, by simp⟩],
      ⟨⟨.numeric, [⟨1, .numbered 6 (by decide), none, [.multiply 2], by decide, by simp⟩],
        [⟨.numeric, "1D6".toList, [.number 5],
          some ⟨1, .numbered 6 (by decide), none, [.multiply 2], by decide, by simp⟩⟩],
        false⟩, [0]⟩, _, ⟨[4, 0], [0], _, [], rfl, by simp, rfl⟩, rfl, rfl⟩
  obtain ⟨requests, table, ended, hreached, htotal, hperformed⟩ := hplay
  obtain ⟨hended, hends, hlast, _⟩ := ended_for_ever
  obtain ⟨hopen, hterm⟩ := hends _ _ _ _ htotal
  obtain ⟨hrefused, hnothing⟩ := hended ended (hterm.2 rfl)
  exact ⟨requests, table, ended, hreached, htotal, hopen, hterm.2 rfl, hrefused, hnothing,
    [], hperformed, hlast _ _ _ _ _ (by simp [Step.Ends]) hperformed⟩

end TabletopDice
