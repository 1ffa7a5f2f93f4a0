import TabletopDice.Session.Outcome

/-!
# Steps as updates of a session

Each step of a session rolls a new session from the present one and puts it in its place.  A step
that fails leaves the session as it is, whatever the draws it has taken.
-/

namespace TabletopDice

namespace Play

variable {α β : Type} {s t : Session} {draws rest : Draws} {f : Failure}

/-- Puts what is rolled from the session on the table in its place. -/
def update (next : Session → Rolling Session) : Play Unit := fun table ↦
  match (next table.session).run table.draws with
  | .ok s rest => .ok () ⟨s, rest⟩
  | .error f rest => .error f ⟨table.session, rest⟩

theorem run_update_of_ok {next : Session → Rolling Session} (h : (next s).run draws = .ok t rest) :
    (update next).run ⟨s, draws⟩ = .ok () ⟨t, rest⟩ := by
  simp only [EStateM.run, update] at h ⊢
  rw [h]

theorem run_update_of_error {next : Session → Rolling Session}
    (h : (next s).run draws = .error f rest) :
    (update next).run ⟨s, draws⟩ = .error f ⟨s, rest⟩ := by
  simp only [EStateM.run, update] at h ⊢
  rw [h]

theorem run_ofRolling_of_ok {roll : Rolling α} {a : α} (h : roll.run draws = .ok a rest) :
    (ofRolling roll).run ⟨s, draws⟩ = .ok a ⟨s, rest⟩ := by
  simp only [EStateM.run, ofRolling] at h ⊢
  rw [h]

theorem run_ofRolling_of_error {roll : Rolling α} (h : roll.run draws = .error f rest) :
    (ofRolling roll).run ⟨s, draws⟩ = .error f ⟨s, rest⟩ := by
  simp only [EStateM.run, ofRolling] at h ⊢
  rw [h]

/-- What is rolled and then stored as a new session updates the session. -/
theorem run_ofRolling_bind (roll : Rolling α) {store : α → Play Unit} {put : α → Session}
    (hstore : ∀ a rest, (store a).run ⟨s, rest⟩ = .ok () ⟨put a, rest⟩) :
    (ofRolling roll >>= store).run ⟨s, draws⟩ =
      (update fun _ ↦ put <$> roll).run ⟨s, draws⟩ := by
  rw [EStateM.run_bind]
  cases heq : roll.run draws with
  | ok a rest =>
      have hput : (put <$> roll).run draws = .ok (put a) rest := by
        rw [← bind_pure_comp, EStateM.run_bind, heq]
        rfl
      rw [run_ofRolling_of_ok heq, run_update_of_ok hput]
      exact hstore a rest
  | error f rest =>
      have hput : (put <$> roll).run draws = .error f rest := by
        rw [← bind_pure_comp, EStateM.run_bind, heq]
      rw [run_ofRolling_of_error heq, run_update_of_error hput]

end Play

namespace Session

def afterRequestActions (s : Session) : Rolling Session :=
  if s.terminated then Rolling.fail (.incompatible .requestActions s.kind .terminated)
  else (fun results ↦ { s with results }) <$> s.results.mapM Rolls.applyOwn

def afterTotal (s : Session) : Rolling Session :=
  (fun total ↦ { s with results := [total], terminated := true }) <$>
    Rolling.ofExcept (Rolls.total s.results)

def afterStep (s : Session) (a : Action) : Rolling Session :=
  if s.terminated then Rolling.fail (.incompatible (.action a) s.kind .terminated)
  else if a = .total then s.afterTotal
  else if a.kind ≠ s.kind then Rolling.fail (.incompatible (.action a) s.kind .kind)
  else (fun results ↦ { s with results }) <$> s.results.mapM a.apply

def afterCount (s : Session) : Rolling Session :=
  if s.terminated then Rolling.fail (.incompatible .count s.kind .terminated)
  else ofCounts <$> Rolling.ofExcept (Rolls.count s.results)

theorem afterStep_of_terminated {s : Session} (h : s.terminated) (a : Action) :
    s.afterStep a = Rolling.fail (.incompatible (.action a) s.kind .terminated) := by
  rw [afterStep, if_pos h]

theorem afterStep_total {s : Session} (h : s.terminated = false) :
    s.afterStep .total = s.afterTotal := by
  rw [afterStep, if_neg (by simp [h]), if_pos rfl]

theorem afterStep_of_kind_ne {s : Session} {a : Action} (h : s.terminated = false)
    (htotal : a ≠ .total) (hkind : a.kind ≠ s.kind) :
    s.afterStep a = Rolling.fail (.incompatible (.action a) s.kind .kind) := by
  rw [afterStep, if_neg (by simp [h]), if_neg htotal, if_pos hkind]

theorem afterStep_of_kind_eq {s : Session} {a : Action} (h : s.terminated = false)
    (htotal : a ≠ .total) (hkind : a.kind = s.kind) :
    s.afterStep a = (fun results ↦ { s with results }) <$> s.results.mapM a.apply := by
  rw [afterStep, if_neg (by simp [h]), if_neg htotal, if_neg (not_not_intro hkind)]

theorem applyRequestActions_eq : applyRequestActions = Play.update afterRequestActions := by
  funext ⟨⟨kind, requests, results, terminated⟩, draws⟩
  cases terminated with
  | true => rfl
  | false => exact Play.run_ofRolling_bind (results.mapM Rolls.applyOwn) fun _ _ ↦ rfl

theorem addStep_eq (a : Action) : addStep a = Play.update (afterStep · a) := by
  funext ⟨⟨kind, requests, results, terminated⟩, draws⟩
  cases terminated with
  | true => rfl
  | false =>
      by_cases htotal : a = .total
      · subst htotal
        exact Play.run_ofRolling_bind (Rolling.ofExcept (Rolls.total results)) fun _ _ ↦ rfl
      · unfold addStep
        rw [if_neg htotal]
        change (if a.kind ≠ kind then _ else _ : Play Unit).run
            ⟨⟨kind, requests, results, false⟩, draws⟩ =
          (Play.update fun _ ↦ afterStep ⟨kind, requests, results, false⟩ a).run
            ⟨⟨kind, requests, results, false⟩, draws⟩
        by_cases hkind : a.kind = kind
        · rw [if_neg (not_not_intro hkind), afterStep_of_kind_eq rfl htotal hkind]
          exact Play.run_ofRolling_bind (results.mapM a.apply) fun _ _ ↦ rfl
        · rw [if_pos hkind, afterStep_of_kind_ne rfl htotal hkind]
          rfl

/-- Counting and then putting the counts in the place of the session. -/
theorem counted_bind_setSession_eq :
    (counted >>= Play.setSession) = Play.update afterCount := by
  simp only [counted, bind_assoc, pure_bind]
  funext ⟨⟨kind, requests, results, terminated⟩, draws⟩
  cases terminated with
  | true => rfl
  | false => exact Play.run_ofRolling_bind (Rolling.ofExcept (Rolls.count results)) fun _ _ ↦ rfl

/-! ## Runs of steps -/

theorem run_after_of_ok {s : Session} {play : Play Unit} {draws : Draws} {u : Unit} {table : Table}
    (h : play.run ⟨s, draws⟩ = .ok u table) :
    (s.after play).run draws = .ok table.session table.draws := by
  simp only [EStateM.run, after] at h ⊢
  rw [h]

theorem run_after_of_error {s : Session} {play : Play Unit} {draws : Draws} {f : Failure}
    {table : Table} (h : play.run ⟨s, draws⟩ = .error f table) :
    (s.after play).run draws = .error f table.draws := by
  simp only [EStateM.run, after] at h ⊢
  rw [h]

theorem after_update (s : Session) (next : Session → Rolling Session) :
    s.after (Play.update next) = next s := by
  funext draws
  cases heq : (next s).run draws with
  | ok t rest => exact (run_after_of_ok (Play.run_update_of_ok heq)).trans heq.symm
  | error f rest => exact (run_after_of_error (Play.run_update_of_error heq)).trans heq.symm

theorem after_bind (s : Session) (play next : Play Unit) :
    s.after (play >>= fun _ ↦ next) = s.after play >>= fun t ↦ t.after next := by
  funext draws
  change (s.after (play >>= fun _ ↦ next)).run draws =
    (s.after play >>= fun t ↦ t.after next).run draws
  rw [EStateM.run_bind]
  cases heq : play.run ⟨s, draws⟩ with
  | ok u table =>
      have hboth : (play >>= fun _ ↦ next).run ⟨s, draws⟩ = next.run table := by
        rw [EStateM.run_bind, heq]
      rw [run_after_of_ok heq]
      change _ = (table.session.after next).run table.draws
      cases hnext : next.run table with
      | ok v last =>
          exact (run_after_of_ok (hboth.trans hnext)).trans (run_after_of_ok hnext).symm
      | error f last =>
          exact (run_after_of_error (hboth.trans hnext)).trans (run_after_of_error hnext).symm
  | error f table =>
      rw [run_after_of_error heq]
      exact run_after_of_error (by rw [EStateM.run_bind, heq])

theorem after_forM_addStep (s : Session) (actions : List Action) :
    s.after (actions.forM addStep) = actions.foldlM afterStep s := by
  induction actions generalizing s with
  | nil => rfl
  | cons a rest ih =>
      rw [List.forM_eq_forM, List.forM_cons, after_bind, List.foldlM_cons, addStep_eq, after_update]
      exact bind_congr fun t ↦ ih t

theorem after_runActions (s : Session) (actions : List Action) :
    s.after (runActions actions) =
      s.afterRequestActions >>= fun t ↦ actions.foldlM afterStep t := by
  rw [runActions, applyRequestActions_eq, after_bind, after_update]
  exact bind_congr fun t ↦ after_forM_addStep t actions

/-- All steps of a session: the private actions, the actions for all results, and the count. -/
theorem after_pipeline (s : Session) (actions : List Action) (counts : Bool) :
    s.after (pipeline actions counts) = (do
      let t ← s.afterRequestActions
      let u ← actions.foldlM afterStep t
      if counts then u.afterCount else return u) := by
  rw [pipeline, after_bind, after_runActions, bind_assoc]
  refine bind_congr fun t ↦ bind_congr fun u ↦ ?_
  cases counts with
  | true =>
      simp only [if_true]
      rw [counted_bind_setSession_eq, after_update]
  | false => rfl

end Session
end TabletopDice
