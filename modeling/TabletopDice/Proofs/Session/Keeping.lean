import TabletopDice.Proofs.Rolling.Guarantee
import TabletopDice.Proofs.Session.Update

/-!
# What steps leave behind

A step that fails leaves the session as it was, although the draws that it took are gone and some of
the results may have been dealt with already.  A property of sessions that each single step keeps is
kept by any number of steps, whichever of them fail.
-/

namespace TabletopDice

namespace Play

variable {α β : Type} {table left : Table} {f : Failure}

/-- The table after a play, whether or not it fails. -/
def leaves (play : Play α) (table : Table) : Table :=
  match play.run table with
  | .ok _ left => left
  | .error _ left => left

/-- A session with the property still has it after the play, whether or not the play fails. -/
def Keeps (play : Play α) (inv : Session → Prop) : Prop :=
  ∀ table, inv table.session → inv (play.leaves table).session

theorem leaves_of_ok {play : Play α} {a : α} (h : play.run table = .ok a left) :
    play.leaves table = left := by
  rw [leaves, h]

theorem leaves_of_error {play : Play α} (h : play.run table = .error f left) :
    play.leaves table = left := by
  rw [leaves, h]

variable {inv : Session → Prop}

theorem keeps_pure (a : α) : (pure a : Play α).Keeps inv := fun _ h ↦ h

theorem Keeps.bind {play : Play α} {next : α → Play β} (h : play.Keeps inv)
    (hnext : ∀ a, (next a).Keeps inv) : (play >>= next).Keeps inv := by
  intro table hinv
  have hmid := h table hinv
  cases heq : play.run table with
  | ok a mid =>
      have hboth : (play >>= next).leaves table = (next a).leaves mid := by
        rw [leaves, leaves, EStateM.run_bind, heq]
      rw [leaves_of_ok heq] at hmid
      rw [hboth]
      exact hnext a mid hmid
  | error f mid =>
      have hboth : (play >>= next).run table = .error f mid := by
        rw [EStateM.run_bind, heq]
      rw [leaves_of_error heq] at hmid
      rwa [leaves_of_error hboth]

theorem keeps_forM {γ : Type} {play : γ → Play Unit} {l : List γ}
    (h : ∀ c ∈ l, (play c).Keeps inv) : (l.forM play).Keeps inv := by
  induction l with
  | nil => exact keeps_pure ()
  | cons c rest ih =>
      refine (h c List.mem_cons_self).bind fun _ ↦ ih fun d hd ↦ ?_
      exact h d (List.mem_cons_of_mem c hd)

/-- The session that is put on the table must have the property. -/
theorem keeps_update {next : Session → Rolling Session}
    (h : ∀ s, inv s → (next s).Gives inv fun _ ↦ True) : (update next).Keeps inv := by
  intro ⟨s, draws⟩ hinv
  cases heq : (next s).run draws with
  | ok t rest =>
      rw [leaves_of_ok (run_update_of_ok heq)]
      exact (h s hinv).of_ok heq
  | error f rest =>
      rw [leaves_of_error (run_update_of_error heq)]
      exact hinv

theorem session_of_update_error {next : Session → Rolling Session}
    (h : (update next).run table = .error f left) : left.session = table.session := by
  obtain ⟨s, draws⟩ := table
  cases heq : (next s).run draws with
  | ok t rest =>
      rw [run_update_of_ok heq] at h
      cases h
  | error g rest =>
      rw [run_update_of_error heq] at h
      cases h
      rfl

/-- What only hands out a value at the end fails on the way to it. -/
theorem error_of_bind_pure {play : Play α} {b : β}
    (h : (play >>= fun _ ↦ pure b).run table = .error f left) :
    play.run table = .error f left := by
  rw [EStateM.run_bind] at h
  cases heq : play.run table with
  | ok a mid =>
      rw [heq] at h
      cases h
  | error g mid =>
      rw [heq] at h
      cases h
      rfl

end Play

namespace Session

/-- Counting looks at the results and changes nothing. -/
theorem run_counted (table : Table) :
    counted.run table =
      if table.session.terminated then
        .error (.incompatible .count table.session.kind .terminated) table
      else match Rolls.count table.session.results with
        | .ok counts => .ok (ofCounts counts) table
        | .error f => .error f table := by
  obtain ⟨⟨kind, requests, results, terminated⟩, draws⟩ := table
  cases terminated with
  | true => rfl
  | false =>
      simp only [Bool.false_eq_true, if_false]
      have hsteps : counted.run ⟨⟨kind, requests, results, false⟩, draws⟩ =
          (Play.ofRolling (Rolling.ofExcept (Rolls.count results)) >>= fun counts ↦
            pure (ofCounts counts)).run ⟨⟨kind, requests, results, false⟩, draws⟩ := rfl
      rw [hsteps, EStateM.run_bind]
      cases Rolls.count results with
      | ok counts => rfl
      | error f => rfl

end Session

/-! ## Steps -/

/-- The table after some steps.  One that fails does not keep those behind it from being
performed. -/
def Table.after (table : Table) (steps : List Step) : Table :=
  steps.foldl (fun table step ↦ step.perform.leaves table) table

namespace Step

variable {inv : Session → Prop}

theorem leaves_count (table : Table) : count.perform.leaves table = table := by
  change (Session.counted >>= fun counts ↦ pure (some counts)).leaves table = table
  rw [Play.leaves, EStateM.run_bind, Session.run_counted]
  by_cases hterm : table.session.terminated
  · rw [if_pos hterm]
  · rw [if_neg hterm]
    cases Rolls.count table.session.results <;> rfl

/-- A step that fails leaves the session as it was, and counting does so in any case.  Only a run of
several steps can get somewhere before it fails. -/
theorem failure_leaves_session (table : Table) :
    (∀ step f left, (∀ actions, step ≠ run actions) → step.perform.run table = .error f left →
        left.session = table.session) ∧
      (count.perform.leaves table).session = table.session := by
  refine ⟨fun step f left hstep h ↦ ?_, by rw [leaves_count]⟩
  cases step with
  | requestActions =>
      have hplay := Play.error_of_bind_pure h
      rw [Session.applyRequestActions_eq] at hplay
      exact Play.session_of_update_error hplay
  | action a =>
      have hplay := Play.error_of_bind_pure h
      rw [Session.addStep_eq] at hplay
      exact Play.session_of_update_error hplay
  | run actions => exact (hstep actions rfl).elim
  | count =>
      rw [← Play.leaves_of_error h, leaves_count]
  | enterCount =>
      have hplay : ((Session.counted >>= Play.setSession) >>= fun _ ↦ pure none).run table =
          (.error f left : EStateM.Result Failure Table (Option Session)) := by
        rw [bind_assoc]
        exact h
      have hcount := Play.error_of_bind_pure hplay
      rw [Session.counted_bind_setSession_eq] at hcount
      exact Play.session_of_update_error hcount

/-- The reroll takes the last draw for the first dice and finds none for the second. -/
theorem failure_leaves_session_of_no_draw :
    ∃ (requests : List Request) (table left : Table),
      (Session.start .numeric requests).run [0, 0, 3] = .ok table.session table.draws ∧
        table.draws = [3] ∧
          (action (.reroll .numeric (.ofList [.number 1]))).perform.run table =
              .error .noDrawLeft left ∧
            left.draws = [] ∧ left.session = table.session := by
  have hstart : (Session.start .numeric
      [⟨1, .numbered 6 (by decide), none, [], by decide, by simp⟩,
        ⟨1, .numbered 8 (by decide), none, [], by decide, by simp⟩]).run [0, 0, 3] =
      .ok _ [3] := rfl
  refine ⟨_, ⟨_, [3]⟩, ⟨_, []⟩, hstart, rfl, rfl, rfl, ?_⟩
  exact (failure_leaves_session _).1 (action (.reroll .numeric (.ofList [.number 1]))) .noDrawLeft
    _ (fun actions ↦ by simp) rfl

/-- What the single steps keep is kept by each step that goes on with the session. -/
theorem perform_keeps (hown : Session.applyRequestActions.Keeps inv)
    (hadd : ∀ a, (Session.addStep a).Keeps inv) {step : Step} (hstep : step ≠ enterCount) :
    step.perform.Keeps inv := by
  cases step with
  | requestActions => exact hown.bind fun _ ↦ Play.keeps_pure none
  | action a => exact (hadd a).bind fun _ ↦ Play.keeps_pure none
  | run actions =>
      have hrun : (Session.runActions actions).Keeps inv :=
        hown.bind fun _ ↦ Play.keeps_forM fun a _ ↦ hadd a
      exact hrun.bind fun _ ↦ Play.keeps_pure none
  | count =>
      intro table hinv
      rwa [leaves_count]
  | enterCount => exact (hstep rfl).elim

end Step

theorem Table.after_keeps {inv : Session → Prop} {steps : List Step}
    (hsteps : ∀ step ∈ steps, step.perform.Keeps inv) {table : Table} (h : inv table.session) :
    inv (table.after steps).session := by
  induction steps generalizing table with
  | nil => exact h
  | cons step rest ih =>
      refine ih (fun other hother ↦ hsteps other (List.mem_cons_of_mem step hother)) ?_
      exact hsteps step List.mem_cons_self table h

end TabletopDice
