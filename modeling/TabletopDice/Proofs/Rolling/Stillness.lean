import TabletopDice.Proofs.RelatedLists
import TabletopDice.Proofs.Rolling.Application
import TabletopDice.Proofs.Rolling.Running

/-!
# Rolling without draws

Constant and repeating dice take no draws, and neither does any action on what they show.  Such
rollings do not disturb each other: a list of elements can go through a list of steps element by
element or step by step.  The two orders may come upon different failures first, but they have the
same results.
-/

namespace TabletopDice

open List (Forall₂)

namespace Rolling

variable {α β γ : Type} {draws left : Draws}

/-- Every result is `good`, and all draws are left. -/
def Still (roll : Rolling α) (good : α → Prop) : Prop :=
  ∀ draws a left, roll.run draws = .ok a left → left = draws ∧ good a

variable {roll : Rolling α} {good : α → Prop}

theorem still_pure {a : α} (h : good a) : Rolling.Still (pure a) good := by
  intro draws b left hrun
  obtain ⟨rfl, rfl⟩ := run_pure_eq_ok_iff.1 hrun
  exact ⟨rfl, h⟩

theorem still_throw {f : Failure} : Rolling.Still (throw f) good :=
  fun _ _ _ hrun ↦ nomatch hrun

theorem Still.bind {next : α → Rolling β} {last : β → Prop} (h : roll.Still good)
    (hnext : ∀ a, good a → (next a).Still last) : (roll >>= next).Still last := by
  intro draws b left hrun
  obtain ⟨a, mid, ha, hb⟩ := run_bind_eq_ok_iff.1 hrun
  obtain ⟨rfl, hgood⟩ := h _ _ _ ha
  exact hnext a hgood _ _ _ hb

theorem still_lift_bind {e : Except Failure α} {next : α → Rolling β} {last : β → Prop}
    (h : ∀ a, e = .ok a → (next a).Still last) : Rolling.Still (liftM e >>= next) last := by
  cases e with
  | ok a => exact h a rfl
  | error f => exact still_throw

theorem run_bind_eq_ok_iff_of_still {next : α → Rolling β} {b : β} (h : roll.Still good) :
    (roll >>= next).run draws = .ok b left ↔
      ∃ a, roll.run draws = .ok a draws ∧ (next a).run draws = .ok b left := by
  rw [run_bind_eq_ok_iff]
  constructor
  · rintro ⟨a, mid, ha, hb⟩
    obtain ⟨rfl, _⟩ := h _ _ _ ha
    exact ⟨a, ha, hb⟩
  · rintro ⟨a, ha, hb⟩
    exact ⟨a, draws, ha, hb⟩

/-- What follows a still rolling may be replaced by what has the same results. -/
theorem Still.run_bind_congr {next next' : α → Rolling β} {b : β} (h : roll.Still good)
    (hnext : ∀ a, good a → ((next a).run draws = .ok b left ↔ (next' a).run draws = .ok b left)) :
    (roll >>= next).run draws = .ok b left ↔ (roll >>= next').run draws = .ok b left := by
  rw [run_bind_eq_ok_iff_of_still h, run_bind_eq_ok_iff_of_still h]
  exact exists_congr fun a ↦ and_congr_right fun ha ↦ hnext a (h _ _ _ ha).2

/-! ## One step for all elements, or all steps for one element -/

theorem run_mapM_eq_ok_iff_of_still {f : α → Rolling β} {good : β → Prop} {l : List α}
    {u : List β} (h : ∀ a ∈ l, (f a).Still good) :
    (l.mapM f).run draws = .ok u left ↔
      Forall₂ (fun a b ↦ (f a).run draws = .ok b draws) l u ∧ draws = left := by
  induction l generalizing u with
  | nil => rw [List.mapM_nil, run_pure_eq_ok_iff, List.forall₂_nil_left_iff, eq_comm (a := [])]
  | cons a l ih =>
      have hrest {v : List β} := ih (u := v) fun b hb ↦ h b (List.mem_cons_of_mem a hb)
      rw [List.mapM_cons, run_bind_eq_ok_iff_of_still (h a List.mem_cons_self)]
      simp only [bind_pure_comp, run_map_eq_ok_iff]
      constructor
      · rintro ⟨b, hb, v, hv, rfl⟩
        obtain ⟨hrelated, hleft⟩ := hrest.1 hv
        exact ⟨.cons hb hrelated, hleft⟩
      · rintro ⟨hrelated, hleft⟩
        cases hrelated with
        | cons hb hv => exact ⟨_, hb, _, hrest.2 ⟨hv, hleft⟩, rfl⟩

theorem still_mapM {f : α → Rolling β} {good : β → Prop} {l : List α}
    (h : ∀ a ∈ l, (f a).Still good) : (l.mapM f).Still (∀ b ∈ ·, good b) := by
  intro draws u left hrun
  obtain ⟨hrelated, rfl⟩ := (run_mapM_eq_ok_iff_of_still h).1 hrun
  refine ⟨rfl, fun b hb ↦ ?_⟩
  obtain ⟨a, ha, hab⟩ := exists_left_of_mem hrelated hb
  exact (h a ha _ _ _ hab).2

/-- Two steps for one element after the other come to the same as the first step for all elements
and then the second one for all of them. -/
theorem run_mapM_bind_eq_ok_iff {f : α → Rolling β} {g : β → Rolling γ} {good : β → Prop}
    {last : γ → Prop} {l : List α} {v : List γ} (hf : ∀ a ∈ l, (f a).Still good)
    (hg : ∀ b, good b → (g b).Still last) :
    (l.mapM fun a ↦ f a >>= g).run draws = .ok v left ↔
      (l.mapM f >>= fun u ↦ u.mapM g).run draws = .ok v left := by
  have hboth : ∀ a ∈ l, (f a >>= g).Still last := fun a ha ↦ (hf a ha).bind hg
  rw [run_mapM_eq_ok_iff_of_still hboth, run_bind_eq_ok_iff_of_still (still_mapM hf)]
  have hsteps : Forall₂ (fun a c ↦ (f a >>= g).run draws = .ok c draws) l v ↔
      Forall₂ (fun a c ↦ ∃ b, (f a).run draws = .ok b draws ∧ (g b).run draws = .ok c draws) l v :=
    ⟨fun h ↦ related_imp h fun a ha c _ ↦ (run_bind_eq_ok_iff_of_still (hf a ha)).1,
      fun h ↦ related_imp h fun a ha c _ ↦ (run_bind_eq_ok_iff_of_still (hf a ha)).2⟩
  rw [hsteps, related_comp_iff, ← exists_and_right]
  refine exists_congr fun u ↦ ?_
  constructor
  · rintro ⟨⟨hu, hv⟩, rfl⟩
    have hrun := (run_mapM_eq_ok_iff_of_still hf).2 ⟨hu, rfl⟩
    have hgood := (still_mapM hf _ _ _ hrun).2
    exact ⟨hrun, (run_mapM_eq_ok_iff_of_still fun b hb ↦ hg b (hgood b hb)).2 ⟨hv, rfl⟩⟩
  · rintro ⟨hrun, hrest⟩
    have hgood := (still_mapM hf _ _ _ hrun).2
    obtain ⟨hv, rfl⟩ := (run_mapM_eq_ok_iff_of_still fun b hb ↦ hg b (hgood b hb)).1 hrest
    exact ⟨⟨((run_mapM_eq_ok_iff_of_still hf).1 hrun).1, hv⟩, rfl⟩

theorem Still.foldlM {step : β → α → Rolling β} {good : β → Prop}
    (hstep : ∀ b a, good b → (step b a).Still good) (l : List α) {b : β} (hb : good b) :
    (l.foldlM step b).Still good := by
  induction l generalizing b with
  | nil => exact still_pure hb
  | cons a l ih =>
      rw [List.foldlM_cons]
      exact (hstep b a hb).bind fun _ ↦ ih

/-- A list of steps can be taken by all elements together or by one element after the other. -/
theorem run_foldlM_mapM_eq_ok_iff {step : β → α → Rolling β} {good : β → Prop}
    (hstep : ∀ b a, good b → (step b a).Still good) (l : List α) {u v : List β}
    (hu : ∀ b ∈ u, good b) :
    (l.foldlM (fun (w : List β) a ↦ w.mapM (step · a)) u).run draws = .ok v left ↔
      (u.mapM (l.foldlM step ·)).run draws = .ok v left := by
  induction l generalizing u with
  | nil =>
      simp only [List.foldlM_nil]
      rw [List.mapM_pure, List.map_id']
  | cons a l ih =>
      have hfirst : ∀ b ∈ u, (step b a).Still good := fun b hb ↦ hstep b a (hu b hb)
      simp only [List.foldlM_cons]
      -- The first step is split off on the right, too; the rest is the induction hypothesis.
      rw [run_mapM_bind_eq_ok_iff hfirst fun b ↦ Still.foldlM hstep l]
      exact (still_mapM hfirst).run_bind_congr fun w hw ↦ ih hw

end Rolling
/-! ## Fixed dice -/

/-- The dice shows given values, whatever the draws. -/
def Dice.isFixed : Dice → Bool
  | const _ | repeating _ => true
  | numbered _ _ | fudge => false

variable {dice : Dice}

theorem Dice.roll_still (h : dice.isFixed) (n : Nat) : (dice.roll n).Still fun _ ↦ True := by
  cases dice with
  | const | repeating => exact Rolling.still_pure trivial
  | numbered | fudge => cases h

theorem ValueSet.reroll_still (triggers : ValueSet) (h : dice.isFixed) (values : List Value) :
    (triggers.reroll dice values).Still fun _ ↦ True := by
  induction values with
  | nil => exact Rolling.still_pure trivial
  | cons v rest ih =>
      have hfresh : Rolling.Still (if v ∈ triggers then dice.roll 1 else pure [v])
          fun _ ↦ True := by
        split
        · exact Dice.roll_still h 1
        · exact Rolling.still_pure trivial
      rw [reroll_cons]
      refine hfresh.bind fun fresh _ ↦ ?_
      rw [← bind_pure_comp]
      exact ih.bind fun _ _ ↦ Rolling.still_pure trivial

theorem ValueSet.burst_still (triggers : ValueSet) (h : dice.isFixed) (bound : Nat)
    (values batch : List Value) : (triggers.burst dice bound values batch).Still fun _ ↦ True := by
  induction bound generalizing values batch with
  | zero =>
      unfold burst
      split
      · exact Rolling.still_pure trivial
      · exact Rolling.still_throw
  | succ bound ih =>
      unfold burst
      split
      · exact Rolling.still_pure trivial
      · exact (Dice.roll_still h _).bind fun next _ ↦ ih (values ++ next) next

theorem ValueSet.explode_still (triggers : ValueSet) (h : dice.isFixed) (values : List Value) :
    (triggers.explode dice values).Still fun _ ↦ True := by
  have hget : Rolling.Still get fun _ ↦ True := by
    intro draws seen left hrun
    cases hrun
    exact ⟨rfl, trivial⟩
  exact hget.bind fun _ _ ↦ triggers.burst_still h _ values values

namespace Rolls

/-- No dice behind the rolls takes draws. -/
def AreFixed (r : Rolls) : Prop := ∀ d ∈ r.dice?, d.isFixed

variable {r : Rolls}

theorem AreFixed.of_diceFor {a : Action} (h : r.AreFixed) (hdice : a.diceFor r = .ok dice) :
    dice.isFixed := by
  unfold Action.diceFor at hdice
  cases hd : r.dice? with
  | none =>
      rw [hd] at hdice
      cases hdice
  | some d =>
      rw [hd] at hdice
      cases hdice
      exact h dice hd

theorem transform_still (h : r.AreFixed) (a : Action) : (a.transform r).Still fun _ ↦ True := by
  cases a with
  | reroll kind triggers =>
      exact Rolling.still_lift_bind fun d hd ↦ triggers.reroll_still (h.of_diceFor hd) _
  | explode kind triggers =>
      exact Rolling.still_lift_bind fun d hd ↦ triggers.explode_still (h.of_diceFor hd) _
  | multiply | flip | sum | total =>
      exact Rolling.still_lift_bind fun _ _ ↦ Rolling.still_pure trivial
  | keep which n =>
      exact Rolling.still_lift_bind fun _ _ ↦ Rolling.still_lift_bind fun _ _ ↦
        Rolling.still_pure trivial
  | rerollExtreme which n =>
      refine Rolling.still_lift_bind fun d hd ↦ Rolling.still_lift_bind fun _ _ ↦ ?_
      refine Rolling.still_lift_bind fun _ _ ↦ (Dice.roll_still (h.of_diceFor hd) _).bind ?_
      exact fun _ _ ↦ Rolling.still_pure trivial

theorem apply_still (h : r.AreFixed) (a : Action) : (a.apply r).Still AreFixed := by
  by_cases ha : a.kind = r.kind
  · rw [Action.apply_of_kind_eq ha]
    refine (transform_still h a).bind fun values _ ↦ Rolling.still_lift_bind fun _ _ ↦ ?_
    exact Rolling.still_pure h
  · rw [Action.apply_of_kind_ne ha]
    exact Rolling.still_throw

theorem applyAll_still (h : r.AreFixed) (actions : List Action) :
    (Action.applyAll actions r).Still AreFixed :=
  Rolling.Still.foldlM (fun _ a hr ↦ apply_still hr a) actions h

end Rolls
end TabletopDice
