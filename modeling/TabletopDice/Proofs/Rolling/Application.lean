import TabletopDice.Proofs.Except
import TabletopDice.Proofs.Rolling.Kinds

/-!
# Applying actions to consistent rolls

Rolls are consistent if their values and their request are of their kind.  Applying an action to
consistent rolls of a request has a result only if the action is defined for their kind, and then
the result is consistent again.  If it fails although the action is defined for them, the values or
the draws are to blame.  On results that stem from no request, the actions that need dice fail.
-/

namespace TabletopDice

/-- The failure comes from the values and the draws, or else from what is `unfit`. -/
def Failure.Blames (unfit : Prop) (f : Failure) : Prop := f.Incidental ∨ f.Mismatched ∧ unfit

theorem Failure.Blames.imp {unfit unfit' : Prop} {f : Failure} (h : f.Blames unfit)
    (himp : unfit → unfit') : f.Blames unfit' :=
  Or.imp_right (And.imp_right himp) h

theorem Failure.Blames.incidental {unfit : Prop} {f : Failure} (h : f.Blames unfit)
    (hfit : ¬unfit) : f.Incidental :=
  h.elim id fun hf ↦ (hfit hf.2).elim

namespace Rolls

structure Consistent (r : Rolls) : Prop where
  values_kind : ∀ v ∈ r.values, v.kind = r.kind
  origin_kind : ∀ q ∈ r.origin, q.kind = r.kind

/-- Consistent rolls that stem from the same request as `r`. -/
structure Follows (t r : Rolls) : Prop where
  kind_eq : t.kind = r.kind
  origin_eq : t.origin = r.origin
  consistent : t.Consistent

theorem Consistent.follows {r : Rolls} (h : r.Consistent) : r.Follows r := ⟨rfl, rfl, h⟩

theorem Follows.trans {r s t : Rolls} (hts : t.Follows s) (hsr : s.Follows r) : t.Follows r :=
  ⟨hts.kind_eq.trans hsr.kind_eq, hts.origin_eq.trans hsr.origin_eq, hts.consistent⟩

end Rolls

namespace Action

variable {a : Action} {r : Rolls} {q : Request}

theorem diceFor_eq (h : r.origin = some q) : a.diceFor r = .ok q.dice := by
  rw [diceFor, Rolls.dice?, h]
  rfl

theorem incidental_of_select {which : Extreme} {n : Int} {numbers : List Int} {f : Failure}
    (h : which.select n numbers = .error f) : f.Incidental := by
  rcases bind_eq_error_iff.1 h with h | ⟨u, _, h⟩
  · exact incidental_of_checkSelection h
  · cases h

theorem incidental_of_remove {which : Extreme} {n : Int} {numbers : List Int} {f : Failure}
    (h : which.remove n numbers = .error f) : f.Incidental := by
  rcases bind_eq_error_iff.1 h with h | ⟨u, _, h⟩
  · exact incidental_of_checkSelection h
  · cases h

theorem incidental_of_flipAll {greatest : Int} {numbers : List Int} {f : Failure}
    (h : flipAll greatest numbers = .error f) : f.Incidental := by
  rcases bind_eq_error_iff.1 h with h | ⟨u, _, h⟩
  · exact incidental_of_checkWritable h
  · cases h

/-- Flipping needs numbers and a dice with a greatest number, and numeric rolls have both. -/
theorem flipped_eq {numbers : List Int} {greatest : Int} (hq : r.origin = some q)
    (hmax : q.dice.maximum = .ok greatest) (hvalues : r.values = numbers.map .number) :
    a.flipped r = flipAll greatest numbers := by
  unfold flipped
  rw [diceFor_eq hq, hvalues, calculable_map, ok_bind, hmax, Except.mapError, ok_bind, ok_bind]

/-- The new values are of the kind of the rolls. -/
theorem transform_gives (ha : a.kind = r.kind) (h : r.Consistent) (hq : r.origin = some q) :
    (a.transform r).Gives (∀ v ∈ ·, v.kind = r.kind) Failure.Incidental := by
  have hdice : q.dice.kind = r.kind := h.origin_kind q hq
  have hvalues : ∀ v ∈ r.values, v.kind = q.dice.kind := fun v hv ↦
    (h.values_kind v hv).trans hdice.symm
  -- Numeric actions find numbers in the rolls and a numeric dice behind them.
  have hnumbers (hr : r.kind = .numeric) :
      ∃ numbers : List Int, r.values = numbers.map .number :=
    exists_eq_map_number fun v hv ↦ (h.values_kind v hv).trans hr
  cases a with
  | reroll kind triggers =>
      apply Rolling.gives_lift_bind_of_ok (diceFor_eq hq)
      rw [← hdice]
      exact triggers.reroll_gives_of q.dice.roll_gives hvalues
  | explode kind triggers =>
      apply Rolling.gives_lift_bind_of_ok (diceFor_eq hq)
      rw [← hdice]
      exact triggers.explode_gives_of q.dice.roll_gives hvalues
  | multiply factor =>
      obtain ⟨numbers, hnum⟩ := hnumbers ha.symm
      apply Rolling.gives_lift_bind_of_ok (hnum ▸ calculable_map numbers)
      exact Rolling.gives_pure fun v hv ↦ (kind_of_mem_map_number hv).trans ha
  | flip =>
      obtain ⟨numbers, hnum⟩ := hnumbers ha.symm
      obtain ⟨greatest, hmax⟩ := Dice.exists_maximum (hdice.trans ha.symm)
      refine Rolling.gives_lift_bind (fun f hf ↦ ?_) fun flipped _ ↦ ?_
      · rw [flipped_eq hq hmax hnum] at hf
        exact incidental_of_flipAll hf
      · exact Rolling.gives_pure fun v hv ↦ (kind_of_mem_map_number hv).trans ha
  | sum | total =>
      obtain ⟨numbers, hnum⟩ := hnumbers ha.symm
      apply Rolling.gives_lift_bind_of_ok (hnum ▸ calculable_map numbers)
      apply Rolling.gives_pure
      intro v hv
      rw [List.mem_singleton.1 hv]
      exact ha
  | keep which n =>
      obtain ⟨numbers, hnum⟩ := hnumbers ha.symm
      apply Rolling.gives_lift_bind_of_ok (hnum ▸ calculable_map numbers)
      apply Rolling.gives_lift_bind (fun f hf ↦ incidental_of_select hf)
      intro kept _
      exact Rolling.gives_pure fun v hv ↦ (kind_of_mem_map_number hv).trans ha
  | rerollExtreme which n =>
      obtain ⟨numbers, hnum⟩ := hnumbers ha.symm
      apply Rolling.gives_lift_bind_of_ok (diceFor_eq hq)
      apply Rolling.gives_lift_bind_of_ok (hnum ▸ calculable_map numbers)
      apply Rolling.gives_lift_bind (fun f hf ↦ incidental_of_remove hf)
      intro rest _
      refine (q.dice.roll_gives n.toNat).bind fun fresh hfresh ↦ Rolling.gives_pure fun v hv ↦ ?_
      rcases List.mem_append.1 hv with hv | hv
      · exact (kind_of_mem_map_number hv).trans ha
      · exact (hfresh v hv).trans hdice

theorem apply_of_kind_ne (h : a.kind ≠ r.kind) :
    a.apply r = throw (.incompatible (.action a) r.kind .kind) := by
  have hmismatched : Failure.Mismatched (.incompatible (.action a) r.kind .kind) := trivial
  unfold apply Rolling.fail
  rw [hmismatched.raised]
  simp only [if_pos h]
  rfl

theorem apply_of_kind_eq (h : a.kind = r.kind) :
    a.apply r = (do
      let values ← a.transform r
      checkWritable a.numbers
      return { r with description := r.description ++ ' ' :: a.text, values }) := by
  unfold apply
  simp only [if_neg (not_not_intro h)]

/-- Applying an action has a result only if the action is defined for the rolls. -/
theorem apply_gives (a : Action) (h : r.Consistent) (hq : r.origin = some q) :
    (a.apply r).Gives (fun t ↦ a.kind = r.kind ∧ t.Follows r)
      (Failure.Blames (a.kind ≠ r.kind)) := by
  by_cases ha : a.kind = r.kind
  · rw [apply_of_kind_eq ha]
    refine ((transform_gives ha h hq).imp (fun _ h ↦ h) fun f hf ↦ .inl hf).bind
      fun values hvalues ↦ ?_
    refine Rolling.gives_lift_bind (fun f hf ↦ .inl (incidental_of_checkWritable hf))
      fun _ _ ↦ Rolling.gives_pure ⟨ha, rfl, rfl, hvalues, h.origin_kind⟩
  · rw [apply_of_kind_ne ha]
    exact fun _ ↦ .inr ⟨trivial, ha⟩

theorem applyAll_gives (actions : List Action) (h : r.Consistent) (hq : r.origin = some q) :
    (applyAll actions r).Gives (fun t ↦ (∀ a ∈ actions, a.kind = r.kind) ∧ t.Follows r)
      (Failure.Blames (∃ a ∈ actions, a.kind ≠ r.kind)) := by
  induction actions generalizing r with
  | nil => exact Rolling.gives_pure ⟨by simp, h.follows⟩
  | cons a rest ih =>
      rw [applyAll, List.foldlM_cons]
      have hfirst := (a.apply_gives h hq).imp (fun _ h ↦ h) fun f hf ↦
        hf.imp fun ha ↦ (⟨a, List.mem_cons_self, ha⟩ : ∃ b ∈ a :: rest, b.kind ≠ r.kind)
      apply hfirst.bind
      rintro s ⟨ha, hs⟩
      refine (ih hs.consistent (hs.origin_eq.trans hq)).imp (fun t ht ↦ ?_) fun f hf ↦ ?_
      · refine ⟨?_, ht.2.trans hs⟩
        simpa [ha, hs.kind_eq] using ht.1
      · apply hf.imp
        rintro ⟨b, hb, hne⟩
        exact ⟨b, List.mem_cons_of_mem a hb, hs.kind_eq ▸ hne⟩

/-- The text of the action is added to the description, and nothing else but the values changes. -/
theorem apply_describes (a : Action) (r : Rolls) :
    (a.apply r).Gives
      (fun t ↦ t.description = r.description ++ ' ' :: a.text ∧ t.origin = r.origin ∧
        t.kind = r.kind)
      fun _ ↦ True := by
  by_cases ha : a.kind = r.kind
  · rw [apply_of_kind_eq ha]
    refine (Rolling.gives_anything _).bind fun values _ ↦ ?_
    exact Rolling.gives_lift_bind (fun _ _ ↦ trivial) fun _ _ ↦ Rolling.gives_pure ⟨rfl, rfl, rfl⟩
  · rw [apply_of_kind_ne ha]
    exact fun _ ↦ trivial

/-! ## Results that stem from no request -/

theorem diceFor_of_no_origin (h : r.origin = none) :
    a.diceFor r = .error (.incompatible (.action a) r.kind .noDice) := by
  have hnumbers : ∀ n ∈ (Failure.incompatible (.action a) r.kind .noDice).numbers, Writable n := by
    simp [Failure.numbers, Mismatch.numbers]
  rw [diceFor, Rolls.dice?, h]
  exact congrArg _ (Failure.raised_of_writable hnumbers)

/-- Without a request there are no dice, so the actions that need them are refused. -/
theorem apply_of_needsDice (ha : a.needsDice) (hkind : a.kind = r.kind) (h : r.origin = none) :
    a.apply r = throw (.incompatible (.action a) r.kind .noDice) := by
  have hdice : a.diceFor r = _ := diceFor_of_no_origin h
  rw [apply_of_kind_eq hkind]
  cases a with
  | reroll | explode | flip | rerollExtreme =>
      simp only [transform, flipped, hdice]
      rfl
  | multiply | sum | total | keep => cases ha

/-- The other actions make the same of the values whatever request they stem from. -/
theorem transform_of_not_needsDice (ha : ¬a.needsDice) (origin : Option Request) :
    a.transform { r with origin } = a.transform r := by
  cases a with
  | reroll | explode | flip | rerollExtreme => exact (ha rfl).elim
  | multiply | sum | total | keep => rfl

end Action
end TabletopDice
