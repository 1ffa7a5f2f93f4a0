import TabletopDice.Proofs.Rolling.Accord
import TabletopDice.Proofs.Rolling.Application

/-!
# How many values an action leaves

Explosions apart, the number of values after an action depends on the number of values before it and
on nothing else, and so does whether a selection is possible.  Two runs that hold equally many
values therefore stay in step.
-/

namespace TabletopDice

open Failure (OfLuck)

/-! ## Rolled values -/

namespace Rolling

theorem gives_draw_ofLuck : draw.Gives (fun _ ↦ True) OfLuck :=
  gives_draw.imp (fun _ h ↦ h) fun f hf ↦ by
    subst hf
    trivial

theorem gives_times_length {α : Type} {roll : Rolling α} (h : roll.Gives (fun _ ↦ True) OfLuck)
    (n : Nat) : (times roll n).Gives (·.length = n) OfLuck := by
  induction n with
  | zero => exact gives_pure rfl
  | succ n ih =>
      refine h.bind fun a _ ↦ ih.bind fun rest hrest ↦ gives_pure ?_
      rw [List.length_cons, hrest]

end Rolling

theorem Dice.roll_gives_length (d : Dice) (n : Nat) : (d.roll n).Gives (·.length = n) OfLuck := by
  cases d with
  | const value => exact Rolling.gives_pure List.length_replicate
  | numbered sides hpos => exact Rolling.gives_times_length (Rolling.gives_draw_ofLuck.map) n
  | repeating cycle => exact Rolling.gives_pure (cycle.length_take n)
  | fudge => exact Rolling.gives_times_length (Rolling.gives_draw_ofLuck.map) n

/-- One value for one value, rolled again or not. -/
theorem ValueSet.reroll_gives_length (triggers : ValueSet) (d : Dice) (values : List Value) :
    (triggers.reroll d values).Gives (·.length = values.length) OfLuck := by
  induction values with
  | nil => exact Rolling.gives_pure rfl
  | cons v rest ih =>
      have hfresh : Rolling.Gives (if v ∈ triggers then d.roll 1 else pure [v])
          (·.length = 1) OfLuck := by
        split
        · exact d.roll_gives_length 1
        · exact Rolling.gives_pure rfl
      rw [reroll_cons]
      refine hfresh.bind fun fresh hfresh ↦ (ih.imp (fun others hothers ↦ ?_) fun _ hf ↦ hf).map
      rw [List.length_append, hfresh, hothers, List.length_cons, Nat.add_comm]

/-! ## Selected values -/

theorem length_ascending (values : List Int) : (ascending values).length = values.length :=
  List.length_mergeSort values

namespace Extreme

theorem length_among (which : Extreme) (n : Nat) (values : List Int) :
    (which.among n values).length = min n values.length := by
  cases which with
  | best =>
      rw [among, List.length_drop, length_ascending]
      omega
  | worst => rw [among, List.length_take, length_ascending]

variable {which : Extreme} {n : Int} {values values' : List Int}

theorem select_accords (h : values.length = values'.length) :
    Rolling.Accords (liftM (which.select n values)) (liftM (which.select n values'))
      fun kept kept' ↦ kept.length = kept'.length := by
  unfold select
  rw [h]
  apply Rolling.accords_lift_check
  rw [length_among, length_among, h]

theorem remove_accords (h : values.length = values'.length) :
    Rolling.Accords (liftM (which.remove n values)) (liftM (which.remove n values'))
      fun kept kept' ↦ kept.length = kept'.length := by
  unfold remove
  rw [h]
  apply Rolling.accords_lift_check
  rw [length_among, length_among, h]

end Extreme

/-! ## Actions -/

theorem calculable_accords {values values' : List Value} (h : values.length = values'.length)
    (hkind : ∀ v ∈ values, v.kind = .numeric) (hkind' : ∀ v ∈ values', v.kind = .numeric) :
    Rolling.Accords (liftM (calculable values)) (liftM (calculable values'))
      fun numbers numbers' ↦ numbers.length = numbers'.length := by
  obtain ⟨numbers, rfl⟩ := exists_eq_map_number hkind
  obtain ⟨numbers', rfl⟩ := exists_eq_map_number hkind'
  rw [calculable_map, calculable_map]
  exact Rolling.accords_pure (by simpa using h)

theorem flipAll_accords (greatest : Int) {values values' : List Int}
    (h : values.length = values'.length) :
    Rolling.Accords (liftM (flipAll greatest values)) (liftM (flipAll greatest values'))
      fun flipped flipped' ↦ flipped.length = flipped'.length := by
  have hluck {numbers : List Int} {f : Failure} (hf : flipAll greatest numbers = .error f) :
      f.OfLuck := by
    rcases bind_eq_error_iff.1 hf with hf | ⟨_, _, hf⟩
    · rw [tooLong_of_checkWritable hf]
      trivial
    · cases hf
  refine Rolling.accords_lift (fun flipped flipped' hflipped hflipped' ↦ ?_)
    (fun f hf ↦ .inl (hluck hf)) fun f hf ↦ .inl (hluck hf)
  obtain ⟨_, _, hflipped⟩ := bind_eq_ok_iff.1 hflipped
  obtain ⟨_, _, hflipped'⟩ := bind_eq_ok_iff.1 hflipped'
  cases hflipped
  cases hflipped'
  rw [List.length_map, List.length_map, h]

namespace Action

/-- Whether the action adds as many values as the dice wants. -/
def explodes : Action → Bool
  | explode _ _ => true
  | _ => false

variable {a : Action} {r t : Rolls} {q : Request}

/-- Equally many values stay equally many. -/
theorem transform_accords (hquiet : a.explodes = false) (ha : a.kind = r.kind)
    (hkind : t.kind = r.kind) (hr : r.Consistent) (ht : t.Consistent) (hq : r.origin = some q)
    (hq' : t.origin = some q) (h : r.values.length = t.values.length) :
    (a.transform r).Accords (a.transform t) fun values values' ↦
      values.length = values'.length := by
  have hnumbers (hnumeric : a.kind = .numeric) :
      Rolling.Accords (liftM (calculable r.values)) (liftM (calculable t.values))
        fun numbers numbers' ↦ numbers.length = numbers'.length :=
    calculable_accords h (fun v hv ↦ (hr.values_kind v hv).trans (ha.symm.trans hnumeric))
      fun v hv ↦ (ht.values_kind v hv).trans (hkind.trans (ha.symm.trans hnumeric))
  have hdice : Rolling.Accords (liftM (a.diceFor r)) (liftM (a.diceFor t)) fun d d' ↦
      d = q.dice ∧ d' = q.dice := by
    rw [diceFor_eq hq, diceFor_eq hq']
    exact Rolling.accords_pure ⟨rfl, rfl⟩
  cases a with
  | reroll kind triggers =>
      refine hdice.bind fun d d' hd ↦ ?_
      rw [hd.1, hd.2]
      refine Rolling.accords_of_gives (triggers.reroll_gives_length q.dice r.values)
        (triggers.reroll_gives_length q.dice t.values) fun values values' hv hv' ↦ ?_
      rw [hv, hv', h]
  | explode kind triggers => cases hquiet
  | multiply factor =>
      refine (hnumbers rfl).bind fun numbers numbers' hn ↦ Rolling.accords_pure ?_
      simpa [multiplyAll] using hn
  | flip =>
      obtain ⟨numbers, hnum⟩ := exists_eq_map_number fun v hv ↦
        (hr.values_kind v hv).trans ha.symm
      obtain ⟨numbers', hnum'⟩ := exists_eq_map_number fun v hv ↦
        (ht.values_kind v hv).trans (hkind.trans ha.symm)
      obtain ⟨greatest, hmax⟩ := Dice.exists_maximum ((hr.origin_kind q hq).trans ha.symm)
      unfold transform
      rw [flipped_eq hq hmax hnum, flipped_eq hq' hmax hnum']
      rw [hnum, hnum', List.length_map, List.length_map] at h
      refine (flipAll_accords greatest h).bind fun flipped flipped' hf ↦ Rolling.accords_pure ?_
      simpa using hf
  | sum | total => exact (hnumbers rfl).bind fun _ _ _ ↦ Rolling.accords_pure rfl
  | keep which n =>
      refine (hnumbers rfl).bind fun numbers numbers' hn ↦ ?_
      refine (Extreme.select_accords hn).bind fun kept kept' hkept ↦ Rolling.accords_pure ?_
      simpa using hkept
  | rerollExtreme which n =>
      refine hdice.bind fun d d' hd ↦ (hnumbers rfl).bind fun numbers numbers' hn ↦ ?_
      rw [hd.1, hd.2]
      refine (Extreme.remove_accords hn).bind fun rest rest' hrest ↦ ?_
      have hfresh := Rolling.accords_of_gives (q.dice.roll_gives_length n.toNat)
        (q.dice.roll_gives_length n.toNat) fun fresh fresh' hf hf' ↦ hf.trans hf'.symm
      refine hfresh.bind fun fresh fresh' hfresh ↦ Rolling.accords_pure ?_
      simp [hrest, hfresh]

end Action
end TabletopDice
