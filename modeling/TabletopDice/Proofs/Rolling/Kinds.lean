import TabletopDice.Proofs.Rolling.Guarantee
import TabletopDice.Rolling.Apply

/-!
# Kinds of failures and of values

A run can fail because of its values and draws, or because a step does not fit in its place.  Dice
show possible values, which are of their own kind, also when some of them are rolled again, and
numeric values are numbers.
-/

namespace TabletopDice

namespace Failure

/-- Failures that come from the values and the draws of a run. -/
def Incidental : Failure → Prop
  | badSelection _ | noDrawLeft | endlessExplosion | numberTooLong none => True
  | _ => False

/-- Failures of steps that do not fit the session, whatever its values are. -/
def Mismatched : Failure → Prop
  | incompatible _ _ .kind | incompatible _ _ .notNumeric | incompatible _ _ .terminated => True
  | _ => False

theorem raised_of_writable {f : Failure} (h : ∀ n ∈ f.numbers, Writable n) : f.raised = f := by
  rw [raised, if_pos h]

theorem Incidental.raised {f : Failure} (h : f.Incidental) : f.raised.Incidental := by
  unfold Failure.raised
  split
  · exact h
  · trivial

/-- The failures of misplaced steps write no numbers, so they are raised as they are. -/
theorem Mismatched.raised {f : Failure} (h : f.Mismatched) : f.raised = f := by
  apply raised_of_writable
  cases f with
  | incompatible attempt kind reason =>
      cases reason with
      | otherKind request => cases h
      | _ => simp [numbers, Mismatch.numbers]
  | _ => cases h

theorem Incidental.ne_incompatible {f : Failure} (h : f.Incidental) (attempt : Attempt)
    (kind : Kind) (reason : Mismatch) : f ≠ .incompatible attempt kind reason := by
  rintro rfl
  exact h

end Failure

theorem Rolling.gives_fail_of_mismatched {α : Type} {f : Failure} {good : α → Prop}
    (h : f.Mismatched) : (Rolling.fail f : Rolling α).Gives good Failure.Mismatched := by
  apply gives_fail
  rw [h.raised]
  exact h

theorem Rolling.run_fail_of_mismatched {α : Type} {f : Failure} (h : f.Mismatched)
    (draws : Draws) : (Rolling.fail f : Rolling α).run draws = .error f draws := by
  rw [Rolling.fail, h.raised]
  rfl

theorem tooLong_of_checkWritable {numbers : List Int} {f : Failure}
    (h : checkWritable numbers = .error f) : f = .numberTooLong none := by
  unfold checkWritable at h
  split at h
  · cases h
  · exact (Except.error.inj h).symm

theorem writable_of_checkWritable {numbers : List Int} {u : Unit}
    (h : checkWritable numbers = .ok u) : ∀ n ∈ numbers, Writable n := by
  unfold checkWritable at h
  split at h
  · next hall => exact hall
  · cases h

theorem incidental_of_checkWritable {numbers : List Int} {f : Failure}
    (h : checkWritable numbers = .error f) : f.Incidental := by
  rw [tooLong_of_checkWritable h]
  trivial

theorem incidental_of_checkSelection {available : Nat} {n : Int} {f : Failure}
    (h : checkSelection available n = .error f) : f.Incidental := by
  have hraised (fault : SelectionFault) : (Failure.badSelection fault).raised.Incidental :=
    Failure.Incidental.raised (f := .badSelection fault) trivial
  unfold checkSelection at h
  split at h
  · rw [← Except.error.inj h]
    exact hraised _
  · split at h
    · rw [← Except.error.inj h]
      exact hraised _
    · cases h

/-! ## Numbers -/

theorem number?_of_kind {v : Value} (h : v.kind = .numeric) : ∃ n, v = .number n := by
  cases v with
  | number n => exact ⟨n, rfl⟩
  | face f => cases h

theorem allNumbers?_map (numbers : List Int) :
    allNumbers? (numbers.map .number) = some numbers := by
  induction numbers with
  | nil => rfl
  | cons n rest ih =>
      rw [allNumbers?] at ih ⊢
      rw [List.map_cons, List.mapM_cons, ih]
      rfl

theorem eq_map_of_allNumbers? {values : List Value} {numbers : List Int}
    (h : allNumbers? values = some numbers) : values = numbers.map .number := by
  induction values generalizing numbers with
  | nil =>
      cases h
      rfl
  | cons v rest ih =>
      rw [allNumbers?, List.mapM_cons] at h
      obtain ⟨n, hn, h⟩ := Option.bind_eq_some_iff.1 h
      obtain ⟨others, hothers, h⟩ := Option.bind_eq_some_iff.1 h
      cases h
      cases v with
      | number m =>
          cases hn
          rw [List.map_cons, ← ih hothers]
      | face f => cases hn

/-- Numeric values are numbers. -/
theorem exists_eq_map_number {values : List Value} (h : ∀ v ∈ values, v.kind = .numeric) :
    ∃ numbers : List Int, values = numbers.map .number := by
  induction values with
  | nil => exact ⟨[], rfl⟩
  | cons v rest ih =>
      obtain ⟨n, rfl⟩ := number?_of_kind (h v List.mem_cons_self)
      obtain ⟨numbers, rfl⟩ := ih fun w hw ↦ h w (List.mem_cons_of_mem _ hw)
      exact ⟨n :: numbers, rfl⟩

theorem calculable_map (numbers : List Int) : calculable (numbers.map .number) = .ok numbers := by
  rw [calculable, allNumbers?_map]

theorem eq_map_of_calculable {values : List Value} {numbers : List Int}
    (h : calculable values = .ok numbers) : values = numbers.map .number := by
  unfold calculable at h
  split at h
  · next found hfound =>
      cases h
      exact eq_map_of_allNumbers? hfound
  · cases h

theorem kind_of_mem_map_number {numbers : List Int} {v : Value}
    (h : v ∈ numbers.map Value.number) : v.kind = .numeric := by
  obtain ⟨n, _, rfl⟩ := List.mem_map.1 h
  rfl

theorem Cycle.kind_of_mem {c : Cycle} {v : Value} (h : v ∈ c.toList) : v.kind = c.kind := by
  rcases List.mem_cons.1 h with rfl | h
  · rfl
  · exact c.same_kind v h

theorem Cycle.length_take (c : Cycle) (n : Nat) : (c.take n).length = n := by
  rw [take, List.length_map, List.length_range]

theorem Cycle.getElem?_take (c : Cycle) {n i : Nat} (hi : i < n) :
    (c.take n)[i]? = c.toList[i % c.toList.length]? := by
  have hlt : i % c.toList.length < c.toList.length := Nat.mod_lt _ (by simp [Cycle.toList])
  rw [take, List.getElem?_map, List.getElem?_range hi, Option.map_some,
    List.getD_eq_getElem?_getD, List.getElem?_eq_getElem hlt, Option.getD_some]

theorem Cycle.mem_of_mem_take {c : Cycle} {n : Nat} {v : Value} (h : v ∈ c.take n) :
    v ∈ c.toList := by
  obtain ⟨i, hi⟩ := List.mem_iff_getElem?.1 h
  have hlt : i < n := c.length_take n ▸ (List.getElem?_eq_some_iff.1 hi).1
  rw [c.getElem?_take hlt] at hi
  exact List.mem_of_getElem? hi

namespace Dice

theorem greatest?_map_number {numbers : List Int} (h : numbers ≠ []) :
    ∃ n, greatest? (numbers.map .number) = some n := by
  rw [greatest?, allNumbers?_map, Option.bind_some]
  exact Option.ne_none_iff_exists'.1 (by simpa [List.max?_eq_none_iff] using h)

/-- Only fudge dice have no greatest number. -/
theorem exists_maximum {d : Dice} (h : d.kind = .numeric) : ∃ n, d.maximum = .ok n := by
  cases d with
  | const value =>
      obtain ⟨n, rfl⟩ := number?_of_kind h
      exact ⟨n, rfl⟩
  | numbered sides hpos => exact ⟨sides, rfl⟩
  | repeating cycle =>
      have hnumeric : ∀ v ∈ cycle.toList, v.kind = .numeric := fun v hv ↦
        (Cycle.kind_of_mem hv).trans h
      obtain ⟨numbers, heq⟩ := exists_eq_map_number hnumeric
      have hne : numbers ≠ [] := by
        rintro rfl
        simp [Cycle.toList] at heq
      obtain ⟨n, hn⟩ := greatest?_map_number hne
      exact ⟨n, by rw [maximum, heq, hn]; rfl⟩
  | fudge => cases h

/-- The value is one of those that the dice can show. -/
def Possible (d : Dice) (v : Value) : Prop :=
  match d with
  | const value => v = value
  | numbered sides _ => ∃ n : Int, 1 ≤ n ∧ n ≤ sides ∧ v = .number n
  | repeating cycle => v ∈ cycle.toList
  | fudge => ∃ f, v = .face f

theorem Possible.kind_eq {d : Dice} {v : Value} (h : d.Possible v) : v.kind = d.kind := by
  cases d with
  | const value => exact congrArg Value.kind h
  | numbered sides hpos =>
      obtain ⟨n, _, _, rfl⟩ := h
      rfl
  | repeating cycle => exact Cycle.kind_of_mem h
  | fudge =>
      obtain ⟨f, rfl⟩ := h
      rfl

theorem possible_sideOf {sides : Nat} (hpos : 0 < sides) (draw : Int) :
    (numbered sides hpos).Possible (sideOf sides draw) := by
  have hsides : (0 : Int) < sides := Int.ofNat_lt.2 hpos
  have hnonneg := Int.emod_nonneg draw (Int.ne_of_gt hsides)
  have hlt := Int.emod_lt_of_pos draw hsides
  exact ⟨1 + draw % sides, by omega, by omega, rfl⟩

theorem roll_gives_possible (d : Dice) (n : Nat) :
    (d.roll n).Gives (∀ v ∈ ·, d.Possible v) Failure.Incidental := by
  have hdraw {value : Int → Value} {good : Value → Prop} (h : ∀ draw, good (value draw)) :
      (value <$> Rolling.draw).Gives good Failure.Incidental := by
    refine (Rolling.gives_draw.imp (fun d _ ↦ h d) ?_).map
    rintro f rfl
    trivial
  cases d with
  | const value => exact Rolling.gives_pure fun v hv ↦ List.eq_of_mem_replicate hv
  | numbered sides hpos => exact Rolling.gives_times (hdraw (possible_sideOf hpos)) n
  | repeating cycle => exact Rolling.gives_pure fun v hv ↦ Cycle.mem_of_mem_take hv
  | fudge => exact Rolling.gives_times (hdraw fun _ ↦ ⟨_, rfl⟩) n

/-- A dice shows values of its own kind. -/
theorem roll_gives (d : Dice) (n : Nat) :
    (d.roll n).Gives (∀ v ∈ ·, v.kind = d.kind) Failure.Incidental :=
  (d.roll_gives_possible n).imp (fun _ h v hv ↦ (h v hv).kind_eq) fun _ hf ↦ hf

end Dice

namespace ValueSet

theorem reroll_cons (triggers : ValueSet) (d : Dice) (v : Value) (rest : List Value) :
    triggers.reroll d (v :: rest) =
      (if v ∈ triggers then d.roll 1 else pure [v]) >>= fun fresh ↦
        (fresh ++ ·) <$> triggers.reroll d rest := by
  rw [reroll]
  simp only [bind_pure_comp]
  split <;> rfl

/-! Whatever all values have and all that the dice shows is kept by rerolls and explosions. -/

section Kept

variable {d : Dice} {values : List Value} {good : Value → Prop}

theorem reroll_gives_of (triggers : ValueSet)
    (hroll : ∀ n, (d.roll n).Gives (∀ v ∈ ·, good v) Failure.Incidental)
    (h : ∀ v ∈ values, good v) :
    (triggers.reroll d values).Gives (∀ v ∈ ·, good v) Failure.Incidental := by
  induction values with
  | nil => exact Rolling.gives_pure (by simp)
  | cons v rest ih =>
      have hfresh : Rolling.Gives (if v ∈ triggers then d.roll 1 else pure [v])
          (∀ v ∈ ·, good v) Failure.Incidental := by
        split
        · exact hroll 1
        · exact Rolling.gives_pure (by simpa using h v List.mem_cons_self)
      rw [reroll_cons]
      refine hfresh.bind fun fresh hfresh ↦ Rolling.Gives.map ?_
      refine (ih fun w hw ↦ h w (List.mem_cons_of_mem v hw)).imp ?_ fun _ hf ↦ hf
      exact fun others hothers w hw ↦ (List.mem_append.1 hw).elim (hfresh w) (hothers w)

theorem burst_gives_of (triggers : ValueSet) (bound : Nat)
    (hroll : ∀ n, (d.roll n).Gives (∀ v ∈ ·, good v) Failure.Incidental) (batch : List Value)
    (h : ∀ v ∈ values, good v) :
    (triggers.burst d bound values batch).Gives (∀ v ∈ ·, good v) Failure.Incidental := by
  induction bound generalizing values batch with
  | zero =>
      unfold burst
      split
      · exact Rolling.gives_pure h
      · exact Rolling.gives_fail (Failure.Incidental.raised trivial)
  | succ bound ih =>
      unfold burst
      split
      · exact Rolling.gives_pure h
      · refine (hroll _).bind fun next hnext ↦ ih next fun w hw ↦ ?_
        exact (List.mem_append.1 hw).elim (h w) (hnext w)

theorem explode_gives_of (triggers : ValueSet)
    (hroll : ∀ n, (d.roll n).Gives (∀ v ∈ ·, good v) Failure.Incidental)
    (h : ∀ v ∈ values, good v) :
    (triggers.explode d values).Gives (∀ v ∈ ·, good v) Failure.Incidental := by
  have hget : Rolling.Gives get (fun _ ↦ True) Failure.Incidental := fun _ ↦ trivial
  exact hget.bind fun _ _ ↦ triggers.burst_gives_of _ hroll values h

end Kept

end ValueSet
end TabletopDice
