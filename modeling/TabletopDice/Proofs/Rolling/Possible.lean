import TabletopDice.Proofs.Rolling.Selections

/-!
# Actions that leave possible values

What rerolls and explosions add has just been rolled on the dice, and what selections keep was there
before.  So these actions leave values that the dice can show.  The other ones calculate.
-/

namespace TabletopDice

namespace Extreme

variable {which : Extreme} {n : Int} {values kept : List Int}

theorem among_subset (n : Nat) (values : List Int) : which.among n values ⊆ values := by
  intro i hi
  refine (ascending_perm values).mem_iff.1 ?_
  cases which with
  | best => exact List.mem_of_mem_drop hi
  | worst => exact List.mem_of_mem_take hi

theorem subset_of_select (h : which.select n values = .ok kept) : kept ⊆ values := by
  obtain ⟨_, _, h⟩ := bind_eq_ok_iff.1 h
  cases h
  exact among_subset n.toNat values

theorem subset_of_remove (h : which.remove n values = .ok kept) : kept ⊆ values := by
  obtain ⟨_, _, h⟩ := bind_eq_ok_iff.1 h
  cases h
  exact among_subset _ values

end Extreme

namespace Action

/-- The action leaves values that the dice can show. -/
def staysOnDice : Action → Bool
  | reroll _ _ | explode _ _ | keep _ _ | rerollExtreme _ _ => true
  | multiply _ | flip | sum | total => false

variable {a : Action} {r : Rolls} {q : Request}

theorem transform_gives_possible (hstays : a.staysOnDice) (hq : r.origin = some q)
    (h : ∀ v ∈ r.values, q.dice.Possible v) :
    (a.transform r).Gives (∀ v ∈ ·, q.dice.Possible v) fun _ ↦ True := by
  have hkept {numbers kept : List Int} (hnumbers : calculable r.values = .ok numbers)
      (hsub : kept ⊆ numbers) : ∀ v ∈ kept.map Value.number, q.dice.Possible v := by
    rw [eq_map_of_calculable hnumbers] at h
    exact fun v hv ↦ h v (List.map_subset _ hsub hv)
  cases a with
  | reroll kind triggers =>
      apply Rolling.gives_lift_bind_of_ok (diceFor_eq hq)
      exact (triggers.reroll_gives_of q.dice.roll_gives_possible h).good_only
  | explode kind triggers =>
      apply Rolling.gives_lift_bind_of_ok (diceFor_eq hq)
      exact (triggers.explode_gives_of q.dice.roll_gives_possible h).good_only
  | keep which n =>
      refine Rolling.gives_lift_bind (fun _ _ ↦ trivial) fun numbers hnumbers ↦ ?_
      refine Rolling.gives_lift_bind (fun _ _ ↦ trivial) fun kept hselect ↦ Rolling.gives_pure ?_
      exact hkept hnumbers (Extreme.subset_of_select hselect)
  | rerollExtreme which n =>
      apply Rolling.gives_lift_bind_of_ok (diceFor_eq hq)
      refine Rolling.gives_lift_bind (fun _ _ ↦ trivial) fun numbers hnumbers ↦ ?_
      refine Rolling.gives_lift_bind (fun _ _ ↦ trivial) fun rest hremove ↦ ?_
      refine (q.dice.roll_gives_possible n.toNat).good_only.bind
        fun fresh hfresh ↦ Rolling.gives_pure fun v hv ↦ ?_
      rcases List.mem_append.1 hv with hv | hv
      · exact hkept hnumbers (Extreme.subset_of_remove hremove) v hv
      · exact hfresh v hv
  | multiply | flip | sum | total => cases hstays

end Action
end TabletopDice
