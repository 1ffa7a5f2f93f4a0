import TabletopDice.Proofs.Rolling.Shown
import TabletopDice.Proofs.Rolling.Sizes

/-!
# The positions that are rolled again

A reroll goes through the values once, from the left to the right.  A trigger makes way for the next
value of the dice, which is not looked at again, and every other value stays where it is.
-/

namespace TabletopDice

variable {triggers : ValueSet} {dice : Dice} {shows : Int → Value} {v w : Value}
  {values rest fresh result : List Value} {draws left : Draws}

namespace Dice

theorem run_roll_one_of_shows (h : dice.shows? = some shows) (d : Int) (left : Draws) :
    (dice.roll 1).run (d :: left) = .ok [shows d] left := by
  rw [roll_of_shows h]
  rfl

theorem roll_one_of_opening (h : dice.opening? = some v) : dice.roll 1 = pure [v] := by
  cases dice with
  | const | repeating =>
      cases h
      rfl
  | numbered | fudge => cases h

end Dice

namespace ValueSet

/-! ## Values in place of triggers -/

theorem countIn_cons_of_mem (h : v ∈ triggers) (rest : List Value) :
    triggers.countIn (v :: rest) = triggers.countIn rest + 1 :=
  List.countP_cons_of_pos (decide_eq_true h)

theorem countIn_cons_of_notMem (h : v ∉ triggers) (rest : List Value) :
    triggers.countIn (v :: rest) = triggers.countIn rest :=
  List.countP_cons_of_neg fun hv ↦ h (of_decide_eq_true hv)

/-- The triggers among the values have made way for the fresh values, each of them for the one that
has as many before it as there are triggers before the trigger. -/
structure Replaces (triggers : ValueSet) (values fresh result : List Value) : Prop where
  length_eq : result.length = values.length
  kept : ∀ (i : Nat) (v : Value), values[i]? = some v → v ∉ triggers → result[i]? = some v
  replaced : ∀ (i : Nat) (v : Value), values[i]? = some v → v ∈ triggers →
    result[i]? = fresh[triggers.countIn (values.take i)]?

theorem replaces_nil (triggers : ValueSet) (fresh : List Value) :
    Replaces triggers [] fresh [] where
  length_eq := rfl
  kept _ _ h := nomatch h
  replaced _ _ h := nomatch h

theorem Replaces.cons_of_mem (h : Replaces triggers rest fresh result) (hv : v ∈ triggers)
    (w : Value) : Replaces triggers (v :: rest) (w :: fresh) (w :: result) where
  length_eq := by rw [List.length_cons, List.length_cons, h.length_eq]
  kept i u hu hother := by
    cases i with
    | zero =>
        cases hu
        exact (hother hv).elim
    | succ i => exact h.kept i u hu hother
  replaced i u hu htrigger := by
    cases i with
    | zero => rfl
    | succ i =>
        rw [List.take_succ_cons, countIn_cons_of_mem hv]
        exact h.replaced i u hu htrigger

theorem Replaces.cons_of_notMem (h : Replaces triggers rest fresh result) (hv : v ∉ triggers) :
    Replaces triggers (v :: rest) fresh (v :: result) where
  length_eq := by rw [List.length_cons, List.length_cons, h.length_eq]
  kept i u hu hother := by
    cases i with
    | zero => exact hu
    | succ i => exact h.kept i u hu hother
  replaced i u hu htrigger := by
    cases i with
    | zero =>
        cases hu
        exact (hv htrigger).elim
    | succ i =>
        rw [List.take_succ_cons, countIn_cons_of_notMem hv]
        exact h.replaced i u hu htrigger

/-! ## The loop -/

theorem reroll_cons_of_notMem (hv : v ∉ triggers) (dice : Dice) (rest : List Value) :
    triggers.reroll dice (v :: rest) = (v :: ·) <$> triggers.reroll dice rest := by
  rw [reroll_cons, if_neg hv, pure_bind]
  rfl

theorem reroll_cons_of_mem (hv : v ∈ triggers) (dice : Dice) (rest : List Value) :
    triggers.reroll dice (v :: rest) =
      dice.roll 1 >>= fun fresh ↦ (fresh ++ ·) <$> triggers.reroll dice rest := by
  rw [reroll_cons, if_pos hv]

theorem run_reroll_of_shows (hshows : dice.shows? = some shows)
    (henough : triggers.countIn values ≤ draws.length) :
    ∃ result, (triggers.reroll dice values).run draws =
        .ok result (draws.drop (triggers.countIn values)) ∧
      Replaces triggers values (draws.map shows) result := by
  induction values generalizing draws with
  | nil => exact ⟨[], rfl, replaces_nil triggers _⟩
  | cons v rest ih =>
      by_cases hv : v ∈ triggers
      · rw [countIn_cons_of_mem hv] at henough ⊢
        cases draws with
        | nil => cases henough
        | cons d left =>
            obtain ⟨result, hrun, hreplaces⟩ := ih (Nat.le_of_succ_le_succ henough)
            refine ⟨shows d :: result, ?_, hreplaces.cons_of_mem hv (shows d)⟩
            rw [reroll_cons_of_mem hv,
              Rolling.run_bind_of_ok (Dice.run_roll_one_of_shows hshows d left)]
            exact Rolling.run_map_eq_ok_iff.2 ⟨result, hrun, rfl⟩
      · rw [countIn_cons_of_notMem hv] at henough ⊢
        obtain ⟨result, hrun, hreplaces⟩ := ih henough
        refine ⟨v :: result, ?_, hreplaces.cons_of_notMem hv⟩
        rw [reroll_cons_of_notMem hv]
        exact Rolling.run_map_eq_ok_iff.2 ⟨result, hrun, rfl⟩

theorem reroll_of_opening (hopening : dice.opening? = some v) (values : List Value) :
    triggers.reroll dice values = pure (values.map fun u ↦ if u ∈ triggers then v else u) := by
  induction values with
  | nil => rfl
  | cons u rest ih =>
      by_cases hu : u ∈ triggers
      · rw [reroll_cons_of_mem hu, Dice.roll_one_of_opening hopening, ih, List.map_cons, if_pos hu]
        rfl
      · rw [reroll_cons_of_notMem hu, ih, List.map_cons, if_neg hu]
        rfl

/-- Whatever is no trigger is still there. -/
theorem reroll_gives_kept (triggers : ValueSet) (dice : Dice) (values : List Value) :
    (triggers.reroll dice values).Gives (List.Forall₂ (fun v w ↦ v ∉ triggers → w = v) values)
      fun _ ↦ True := by
  induction values with
  | nil => exact Rolling.gives_pure .nil
  | cons v rest ih =>
      by_cases hv : v ∈ triggers
      · rw [reroll_cons_of_mem hv]
        refine (dice.roll_gives_length 1).good_only.bind fun fresh hfresh ↦ ?_
        obtain ⟨w, rfl⟩ := List.length_eq_one_iff.1 hfresh
        exact (ih.imp (fun _ hkept ↦ .cons (fun h ↦ (h hv).elim) hkept) fun _ hf ↦ hf).map
      · rw [reroll_cons_of_notMem hv]
        exact (ih.imp (fun _ hkept ↦ .cons (fun _ ↦ rfl) hkept) fun _ hf ↦ hf).map

/-- A trigger that is in the result stands where a trigger stood before. -/
theorem exists_trigger_of_run_reroll
    (hrun : (triggers.reroll dice values).run draws = .ok result left) {i : Nat}
    (hw : result[i]? = some w) (htrigger : w ∈ triggers) : ∃ v ∈ values[i]?, v ∈ triggers := by
  have hkept := triggers.reroll_gives_kept dice values draws
  rw [hrun] at hkept
  obtain ⟨hi, rfl⟩ := List.getElem?_eq_some_iff.1 hw
  have hi' : i < values.length := hkept.length_eq ▸ hi
  refine ⟨values[i], List.getElem?_eq_getElem hi', ?_⟩
  by_contra hother
  have heq : result[i] = values[i] := hkept.get hi' hi hother
  exact hother (heq ▸ htrigger)

/-- A reroll replaces the triggers and nothing else.  The dice is rolled for each of them in order,
so one of its values may again be a trigger, but no trigger is left anywhere else. -/
theorem reroll_replaces (triggers : ValueSet) (dice : Dice) (values : List Value) (draws : Draws) :
    (∀ shows ∈ dice.shows?, triggers.countIn values ≤ draws.length →
      ∃ result, (triggers.reroll dice values).run draws =
          .ok result (draws.drop (triggers.countIn values)) ∧
        Replaces triggers values (draws.map shows) result) ∧
    (∀ v ∈ dice.opening?, (triggers.reroll dice values).run draws =
      .ok (values.map fun u ↦ if u ∈ triggers then v else u) draws) ∧
    ∀ result left, (triggers.reroll dice values).run draws = .ok result left →
      ∀ (i : Nat) (w : Value), result[i]? = some w → w ∈ triggers →
        ∃ v ∈ values[i]?, v ∈ triggers := by
  refine ⟨fun shows hshows henough ↦ run_reroll_of_shows hshows henough, fun v hopening ↦ ?_,
    fun result left hrun i w hw htrigger ↦ exists_trigger_of_run_reroll hrun hw htrigger⟩
  rw [reroll_of_opening hopening]
  rfl

/-- Of the two ones that a six-sided dice is rolled for, the first one comes up as a one again. -/
theorem reroll_replaces_ones :
    ((ofList [.number 1]).reroll (.numbered 6 (by decide)) ([1, 4, 1].map .number)).run [0, 3, 2] =
        .ok ([1, 4, 4].map .number) [2] ∧
      Replaces (ofList [.number 1]) ([1, 4, 1].map .number)
        ([0, 3, 2].map (Dice.sideOf 6)) ([1, 4, 4].map .number) ∧
      ((ofList [.number 1]).reroll (.const (.number 3)) ([1, 4, 1].map .number)).run [0, 3, 2] =
        .ok ([3, 4, 3].map .number) [0, 3, 2] ∧
      ∃ v ∈ ([1, 4, 1].map Value.number)[0]?, v ∈ ofList [.number 1] := by
  obtain ⟨hshows, -, htrigger⟩ := reroll_replaces (ofList [.number 1]) (.numbered 6 (by decide))
    ([1, 4, 1].map .number) [0, 3, 2]
  obtain ⟨-, hopening, -⟩ := reroll_replaces (ofList [.number 1]) (.const (.number 3))
    ([1, 4, 1].map .number) [0, 3, 2]
  obtain ⟨result, hrun, hreplaces⟩ := hshows _ rfl (by decide)
  have hresult : result = [1, 4, 4].map .number := by
    cases hrun
    rfl
  subst hresult
  exact ⟨hrun, hreplaces, hopening _ rfl, htrigger _ _ hrun 0 (.number 1) rfl (by decide)⟩

end ValueSet
end TabletopDice
