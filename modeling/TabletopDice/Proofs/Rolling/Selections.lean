import TabletopDice.Proofs.Rolling.Shown
import TabletopDice.Proofs.Rolling.Sizes
import TabletopDice.Proofs.Text.Numeral

/-!
# The best and the worst numbers

A selection cuts the numbers in ascending order at one place.  What is selected from one end and
what is selected from the other end up to the same place are all numbers together, so to roll the
best or the worst ones again is to keep the others and add fresh values.  The order of the numbers
makes no difference.
-/

namespace TabletopDice

variable {values values' sorted : List Int}

/-! ## Ascending order -/

theorem ascending_perm (values : List Int) : (ascending values).Perm values :=
  List.mergeSort_perm values _

theorem ascending_pairwise (values : List Int) : (ascending values).Pairwise (· ≤ ·) :=
  pairwise_mergeSort_by id values

/-- There is only one ascending order. -/
theorem eq_ascending (hsorted : sorted.Pairwise (· ≤ ·)) (hperm : sorted.Perm values) :
    sorted = ascending values :=
  (hperm.trans (ascending_perm values).symm).eq_of_pairwise
    (fun _ _ _ _ hij hji ↦ Int.le_antisymm hij hji) hsorted (ascending_pairwise values)

theorem ascending_of_pairwise (hsorted : sorted.Pairwise (· ≤ ·)) : ascending sorted = sorted :=
  (eq_ascending hsorted (List.Perm.refl sorted)).symm

theorem ascending_congr (h : values.Perm values') : ascending values = ascending values' :=
  eq_ascending (ascending_pairwise values) ((ascending_perm values).trans h)

/-! ## Selections that are possible -/

/-- So many values can be selected. -/
def Selectable (n : Int) (available : Nat) : Prop := 0 ≤ n ∧ n ≤ available

/-- What is wrong with a selection that is not possible. -/
def SelectionFault.of (n : Int) (available : Nat) : SelectionFault :=
  if n < 0 then .negative n else .tooMany n available

variable {n : Int} {available : Nat}

theorem checkSelection_of_selectable (h : Selectable n available) :
    checkSelection available n = .ok () := by
  rw [checkSelection, if_neg (Int.not_lt.2 h.1), if_neg (Int.not_lt.2 h.2)]

theorem checkSelection_of_not_selectable (h : ¬Selectable n available) :
    checkSelection available n = .error (Failure.badSelection (.of n available)).raised := by
  unfold checkSelection SelectionFault.of
  split
  · rfl
  · next hneg =>
      rw [if_pos (Int.not_le.1 fun hle ↦ h ⟨Int.not_lt.1 hneg, hle⟩)]

/-- A selection that is possible takes no more numbers than there are. -/
theorem Selectable.writable (h : Selectable n available) (havailable : Writable available) :
    Writable n := by
  obtain ⟨hneg, hle⟩ := h
  exact havailable.of_le (by omega)

/-- The fault writes out no number that is longer than the one that was asked for. -/
theorem raised_of_writable_number (h : ¬Selectable n available) (hn : Writable n) :
    (Failure.badSelection (.of n available)).raised = .badSelection (.of n available) := by
  apply Failure.raised_of_writable
  intro m hm
  by_cases hneg : n < 0
  · rw [SelectionFault.of, if_pos hneg] at hm
    rwa [List.mem_singleton.1 hm]
  · rw [SelectionFault.of, if_neg hneg] at hm
    have hmany : ¬n ≤ available := fun hle ↦ h ⟨Int.not_lt.1 hneg, hle⟩
    rcases List.mem_cons.1 hm with rfl | hm
    · exact hn
    · rw [List.mem_singleton.1 hm]
      exact hn.of_le (by omega)

theorem raised_of_long_number (available : Nat) (hn : ¬Writable n) :
    (Failure.badSelection (.of n available)).raised = .numberTooLong none := by
  have hmem : n ∈ (Failure.badSelection (.of n available)).numbers := by
    rw [Failure.numbers, SelectionFault.of]
    split <;> exact List.mem_cons_self
  rw [Failure.raised, if_neg fun hall ↦ hn (hall n hmem)]

theorem Selectable.sub (h : Selectable n available) : Selectable (available - n) available := by
  obtain ⟨hneg, hle⟩ := h
  constructor <;> omega

namespace Extreme

variable {which : Extreme}

theorem select_of_selectable (h : Selectable n values.length) :
    which.select n values = .ok (which.among n.toNat values) := by
  rw [select, checkSelection_of_selectable h]
  rfl

theorem select_of_not_selectable (h : ¬Selectable n values.length) :
    which.select n values = .error (Failure.badSelection (.of n values.length)).raised := by
  rw [select, checkSelection_of_not_selectable h]
  rfl

/-- A number that is too long to write asks for too many, as long as the length is not. -/
theorem select_of_long_number (which : Extreme) (hn : ¬Writable n) (h : Writable values.length) :
    which.select n values = .error (.numberTooLong none) := by
  rw [select_of_not_selectable fun hle ↦ hn (hle.writable h), raised_of_long_number _ hn]

/-- To remove some is to select the others from the opposite end. -/
theorem remove_eq_select (h : Selectable n values.length) :
    which.remove n values = which.opposite.select (values.length - n) values := by
  have hlength : ((values.length : Int) - n).toNat = values.length - n.toNat := by
    obtain ⟨hneg, hle⟩ := h
    omega
  rw [remove, checkSelection_of_selectable h, select_of_selectable h.sub, hlength]
  rfl

theorem remove_of_not_selectable (h : ¬Selectable n values.length) :
    which.remove n values = .error (Failure.badSelection (.of n values.length)).raised := by
  rw [remove, checkSelection_of_not_selectable h]
  rfl

theorem among_congr (n : Nat) (h : values.Perm values') :
    which.among n values = which.among n values' := by
  cases which with
  | best => rw [among, among, ascending_congr h, h.length_eq]
  | worst => rw [among, among, ascending_congr h]

theorem select_congr (n : Int) (h : values.Perm values') :
    which.select n values = which.select n values' := by
  rw [select, select, h.length_eq, among_congr n.toNat h]

theorem remove_congr (n : Int) (h : values.Perm values') :
    which.remove n values = which.remove n values' := by
  rw [remove, remove, h.length_eq, among_congr _ h]

end Extreme

/-! ## Both ends -/

/-- The `n` best of the numbers and the others, each in ascending order. -/
structure Splits (values : List Int) (n : Int) (best worst : List Int) : Prop where
  perm : (worst ++ best).Perm values
  length_best : best.length = n
  best_ascending : best.Pairwise (· ≤ ·)
  worst_ascending : worst.Pairwise (· ≤ ·)
  le_best : ∀ i ∈ worst, ∀ j ∈ best, i ≤ j

/-- The worst numbers come before the best ones in ascending order. -/
theorem splits_among (h : Selectable n values.length) :
    Splits values n (Extreme.best.among n.toNat values)
      (Extreme.worst.among ((values.length : Int) - n).toNat values) := by
  obtain ⟨hneg, hle⟩ := h
  have hplace : ((values.length : Int) - n).toNat = values.length - n.toNat := by omega
  have happend : Extreme.worst.among ((values.length : Int) - n).toNat values ++
      Extreme.best.among n.toNat values = ascending values := by
    rw [hplace]
    exact List.take_append_drop _ _
  have hpairwise := ascending_pairwise values
  rw [← happend, List.pairwise_append] at hpairwise
  obtain ⟨hworst, hbest, hcross⟩ := hpairwise
  refine ⟨happend ▸ ascending_perm values, ?_, hbest, hworst, hcross⟩
  rw [Extreme.length_among]
  omega

/-! ## Rolling the best or the worst ones again -/

/-- Only a lack of draws can keep a dice from being rolled. -/
theorem Dice.exists_roll {d : Dice} {n : Nat} {draws : Draws}
    (henough : d.shows?.isSome → n ≤ draws.length) :
    ∃ fresh left, (d.roll n).run draws = .ok fresh left ∧ fresh.length = n := by
  rcases d.exists_shows_or_opening with ⟨shows, hshows⟩ | ⟨v, hopening⟩
  · have hle := henough (Option.isSome_iff_exists.2 ⟨shows, hshows⟩)
    refine ⟨(draws.take n).map shows, draws.drop n, ?_, ?_⟩
    · rw [Dice.roll_of_shows hshows, Rolling.run_times_draw_of_le hle]
    · rw [List.length_map, List.length_take_of_le hle]
  · obtain ⟨fresh, hroll, hlength, _⟩ := Dice.run_roll_of_opening hopening n draws
    exact ⟨fresh, draws, hroll, hlength⟩

namespace Action

variable {which : Extreme} {r t : Rolls} {q : Request} {draws left : Draws} {fresh : List Value}

theorem transform_rerollExtreme (horigin : r.origin = some q)
    (hvalues : r.values = values.map .number) :
    (rerollExtreme which n).transform r = (do
      let rest ← which.remove n values
      return rest.map .number ++ (← q.dice.roll n.toNat)) := by
  unfold transform
  rw [diceFor_eq horigin, hvalues, calculable_map]
  rfl

theorem run_rerollExtreme_of_selectable (horigin : r.origin = some q)
    (hvalues : r.values = values.map .number) (h : Selectable n values.length)
    (hroll : (q.dice.roll n.toNat).run draws = .ok fresh left) :
    ((rerollExtreme which n).transform r).run draws =
      .ok ((which.opposite.among ((values.length : Int) - n).toNat values).map .number ++ fresh)
        left := by
  rw [transform_rerollExtreme horigin hvalues, Extreme.remove_eq_select h,
    Extreme.select_of_selectable h.sub]
  exact Rolling.run_bind_of_ok hroll

theorem run_rerollExtreme_of_not_selectable (horigin : r.origin = some q)
    (hvalues : r.values = values.map .number) (h : ¬Selectable n values.length) :
    ((rerollExtreme which n).transform r).run draws =
      .error (Failure.badSelection (.of n values.length)).raised draws := by
  rw [transform_rerollExtreme horigin hvalues, Extreme.remove_of_not_selectable h]
  rfl

end Action

/-- The `n` best numbers and the others, which are the worst ones, make up all numbers.  To roll the
best or the worst `n` again is to keep the others and add the next `n` values of the dice.  The same
numbers in another order come to the same, and a selection that is not possible is refused before
anything is drawn.  The refusal says how many were asked for; if this number has too many digits for
that, the failure is the number. -/
theorem selections_complement (which : Extreme) (values : List Int) (n : Int) {r : Rolls}
    {q : Request} (horigin : r.origin = some q) (hvalues : r.values = values.map .number) :
    (Selectable n values.length →
      (∃ best worst, Extreme.best.select n values = .ok best ∧
        Extreme.worst.select (values.length - n) values = .ok worst ∧
        Splits values n best worst) ∧
      ∀ draws : Draws, (q.dice.shows?.isSome → n ≤ draws.length) →
        ∃ kept fresh left, which.opposite.select (values.length - n) values = .ok kept ∧
          (q.dice.roll n.toNat).run draws = .ok fresh left ∧ fresh.length = n ∧
          ((Action.rerollExtreme which n).transform r).run draws =
            .ok (kept.map .number ++ fresh) left ∧
          kept.length + fresh.length = values.length) ∧
    (∀ (values' : List Int) (r' : Rolls), values.Perm values' → r'.origin = some q →
      r'.values = values'.map .number →
        which.select n values = which.select n values' ∧
        (Action.rerollExtreme which n).transform r =
          (Action.rerollExtreme which n).transform r') ∧
    (¬Selectable n values.length →
      (Writable n →
        which.select n values = .error (.badSelection (.of n values.length)) ∧
        ∀ draws : Draws, ((Action.rerollExtreme which n).transform r).run draws =
          .error (.badSelection (.of n values.length)) draws) ∧
      (¬Writable n →
        which.select n values = .error (.numberTooLong none) ∧
        ∀ draws : Draws, ((Action.rerollExtreme which n).transform r).run draws =
          .error (.numberTooLong none) draws)) := by
  refine ⟨fun h ↦ ⟨?_, fun draws henough ↦ ?_⟩, fun values' r' hperm horigin' hvalues' ↦ ?_,
    fun h ↦ ?_⟩
  · exact ⟨_, _, Extreme.select_of_selectable h, Extreme.select_of_selectable h.sub,
      splits_among h⟩
  · have hnat : q.dice.shows?.isSome → n.toNat ≤ draws.length := fun hshows ↦
      Int.toNat_le.2 (henough hshows)
    obtain ⟨fresh, left, hroll, hlength⟩ := Dice.exists_roll hnat
    refine ⟨_, fresh, left, Extreme.select_of_selectable h.sub, hroll, ?_,
      Action.run_rerollExtreme_of_selectable horigin hvalues h hroll, ?_⟩
    · rw [hlength, Int.toNat_of_nonneg h.1]
    · obtain ⟨hneg, hle⟩ := h
      rw [Extreme.length_among, hlength]
      omega
  · refine ⟨Extreme.select_congr n hperm, ?_⟩
    rw [Action.transform_rerollExtreme horigin hvalues,
      Action.transform_rerollExtreme horigin' hvalues', Extreme.remove_congr n hperm]
  · constructor
    · intro hn
      rw [← raised_of_writable_number h hn]
      exact ⟨Extreme.select_of_not_selectable h,
        fun draws ↦ Action.run_rerollExtreme_of_not_selectable horigin hvalues h⟩
    · intro hn
      rw [← raised_of_long_number values.length hn]
      exact ⟨Extreme.select_of_not_selectable h,
        fun draws ↦ Action.run_rerollExtreme_of_not_selectable horigin hvalues h⟩

/-- Two fives of four numbers are rolled again on a six-sided dice; five numbers are too many. -/
theorem selections_complement_of_four :
    ∃ (r : Rolls) (q : Request) (best worst kept : List Int) (fresh : List Value) (left : Draws),
      r.origin = some q ∧ r.values = [5, 1, 5, 2].map .number ∧
        Extreme.best.select 2 [5, 1, 5, 2] = .ok best ∧
        Extreme.worst.select 2 [5, 1, 5, 2] = .ok worst ∧ Splits [5, 1, 5, 2] 2 best worst ∧
        Extreme.worst.select 2 [5, 1, 5, 2] = .ok kept ∧
        (q.dice.roll 2).run [3, 0, 4] = .ok fresh left ∧ fresh.length = (2 : Int) ∧
        ((Action.rerollExtreme .best 2).transform r).run [3, 0, 4] =
          .ok (kept.map .number ++ fresh) left ∧ kept.length + fresh.length = 4 ∧
        Extreme.best.select 2 [5, 1, 5, 2] = Extreme.best.select 2 [1, 2, 5, 5] ∧
        ((Action.rerollExtreme .best 5).transform r).run [3, 0, 4] =
          .error (.badSelection (.tooMany 5 4)) [3, 0, 4] := by
  let q : Request := ⟨4, .numbered 6 (by decide), none, [], by decide, by simp⟩
  let r (numbers : List Int) : Rolls := ⟨.numeric, q.text, numbers.map .number, some q⟩
  have horigin (numbers : List Int) : (r numbers).origin = some q := rfl
  have hvalues (numbers : List Int) : (r numbers).values = numbers.map .number := rfl
  have hfits : Selectable 2 4 := ⟨by decide, by decide⟩
  have hmany : ¬Selectable 5 4 := fun h ↦ absurd h.2 (by decide)
  have hwritable : Writable 5 := by decide
  have hperm : ([5, 1, 5, 2] : List Int).Perm [1, 2, 5, 5] := by decide
  obtain ⟨hsome, hother, -⟩ := selections_complement .best [5, 1, 5, 2] 2 (horigin _) (hvalues _)
  obtain ⟨-, -, hnone⟩ := selections_complement .best [5, 1, 5, 2] 5 (horigin _) (hvalues _)
  obtain ⟨⟨best, worst, hbest, hworst, hsplits⟩, hrolled⟩ := hsome hfits
  obtain ⟨kept, fresh, left, hkept, hroll, hlength, hrun, hsize⟩ :=
    hrolled [3, 0, 4] fun _ ↦ by decide
  exact ⟨_, q, best, worst, kept, fresh, left, horigin _, hvalues _, hbest, hworst, hsplits, hkept,
    hroll, hlength, hrun, hsize, (hother _ (r _) hperm (horigin _) (hvalues _)).1,
    ((hnone hmany).1 hwritable).2 [3, 0, 4]⟩

/-- So many that the number cannot be written are too many, but the failure does not say so. -/
theorem selection_fails_of_long_number :
    ¬Selectable (Nat.pow 10 digitLimit : Nat) 2 ∧
      ∀ fault, Extreme.best.select (Nat.pow 10 digitLimit : Nat) [1, 2] ≠
        .error (.badSelection fault) := by
  refine ⟨fun h ↦ not_writable_pow (h.writable (by decide)), fun fault h ↦ ?_⟩
  rw [Extreme.select_of_long_number .best not_writable_pow (by decide)] at h
  cases h

end TabletopDice
