import TabletopDice.Proofs.Tally.Groups

/-!
# The order of the groups

A count sorts the distinct values by their scores.  A number and a face may score the same, and then
the one that appears first comes first.  Among values of one kind no two score the same, so it does
not matter how they are arranged in the results.
-/

namespace TabletopDice

section Lists

variable {α : Type} {R : α → α → Prop} {l : List α}

/-- Sorting keeps the order of elements with the same score. -/
theorem pairwise_mergeSort_stable (score : α → Int) (h : l.Pairwise R) :
    (l.mergeSort fun a b ↦ decide (score a ≤ score b)).Pairwise fun a b ↦
      score a < score b ∨ score a = score b ∧ R a b := by
  induction l with
  | nil => simp
  | cons a rest ih =>
      obtain ⟨ha, hrest⟩ := List.pairwise_cons.1 h
      obtain ⟨before, after, hsorted, hrestSorted, hbefore⟩ :=
        @List.mergeSort_cons _ (fun a b ↦ decide (score a ≤ score b))
          (by simpa using fun _ _ _ ↦ Int.le_trans) (by simpa using fun _ _ ↦ Int.le_total _ _)
          a rest
      have horder := pairwise_mergeSort_by score (a :: rest)
      have hmem : ∀ b ∈ after, b ∈ rest := by
        intro b hb
        have hafter := List.mem_append_right before hb
        rw [← hrestSorted] at hafter
        exact List.mem_mergeSort.1 hafter
      have ih := ih hrest
      rw [hrestSorted, List.pairwise_append] at ih
      rw [hsorted, List.pairwise_append, List.pairwise_cons] at horder
      rw [hsorted, List.pairwise_append, List.pairwise_cons]
      refine ⟨ih.1, ⟨fun b hb ↦ ?_, ih.2.1⟩, fun b hb c hc ↦ ?_⟩
      · rcases Int.lt_or_eq_of_le (horder.2.1.1 b hb) with hlt | heq
        · exact .inl hlt
        · exact .inr ⟨heq, ha b (hmem b hb)⟩
      · rcases List.mem_cons.1 hc with rfl | hc
        · exact .inl (by simpa using hbefore b hb)
        · exact ih.2.2 b hb c hc

variable [BEq α] [LawfulBEq α] {a b : α}

theorem idxOf_lt_of_filter {p : α → Bool} (ha : p a) (hb : p b)
    (h : (l.filter p).idxOf a < (l.filter p).idxOf b) : l.idxOf a < l.idxOf b := by
  induction l with
  | nil => exact h
  | cons c rest ih =>
      by_cases hc : p c
      · rw [List.filter_cons_of_pos hc] at h
        simp only [List.idxOf_cons] at h ⊢
        grind
      · rw [List.filter_cons_of_neg hc] at h
        rw [List.idxOf_cons_ne _ (by rintro rfl; exact hc ha),
          List.idxOf_cons_ne _ (by rintro rfl; exact hc hb)]
        exact Nat.succ_lt_succ (ih h)

/-- What remains without repetitions is in the order of first appearance. -/
theorem pairwise_idxOf_eraseDups (l : List α) :
    l.eraseDups.Pairwise fun a b ↦ l.idxOf a < l.idxOf b := by
  induction hlength : l.length using Nat.strongRecOn generalizing l with
  | ind n ih =>
    subst hlength
    cases l with
    | nil => exact List.Pairwise.nil
    | cons a rest =>
        have hshorter := List.length_filter_le (fun b ↦ !b == a) rest
        have hkept : ∀ b ∈ (rest.filter fun b ↦ !b == a).eraseDups, (!b == a) = true := by
          intro b hb
          exact (List.mem_filter.1 (List.mem_eraseDups.1 hb)).2
        have hne : ∀ b ∈ (rest.filter fun b ↦ !b == a).eraseDups, a ≠ b := by
          rintro b hb rfl
          simpa using hkept a hb
        have hrest := ih _ (by rw [List.length_cons]; omega) (rest.filter fun b ↦ !b == a) rfl
        rw [List.eraseDups_cons, List.pairwise_cons]
        refine ⟨fun b hb ↦ ?_, hrest.imp_of_mem fun {b c} hb hc hlt ↦ ?_⟩
        · rw [List.idxOf_cons_self, List.idxOf_cons_ne _ (hne b hb)]
          exact Nat.succ_pos _
        · rw [List.idxOf_cons_ne _ (hne b hb), List.idxOf_cons_ne _ (hne c hc)]
          exact Nat.succ_lt_succ (idxOf_lt_of_filter (hkept b hb) (hkept c hc) hlt)

end Lists

theorem Value.eq_of_score_eq {v w : Value} (hkind : v.kind = w.kind) (h : v.score = w.score) :
    v = w := by
  cases v with
  | number m =>
      cases w with
      | number n => exact congrArg _ h
      | face g => cases hkind
  | face f =>
      cases w with
      | number n => cases hkind
      | face g => exact congrArg _ (Face.score_injective h)

namespace Rolls

variable {results results' : List Rolls}

/-- The group of `v` comes before that of `w`. -/
def Precedes (values : List Value) (v w : Value) : Prop :=
  v.score < w.score ∨ v.score = w.score ∧ values.idxOf v < values.idxOf w

/-- One group of each distinct value, in their order.  No two groups share a description, and the
sizes of the groups add up to the number of values. -/
structure Grouped (values : List Value) (groups : List Rolls) : Prop where
  groups_eq : ∃ distinct : List Value, (∀ v, v ∈ distinct ↔ v ∈ values) ∧ distinct.Nodup ∧
    distinct.Pairwise (Precedes values) ∧ groups = distinct.map (groupOf values)
  nodup_descriptions : (groups.map description).Nodup
  sum_eq : ∃ sizes : List Int, groups.flatMap Rolls.values = sizes.map .number ∧
    sumOf sizes = values.length

theorem distinctValues_precedes (results : List Rolls) :
    (distinctValues results).Pairwise (Precedes (results.flatMap values)) :=
  pairwise_mergeSort_stable Value.score (pairwise_idxOf_eraseDups _)

theorem counts_grouped (results : List Rolls) :
    Grouped (results.flatMap values) (counts results) := by
  have hnodup := nodup_distinctValues results
  have hmem : ∀ v, v ∈ distinctValues results ↔ v ∈ results.flatMap values := fun _ ↦
    mem_distinctValues
  exact ⟨⟨_, hmem, hnodup, distinctValues_precedes results, rfl⟩,
    nodup_descriptions_groups hnodup _, sum_groups hnodup hmem⟩

/-- A count has a result unless the label of a group is too long to be written. -/
theorem count_eq (results : List Rolls) :
    count results =
      if ∀ n ∈ (results.flatMap values).flatMap Value.numbers, Writable n then
        .ok (counts results)
      else .error (.numberTooLong none) := by
  have hlabels : (∀ n ∈ (distinctValues results).flatMap Value.numbers, Writable n) ↔
      ∀ n ∈ (results.flatMap values).flatMap Value.numbers, Writable n := by
    refine forall_congr' fun n ↦ imp_congr_left ?_
    rw [List.mem_flatMap, List.mem_flatMap]
    simp only [mem_distinctValues]
  rw [count, checkWritable]
  simp only [hlabels]
  split
  · rfl
  · rfl

/-- The distinct values of one kind do not depend on the arrangement of the values. -/
theorem distinctValues_congr {kind : Kind} (hkind : ∀ v ∈ results.flatMap values, v.kind = kind)
    (hperm : (results'.flatMap values).Perm (results.flatMap values)) :
    distinctValues results' = distinctValues results := by
  have hmem (v : Value) : v ∈ distinctValues results' ↔ v ∈ results.flatMap values := by
    rw [mem_distinctValues, hperm.mem_iff]
  refine List.Perm.eq_of_pairwise (fun v w hv hw hvw hwv ↦ ?_) (distinctValues_pairwise results')
    (distinctValues_pairwise results) ?_
  · have hsame := (hkind v ((hmem v).1 hv)).trans (hkind w (mem_distinctValues.1 hw)).symm
    exact Value.eq_of_score_eq hsame (Int.le_antisymm hvw hwv)
  · refine (List.perm_ext_iff_of_nodup (nodup_distinctValues results')
      (nodup_distinctValues results)).2 fun v ↦ ?_
    rw [hmem, mem_distinctValues]

theorem counts_congr {kind : Kind} (hkind : ∀ v ∈ results.flatMap values, v.kind = kind)
    (hperm : (results'.flatMap values).Perm (results.flatMap values)) :
    counts results' = counts results := by
  have hgroup : groupOf (results'.flatMap values) = groupOf (results.flatMap values) := by
    funext v
    rw [groupOf, groupOf, hperm.count_eq]
  rw [counts, counts, distinctValues_congr hkind hperm, hgroup]

theorem count_congr {kind : Kind} (hkind : ∀ v ∈ results.flatMap values, v.kind = kind)
    (hperm : (results'.flatMap values).Perm (results.flatMap values)) :
    count results' = count results := by
  rw [count_eq, count_eq, counts_congr hkind hperm]
  simp only [(hperm.flatMap_right Value.numbers).mem_iff]

theorem number_mem_of_mem_numbers {v : Value} {n : Int} (h : n ∈ v.numbers) : v = .number n := by
  cases v with
  | number m => rw [List.mem_singleton.1 h]
  | face f => cases h

/-- A count groups all values, whatever their kinds are, or it fails because of a number that is too
long for a label.  If the values are of one kind, then it does not matter in which results and in
which order they are. -/
theorem count_groups_values (results : List Rolls) :
    ((∃ groups, count results = .ok groups ∧ Grouped (results.flatMap values) groups) ∨
      ∃ n, .number n ∈ results.flatMap values ∧ ¬Writable n ∧
        count results = .error (.numberTooLong none)) ∧
    ∀ (kind : Kind) (results' : List Rolls), (∀ v ∈ results.flatMap values, v.kind = kind) →
      (results'.flatMap values).Perm (results.flatMap values) →
        count results' = count results := by
  refine ⟨?_, fun kind results' hkind hperm ↦ count_congr hkind hperm⟩
  have hcount := count_eq results
  by_cases hwritable : ∀ n ∈ (results.flatMap values).flatMap Value.numbers, Writable n
  · rw [if_pos hwritable] at hcount
    exact .inl ⟨_, hcount, counts_grouped results⟩
  · rw [if_neg hwritable] at hcount
    push Not at hwritable
    obtain ⟨n, hn, hlong⟩ := hwritable
    obtain ⟨v, hv, hnumber⟩ := List.mem_flatMap.1 hn
    rw [number_mem_of_mem_numbers hnumber] at hv
    exact .inr ⟨n, hv, hlong, hcount⟩

/-- A blank face and the number zero score the same, and the three numbers can be shared out among
the results in another way. -/
theorem count_groups_values_of_ties :
    (∃ groups, count [⟨.fudge, "2F".toList, [.face .blank, .face .plus], none⟩,
          ⟨.numeric, "2D6 x0".toList, [.number 0, .number 0], none⟩] = .ok groups ∧
        Grouped [.face .blank, .face .plus, .number 0, .number 0] groups) ∧
      (∀ v ∈ [Value.number 3, .number 1, .number 3], v.kind = .numeric) ∧
        count [⟨.numeric, "3D6".toList, [.number 1, .number 3, .number 3], none⟩] =
          count [⟨.numeric, "2D6".toList, [.number 3, .number 1], none⟩,
            ⟨.numeric, "D6".toList, [.number 3], none⟩] := by
  obtain ⟨hgroups, _⟩ := count_groups_values
    [⟨.fudge, "2F".toList, [.face .blank, .face .plus], none⟩,
      ⟨.numeric, "2D6 x0".toList, [.number 0, .number 0], none⟩]
  obtain ⟨_, harranged⟩ := count_groups_values
    [⟨.numeric, "2D6".toList, [.number 3, .number 1], none⟩,
      ⟨.numeric, "D6".toList, [.number 3], none⟩]
  have hkind : ∀ v ∈ [Value.number 3, .number 1, .number 3], v.kind = .numeric := by decide
  refine ⟨hgroups.resolve_right ?_, hkind, harranged .numeric _ hkind (by decide)⟩
  rintro ⟨n, hn, hlong, _⟩
  obtain rfl : n = 0 := by simpa using hn
  exact hlong (by decide)

/-- The least number with too many digits has no group. -/
theorem count_fails_of_long_number :
    ¬∃ groups, count [⟨.numeric, "+1".toList, [.number (Nat.pow 10 digitLimit : Nat)], none⟩] =
      .ok groups := by
  rintro ⟨groups, h⟩
  rw [count_eq, if_neg] at h
  · cases h
  · intro hall
    refine not_writable_pow (hall _ (List.mem_flatMap.2 ⟨.number _, ?_, List.mem_singleton_self _⟩))
    exact List.mem_flatMap.2 ⟨_, List.mem_singleton_self _, List.mem_singleton_self _⟩

end Rolls
end TabletopDice
