import Mathlib.Algebra.BigOperators.Group.List.Lemmas
import TabletopDice.Proofs.Except
import TabletopDice.Proofs.Rolling.Kinds
import TabletopDice.Proofs.Text.Numeral
import TabletopDice.Tally

/-!
# Groups of equal values

A count makes one group of each distinct value.  No two values share a label, and the sizes of the
groups add up to the number of values.
-/

namespace TabletopDice

theorem nodup_eraseDups {α : Type} [BEq α] [LawfulBEq α] (l : List α) : l.eraseDups.Nodup := by
  induction hlength : l.length using Nat.strongRecOn generalizing l with
  | ind n ih =>
    subst hlength
    cases l with
    | nil => exact List.nodup_nil
    | cons a rest =>
        have hshorter := List.length_filter_le (fun b ↦ !b == a) rest
        rw [List.eraseDups_cons, List.nodup_cons]
        refine ⟨by simp, ih _ ?_ _ rfl⟩
        rw [List.length_cons]
        omega

/-! ## Labels -/

theorem natNumeral_injective {m n : Nat} (h : natNumeral m = natNumeral n) : m = n := by
  rw [← digitsValue_natNumeral m, h, digitsValue_natNumeral]

/-- A numeral without its sign begins with a digit. -/
theorem natNumeral_ne_cons {c : Char} (hc : ¬c.isDigit) (n : Nat) (rest : Text) :
    natNumeral n ≠ c :: rest := by
  intro h
  exact hc (isDigit_of_mem_natNumeral (n := n) (h ▸ List.mem_cons_self))

theorem numeral_injective {m n : Int} (h : numeral m = numeral n) : m = n := by
  unfold numeral at h
  split at h
  · split at h
    · have := natNumeral_injective (List.cons.inj h).2
      omega
    · exact (natNumeral_ne_cons (by decide) _ _ h.symm).elim
  · split at h
    · exact (natNumeral_ne_cons (by decide) _ _ h).elim
    · have := natNumeral_injective h
      omega

theorem numeral_ne_word (n : Int) (f : Face) : numeral n ≠ f.word := by
  unfold numeral
  cases f with
  | minus =>
      split
      · intro h
        exact Nat.toDigits_ne_nil (List.cons.inj h).2
      · exact natNumeral_ne_cons (by decide) _ _
  | blank =>
      split
      · intro h
        cases h
      · exact natNumeral_ne_cons (by decide) _ _
  | plus =>
      split
      · intro h
        cases h
      · exact natNumeral_ne_cons (by decide) _ _

namespace Value

theorem word_injective {v w : Value} (h : v.word = w.word) : v = w := by
  cases v with
  | number m =>
      cases w with
      | number n => exact congrArg _ (numeral_injective h)
      | face g => exact (numeral_ne_word m g h).elim
  | face f =>
      cases w with
      | number n => exact (numeral_ne_word n f h.symm).elim
      | face g => cases f <;> cases g <;> simp_all [word, Face.word]

end Value

/-! ## Sizes -/

theorem sumOf_cons (n : Int) (rest : List Int) : sumOf (n :: rest) = n + sumOf rest := rfl

theorem sumOf_map_natCast (sizes : List Nat) :
    sumOf (sizes.map Int.ofNat) = Int.ofNat (sizes.foldr (· + ·) 0) := by
  induction sizes with
  | nil => rfl
  | cons n rest ih =>
      rw [List.map_cons, sumOf_cons, ih, List.foldr_cons]
      rfl

/-- Distinct values among which all of `values` are occur in it as often as it is long. -/
theorem sumOf_count {values groups : List Value} (hnodup : groups.Nodup)
    (hmem : ∀ v, v ∈ groups ↔ v ∈ values) :
    sumOf (groups.map fun v ↦ (values.count v : Int)) = values.length := by
  have hperm : groups.Perm values.dedup := by
    refine (List.perm_ext_iff_of_nodup hnodup (List.nodup_dedup values)).2 fun v ↦ ?_
    rw [hmem, List.mem_dedup]
  have hsizes : (groups.map fun v ↦ values.count v).sum = values.length := by
    rw [(hperm.map _).sum_eq, List.sum_map_count_dedup_eq_length]
  have hcast := sumOf_map_natCast (groups.map fun v ↦ values.count v)
  rw [List.map_map, ← List.sum_eq_foldr, hsizes] at hcast
  exact hcast

/-! ## The distinct values -/

theorem Face.score_injective {f g : Face} (h : f.score = g.score) : f = g := by
  cases f <;> cases g <;> simp_all [score]

namespace Rolls

variable {results : List Rolls}

theorem distinctValues_perm (results : List Rolls) :
    (distinctValues results).Perm (results.flatMap values).eraseDups :=
  List.mergeSort_perm _ _

theorem mem_distinctValues {v : Value} :
    v ∈ distinctValues results ↔ v ∈ results.flatMap values := by
  rw [(distinctValues_perm results).mem_iff, List.mem_eraseDups]

theorem nodup_distinctValues (results : List Rolls) : (distinctValues results).Nodup :=
  (distinctValues_perm results).nodup_iff.2 (nodup_eraseDups _)

theorem distinctValues_pairwise (results : List Rolls) :
    (distinctValues results).Pairwise fun v w ↦ v.score ≤ w.score :=
  pairwise_mergeSort_by Value.score _

theorem distinctValues_of_numeric (h : ∀ v ∈ results.flatMap values, v.kind = .numeric) :
    ∃ numbers : List Int, distinctValues results = numbers.map .number ∧
      numbers.Pairwise (· < ·) := by
  have hkind : ∀ v ∈ distinctValues results, v.kind = .numeric := fun v hv ↦
    h v (mem_distinctValues.1 hv)
  obtain ⟨numbers, heq⟩ := exists_eq_map_number hkind
  have hsorted := distinctValues_pairwise results
  have hnodup := nodup_distinctValues results
  rw [heq, List.pairwise_map] at hsorted
  rw [heq, List.nodup_iff_pairwise_ne, List.pairwise_map] at hnodup
  refine ⟨numbers, heq, (hsorted.and hnodup).imp ?_⟩
  rintro m n ⟨hle, hne⟩
  exact Int.lt_iff_le_and_ne.2 ⟨hle, fun h ↦ hne (congrArg _ h)⟩

theorem exists_eq_map_face {values : List Value} (h : ∀ v ∈ values, v.kind = .fudge) :
    ∃ faces : List Face, values = faces.map .face := by
  induction values with
  | nil => exact ⟨[], rfl⟩
  | cons v rest ih =>
      obtain ⟨faces, rfl⟩ := ih fun w hw ↦ h w (List.mem_cons_of_mem v hw)
      cases v with
      | number n => cases h _ List.mem_cons_self
      | face f => exact ⟨f :: faces, rfl⟩

theorem distinctValues_of_fudge (h : ∀ v ∈ results.flatMap values, v.kind = .fudge) :
    ∃ faces : List Face, distinctValues results = faces.map .face ∧
      faces.Pairwise fun f g ↦ f.score < g.score := by
  have hkind : ∀ v ∈ distinctValues results, v.kind = .fudge := fun v hv ↦
    h v (mem_distinctValues.1 hv)
  obtain ⟨faces, heq⟩ := exists_eq_map_face hkind
  have hsorted := distinctValues_pairwise results
  have hnodup := nodup_distinctValues results
  rw [heq, List.pairwise_map] at hsorted
  rw [heq, List.nodup_iff_pairwise_ne, List.pairwise_map] at hnodup
  refine ⟨faces, heq, (hsorted.and hnodup).imp ?_⟩
  rintro f g ⟨hle, hne⟩
  exact Int.lt_iff_le_and_ne.2 ⟨hle, fun h ↦ hne (congrArg _ (Face.score_injective h))⟩

/-! ## Results that are counts -/

/-- No two values share a label. -/
theorem eq_of_description_groupOf {values : List Value} {v w : Value}
    (h : (groupOf values v).description = (groupOf values w).description) : v = w :=
  Value.word_injective (List.append_cancel_left (List.append_cancel_right h))

theorem nodup_descriptions_groups {distinct : List Value} (h : distinct.Nodup)
    (values : List Value) : ((distinct.map (groupOf values)).map description).Nodup := by
  rw [List.map_map]
  exact h.map fun v w hlabel ↦ eq_of_description_groupOf hlabel

/-- Groups of distinct values hold the sizes, which add up to the number of values. -/
theorem sum_groups {distinct values : List Value} (hnodup : distinct.Nodup)
    (hmem : ∀ v, v ∈ distinct ↔ v ∈ values) :
    ∃ sizes : List Int, (distinct.map (groupOf values)).flatMap Rolls.values = sizes.map .number ∧
      sumOf sizes = values.length := by
  refine ⟨distinct.map fun v ↦ (values.count v : Int), ?_, sumOf_count hnodup hmem⟩
  rw [List.flatMap_map, List.map_map]
  exact List.flatMap_pure_eq_map _ _

/-- One group of each of the values, the numbers from the least one on, then the faces from minus to
plus. -/
inductive Tallies (values : List Value) (groups : List Rolls) : Prop where
  | intro (numbers : List Int) (faces : List Face)
      (hnumbers : ∀ n, n ∈ numbers ↔ Value.number n ∈ values)
      (hfaces : ∀ f, f ∈ faces ↔ Value.face f ∈ values)
      (hascending : numbers.Pairwise (· < ·))
      (hscores : faces.Pairwise fun f g ↦ f.score < g.score)
      (hgroups : groups =
        (numbers.map Value.number ++ faces.map Value.face).map (groupOf values))

theorem eq_counts_of_count {groups : List Rolls} (h : count results = .ok groups) :
    groups = (distinctValues results).map (groupOf (results.flatMap values)) := by
  obtain ⟨_, _, h⟩ := bind_eq_ok_iff.1 h
  cases h
  rfl

theorem count_nil : count [] = .ok [] := by
  simp only [count, counts, distinctValues, List.flatMap_nil, List.eraseDups_nil,
    List.mergeSort_nil]
  rfl

section Joined

variable {numeric fudge numericGroups fudgeGroups : List Rolls}

/-- The counts of numbers, and behind them those of faces, are the counts of all of them. -/
theorem tallies_append (hnumeric : ∀ v ∈ numeric.flatMap values, v.kind = .numeric)
    (hfudge : ∀ v ∈ fudge.flatMap values, v.kind = .fudge)
    (hn : count numeric = .ok numericGroups) (hf : count fudge = .ok fudgeGroups) :
    Tallies ((numeric ++ fudge).flatMap values) (numericGroups ++ fudgeGroups) := by
  obtain ⟨numbers, hnumbers, hascending⟩ := distinctValues_of_numeric hnumeric
  obtain ⟨faces, hfaces, hscores⟩ := distinctValues_of_fudge hfudge
  have hno_face (f : Face) : Value.face f ∉ numeric.flatMap values := fun h ↦ by
    cases hnumeric _ h
  have hno_number (n : Int) : Value.number n ∉ fudge.flatMap values := fun h ↦ by
    cases hfudge _ h
  rw [List.flatMap_append]
  refine .intro numbers faces (fun n ↦ ?_) (fun f ↦ ?_) hascending hscores ?_
  · rw [List.mem_append, or_iff_left (hno_number n), ← mem_distinctValues, hnumbers]
    simp
  · rw [List.mem_append, or_iff_right (hno_face f), ← mem_distinctValues, hfaces]
    simp
  · rw [eq_counts_of_count hn, eq_counts_of_count hf, hnumbers, hfaces, List.map_append]
    congr 1
    · refine List.map_congr_left fun v hv ↦ ?_
      obtain ⟨n, _, rfl⟩ := List.mem_map.1 hv
      rw [groupOf, groupOf, List.count_append, List.count_eq_zero_of_not_mem (hno_number n),
        Nat.add_zero]
    · refine List.map_congr_left fun v hv ↦ ?_
      obtain ⟨f, _, rfl⟩ := List.mem_map.1 hv
      rw [groupOf, groupOf, List.count_append, List.count_eq_zero_of_not_mem (hno_face f),
        Nat.zero_add]

end Joined

variable {values : List Value} {groups : List Rolls}

/-- The values behind the groups are distinct, and there is one group for each. -/
theorem Tallies.exists_groups (h : Tallies values groups) :
    ∃ distinct : List Value, distinct.Nodup ∧ (∀ v, v ∈ distinct ↔ v ∈ values) ∧
      groups = distinct.map (groupOf values) := by
  obtain ⟨numbers, faces, hnumbers, hfaces, hascending, hscores, hgroups⟩ := h
  refine ⟨_, List.nodup_append.2 ⟨?_, ?_, ?_⟩, fun v ↦ ?_, hgroups⟩
  · refine List.pairwise_map.2 (hascending.imp ?_)
    rintro m n hlt heq
    cases heq
    exact Int.lt_irrefl _ hlt
  · refine List.pairwise_map.2 (hscores.imp ?_)
    rintro f g hlt heq
    cases heq
    exact Int.lt_irrefl _ hlt
  · intro v hv w hw heq
    obtain ⟨n, _, rfl⟩ := List.mem_map.1 hv
    obtain ⟨f, _, rfl⟩ := List.mem_map.1 hw
    cases heq
  · cases v with
    | number n => simp [hnumbers]
    | face f => simp [hfaces]

theorem Tallies.nodup_descriptions (h : Tallies values groups) :
    (groups.map description).Nodup := by
  obtain ⟨distinct, hnodup, _, rfl⟩ := h.exists_groups
  exact nodup_descriptions_groups hnodup values

theorem Tallies.mem_iff (h : Tallies values groups) {r : Rolls} :
    r ∈ groups ↔ ∃ v ∈ values, r = groupOf values v := by
  obtain ⟨distinct, _, hmem, rfl⟩ := h.exists_groups
  simp only [List.mem_map, hmem, eq_comm]

theorem Tallies.sum_eq (h : Tallies values groups) :
    ∃ sizes : List Int, groups.flatMap Rolls.values = sizes.map .number ∧
      sumOf sizes = values.length := by
  obtain ⟨distinct, hnodup, hmem, rfl⟩ := h.exists_groups
  exact sum_groups hnodup hmem

/-- The groups account for the values: none is lost, and none is made up. -/
structure Accounts (values : List Value) (groups : List Rolls) : Prop where
  tallies : Tallies values groups
  mem_iff : ∀ r, r ∈ groups ↔ ∃ v ∈ values, r = groupOf values v
  nodup_descriptions : (groups.map description).Nodup
  sum_eq : ∃ sizes : List Int, groups.flatMap Rolls.values = sizes.map .number ∧
    sumOf sizes = values.length
  no_origin : ∀ r ∈ groups, r.origin = none

theorem Tallies.accounts (h : Tallies values groups) : Accounts values groups := by
  refine ⟨h, fun r ↦ h.mem_iff, h.nodup_descriptions, h.sum_eq, fun r hr ↦ ?_⟩
  obtain ⟨v, _, rfl⟩ := h.mem_iff.1 hr
  rfl

end Rolls
end TabletopDice
