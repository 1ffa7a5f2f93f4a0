import Mathlib.Data.Set.Function
import TabletopDice.Proofs.Rolling.Application
import TabletopDice.Proofs.Rolling.Shown
import TabletopDice.Proofs.Text.Digits
import TabletopDice.Session.Basic

/-!
# Digits read backwards

A number that fits into the width is read backwards as one that fits again, and reading that
backwards restores it.  A number that does not fit is read backwards without any padding: the zeros
at its end go to the front and are lost, and without such zeros it is restored as well.
-/

namespace TabletopDice

variable {width n k : Nat}

/-- The padded digits of `n`, read backwards. -/
def mirror (width n : Nat) : Nat := digitsValue (paddedDigits width n).reverse

/-! ## Padded digits -/

theorem length_paddedDigits (width n : Nat) :
    (paddedDigits width n).length = max width (natNumeral n).length := by
  rw [paddedDigits, List.length_append, List.length_replicate]
  omega

theorem isDigit_of_mem_paddedDigits {c : Char} (h : c ∈ paddedDigits width n) : c.isDigit := by
  rcases List.mem_append.1 h with h | h
  · rw [List.eq_of_mem_replicate h]
    rfl
  · exact isDigit_of_mem_natNumeral h

theorem digitsValue_paddedDigits (width n : Nat) : digitsValue (paddedDigits width n) = n := by
  rw [paddedDigits, digitsValue_replicate_zero_append, digitsValue_natNumeral]

theorem length_paddedDigits_le (hwidth : width ≤ k) (hpos : 0 < k) (h : n < 10 ^ k) :
    (paddedDigits width n).length ≤ k := by
  rw [length_paddedDigits]
  exact max_le hwidth ((length_natNumeral_le_iff hpos).2 h)

/-! ## The mirror image -/

theorem mirror_lt (hwidth : width ≤ k) (hpos : 0 < k) (h : n < 10 ^ k) :
    mirror width n < 10 ^ k := by
  have hlt := digitsValue_lt (paddedDigits width n).reverse
  rw [List.length_reverse] at hlt
  have hle := length_paddedDigits_le hwidth hpos h
  exact hlt.trans_le (Nat.pow_le_pow_right (by decide) hle)

/-- If no digit is lost, the digits of the image are those of the number backwards. -/
theorem mirror_mirror_of_length_eq
    (h : (paddedDigits width (mirror width n)).length = (paddedDigits width n).length) :
    mirror width (mirror width n) = n := by
  have hdigits : paddedDigits width (mirror width n) = (paddedDigits width n).reverse := by
    refine eq_of_digitsValue_eq (fun _ ↦ isDigit_of_mem_paddedDigits) (fun c hc ↦ ?_) ?_ ?_
    · exact isDigit_of_mem_paddedDigits (List.mem_reverse.1 hc)
    · rw [h, List.length_reverse]
    · rw [digitsValue_paddedDigits, mirror]
  rw [mirror, hdigits, List.reverse_reverse, digitsValue_paddedDigits]

theorem mirror_mirror_of_lt (hpos : 0 < width) (h : n < 10 ^ width) :
    mirror width (mirror width n) = n := by
  have hwidth {m : Nat} (hm : m < 10 ^ width) : (paddedDigits width m).length = width := by
    refine le_antisymm (length_paddedDigits_le le_rfl hpos hm) ?_
    rw [length_paddedDigits]
    exact le_max_left _ _
  apply mirror_mirror_of_length_eq
  rw [hwidth h, hwidth (mirror_lt le_rfl hpos h)]

/-- A number that does not fit is not padded, and its image begins with its last digit. -/
theorem exists_mirror_eq (hpos : 0 < width) (h : 10 ^ width ≤ n) :
    ∃ digits : Text, width ≤ digits.length ∧ (natNumeral n).length = digits.length + 1 ∧
      mirror width n = n % 10 * 10 ^ digits.length + digitsValue digits := by
  obtain ⟨digits, c, heq, hc⟩ := exists_natNumeral_eq n
  have hlength : (natNumeral n).length = digits.length + 1 := by rw [heq, List.length_append]; rfl
  have hwidth : width < (natNumeral n).length := by
    refine Nat.lt_of_not_le fun hle ↦ h.not_gt ?_
    exact (length_natNumeral_le_iff hpos).1 hle
  have hpadded : paddedDigits width n = digits ++ [c] := by
    rw [paddedDigits, Nat.sub_eq_zero_of_le hwidth.le, List.replicate_zero, List.nil_append, heq]
  refine ⟨digits.reverse, ?_, ?_, ?_⟩
  · rw [List.length_reverse]
    omega
  · rw [List.length_reverse, hlength]
  · rw [mirror, hpadded, List.reverse_append, List.reverse_singleton, List.singleton_append,
      digitsValue_cons, hc]

theorem mirror_mirror_of_mod_ne_zero (hpos : 0 < width) (h : 10 ^ width ≤ n)
    (hlast : n % 10 ≠ 0) : mirror width (mirror width n) = n := by
  obtain ⟨digits, hwidth, hlength, hmirror⟩ := exists_mirror_eq hpos h
  have hlow : 10 ^ digits.length ≤ mirror width n := by
    rw [hmirror]
    exact (Nat.le_mul_of_pos_left _ (Nat.pos_of_ne_zero hlast)).trans (Nat.le_add_right _ _)
  have hhigh : mirror width n < 10 ^ (digits.length + 1) := by
    refine mirror_lt (hwidth.trans (Nat.le_succ _)) (Nat.succ_pos _) ?_
    exact (length_natNumeral_le_iff (Nat.succ_pos _)).1 hlength.le
  have hsame : (natNumeral (mirror width n)).length = digits.length + 1 := by
    refine le_antisymm ((length_natNumeral_le_iff (Nat.succ_pos _)).2 hhigh) ?_
    refine Nat.lt_of_not_le fun hle ↦ hlow.not_gt ?_
    exact (length_natNumeral_le_iff (hpos.trans_le hwidth)).1 hle
  apply mirror_mirror_of_length_eq
  rw [length_paddedDigits, length_paddedDigits, hsame, hlength]

/-- The image has lost the last digit, and so has the image of the image. -/
theorem mirror_mirror_lt (hpos : 0 < width) (h : 10 ^ width ≤ n) (hlast : n % 10 = 0) :
    mirror width (mirror width n) < n := by
  obtain ⟨digits, hwidth, hlength, hmirror⟩ := exists_mirror_eq hpos h
  rw [hlast, Nat.zero_mul, Nat.zero_add] at hmirror
  have hlt : mirror width n < 10 ^ digits.length := hmirror ▸ digitsValue_lt digits
  have hrest : 0 < digits.length := hpos.trans_le hwidth
  refine (mirror_lt hwidth hrest hlt).trans_le (Nat.le_of_not_lt fun hn ↦ ?_)
  have hle := (length_natNumeral_le_iff hrest).2 hn
  omega

theorem mirror_mirror_eq_iff (hpos : 0 < width) :
    mirror width (mirror width n) = n ↔ n < 10 ^ width ∨ n % 10 ≠ 0 := by
  rcases Nat.lt_or_ge n (10 ^ width) with hlt | hle
  · exact iff_of_true (mirror_mirror_of_lt hpos hlt) (.inl hlt)
  · by_cases hlast : n % 10 = 0
    · exact iff_of_false (mirror_mirror_lt hpos hle hlast).ne (by omega)
    · exact iff_of_true (mirror_mirror_of_mod_ne_zero hpos hle hlast) (.inr hlast)

theorem mirror_zero (width : Nat) : mirror width 0 = 0 := by
  have hnumeral : natNumeral 0 = ['0'] := rfl
  have hzeros := digitsValue_replicate_zero_append (width - 1 + 1) []
  rw [List.append_nil, List.replicate_succ] at hzeros
  rw [mirror, paddedDigits, hnumeral, List.reverse_append, List.reverse_replicate]
  exact hzeros

/-! ## Signs -/

variable {i greatest : Int} {values : List Int}

theorem natAbs_flipDigits (width : Nat) (i : Int) :
    (flipDigits width i).natAbs = mirror width i.natAbs := by
  unfold flipDigits
  split
  · exact (Int.natAbs_neg _).trans (Int.natAbs_natCast _)
  · exact Int.natAbs_natCast _

theorem flipDigits_natCast (width n : Nat) : flipDigits width n = mirror width n := by
  rw [flipDigits, if_neg (by omega), Int.natAbs_natCast, mirror]

theorem flipDigits_neg (width : Nat) (i : Int) : flipDigits width (-i) = -flipDigits width i := by
  have hneg (n : Nat) : flipDigits width (-n) = -mirror width n := by
    cases n with
    | zero =>
        change flipDigits width (0 : Nat) = _
        rw [flipDigits_natCast, mirror_zero]
        rfl
    | succ n => rw [flipDigits, if_pos (by omega), Int.natAbs_neg, Int.natAbs_natCast, mirror]
  obtain ⟨n, rfl | rfl⟩ := i.eq_nat_or_neg
  · rw [hneg, flipDigits_natCast]
  · rw [hneg, Int.neg_neg, Int.neg_neg, flipDigits_natCast]

theorem natAbs_flipDigits_lt (hpos : 0 < width) (h : i.natAbs < 10 ^ width) :
    (flipDigits width i).natAbs < 10 ^ width := by
  rw [natAbs_flipDigits]
  exact mirror_lt le_rfl hpos h

theorem flipDigits_flipDigits_eq_iff (hpos : 0 < width) :
    flipDigits width (flipDigits width i) = i ↔ i.natAbs < 10 ^ width ∨ i.natAbs % 10 ≠ 0 := by
  obtain ⟨n, rfl | rfl⟩ := i.eq_nat_or_neg
  · rw [flipDigits_natCast, flipDigits_natCast, Int.natCast_inj, Int.natAbs_natCast]
    exact mirror_mirror_eq_iff hpos
  · rw [flipDigits_neg, flipDigits_neg, Int.neg_inj, flipDigits_natCast, flipDigits_natCast,
      Int.natCast_inj, Int.natAbs_neg, Int.natAbs_natCast]
    exact mirror_mirror_eq_iff hpos

theorem bijOn_flipDigits (hpos : 0 < width) :
    Set.BijOn (flipDigits width) {i | i.natAbs < 10 ^ width} {i | i.natAbs < 10 ^ width} := by
  have hrestores : Set.LeftInvOn (flipDigits width) (flipDigits width)
      {i | i.natAbs < 10 ^ width} :=
    fun _ hi ↦ (flipDigits_flipDigits_eq_iff hpos).2 (.inl hi)
  have hmaps : Set.MapsTo (flipDigits width) {i | i.natAbs < 10 ^ width}
      {i | i.natAbs < 10 ^ width} :=
    fun _ hi ↦ natAbs_flipDigits_lt hpos hi
  exact Set.InvOn.bijOn ⟨hrestores, hrestores⟩ hmaps hmaps

/-! ## Lists of values -/

theorem digitWidth_pos (greatest : Int) : 0 < digitWidth greatest :=
  length_natNumeral_pos greatest.natAbs

theorem natAbs_lt_of_le (h : i.natAbs ≤ greatest.natAbs) :
    i.natAbs < 10 ^ digitWidth greatest :=
  h.trans_lt ((length_natNumeral_le_iff (digitWidth_pos greatest)).1 le_rfl)

/-- No digits come up that were not there before. -/
theorem writable_flipDigits (hgreatest : Writable greatest) (h : Writable i) :
    Writable (flipDigits (digitWidth greatest) i) := by
  have hpos : 0 < digitLimit := by decide
  rw [Writable, natAbs_flipDigits]
  exact (length_natNumeral_le_iff hpos).2
    (mirror_lt hgreatest hpos ((length_natNumeral_le_iff hpos).1 h))

theorem writable_map_flipDigits (h : ∀ i ∈ greatest :: values, Writable i) :
    ∀ i ∈ greatest :: values.map (flipDigits (digitWidth greatest)), Writable i := by
  obtain ⟨hgreatest, hvalues⟩ := List.forall_mem_cons.1 h
  refine List.forall_mem_cons.2 ⟨hgreatest, fun i hi ↦ ?_⟩
  obtain ⟨j, hj, rfl⟩ := List.mem_map.1 hi
  exact writable_flipDigits hgreatest (hvalues j hj)

theorem map_flipDigits_twice_eq_iff (hpos : 0 < width) :
    (values.map (flipDigits width)).map (flipDigits width) = values ↔
      ∀ i ∈ values, i.natAbs < 10 ^ width ∨ i.natAbs % 10 ≠ 0 := by
  calc (values.map (flipDigits width)).map (flipDigits width) = values
      ↔ values.map (flipDigits width ∘ flipDigits width) = values.map id := by
        rw [List.map_map, List.map_id]
    _ ↔ ∀ i ∈ values, flipDigits width (flipDigits width i) = i := List.map_inj_left
    _ ↔ ∀ i ∈ values, i.natAbs < 10 ^ width ∨ i.natAbs % 10 ≠ 0 :=
        forall₂_congr fun i _ ↦ flipDigits_flipDigits_eq_iff hpos

theorem flipAll_eq_ok (h : ∀ i ∈ greatest :: values, Writable i) :
    flipAll greatest values = .ok (values.map (flipDigits (digitWidth greatest))) := by
  rw [flipAll, checkWritable, if_pos h]
  rfl

/-! ## Rolls -/

namespace Action

variable {r : Rolls} {q : Request}

theorem exists_apply_flip_eq (hq : r.origin = some q) (hmax : q.dice.maximum = .ok greatest)
    (hkind : r.kind = .numeric) (hvalues : r.values = values.map .number)
    (h : ∀ i ∈ greatest :: values, Writable i) :
    ∃ t, flip.apply r = pure t ∧ t.origin = r.origin ∧ t.kind = r.kind ∧
      t.values = (values.map (flipDigits (digitWidth greatest))).map .number := by
  rw [apply_of_kind_eq (show flip.kind = r.kind from hkind.symm), transform,
    flipped_eq hq hmax hvalues, flipAll_eq_ok h]
  exact ⟨_, rfl, rfl, rfl, rfl⟩

/-- Numbers that fit are flipped and flipped back. -/
theorem applyAll_flip_flip (hq : r.origin = some q) (hmax : q.dice.maximum = .ok greatest)
    (hkind : r.kind = .numeric) (hvalues : r.values = values.map .number)
    (hgreatest : Writable greatest) (hle : ∀ i ∈ values, i.natAbs ≤ greatest.natAbs) :
    ∃ t, applyAll [flip, flip] r = pure t ∧ t.values = r.values := by
  have hwritable : ∀ i ∈ greatest :: values, Writable i :=
    List.forall_mem_cons.2 ⟨hgreatest, fun i hi ↦ hgreatest.of_le (hle i hi)⟩
  obtain ⟨s, hs, hsorigin, hskind, hsvalues⟩ :=
    exists_apply_flip_eq hq hmax hkind hvalues hwritable
  obtain ⟨t, ht, _, _, htvalues⟩ := exists_apply_flip_eq (hsorigin.trans hq) hmax
    (hskind.trans hkind) hsvalues (writable_map_flipDigits hwritable)
  refine ⟨t, ?_, ?_⟩
  · rw [applyAll, List.foldlM_cons, hs, pure_bind, List.foldlM_cons, ht, pure_bind]
    rfl
  · have hrestored := (map_flipDigits_twice_eq_iff (digitWidth_pos greatest)).2 fun i hi ↦
      .inl (natAbs_lt_of_le (hle i hi))
    rw [htvalues, hrestored, hvalues]

end Action

/-! ## Fresh rolls -/

theorem Dice.exists_map_sideOf_eq (sides : Nat) (hsides : 0 < sides) (draws : Draws) :
    ∃ values : List Int, draws.map (sideOf sides) = values.map .number ∧
      ∀ i ∈ values, 1 ≤ i ∧ i ≤ sides := by
  refine ⟨draws.map fun d ↦ 1 + d % sides, by rw [List.map_map]; rfl, fun i hi ↦ ?_⟩
  obtain ⟨d, _, rfl⟩ := List.mem_map.1 hi
  have hlow := Int.emod_nonneg d (Int.natCast_ne_zero.2 hsides.ne')
  have hhigh := Int.emod_lt_of_pos d (Int.natCast_pos.2 hsides)
  omega

theorem Request.exists_of_roll_numbered {q : Request} {sides : Nat} {hsides : 0 < sides}
    (hq : q.dice = .numbered sides hsides) {draws left : Draws} {r : Rolls}
    (hrun : q.roll.run draws = .ok r left) :
    r.origin = some q ∧ r.kind = .numeric ∧ Writable sides ∧
      ∃ values : List Int, r.values = values.map .number ∧ ∀ i ∈ values, 1 ≤ i ∧ i ≤ sides := by
  obtain ⟨rolled, mid, hrolled, hrun⟩ := Rolling.run_bind_eq_ok_iff.1 hrun
  obtain ⟨u, _, hcheck, hrun⟩ := Rolling.run_bind_eq_ok_iff.1 hrun
  obtain ⟨rfl, rfl⟩ := Rolling.run_pure_eq_ok_iff.1 hrun
  have hshows : q.dice.shows? = some (Dice.sideOf sides) := by rw [hq, Dice.shows?]
  obtain ⟨used, _, rfl, _⟩ := Dice.run_roll_eq_ok_of_shows hshows hrolled
  refine ⟨rfl, ?_, ?_, Dice.exists_map_sideOf_eq sides hsides used⟩
  · change q.dice.kind = .numeric
    rw [hq, Dice.kind]
  · have hnumbers := writable_of_checkWritable (Rolling.run_ofExcept_eq_ok_iff.1 hcheck).1
    refine hnumbers sides (List.mem_cons_of_mem _ ?_)
    rw [hq, Dice.numbers]
    exact List.mem_singleton_self _

/-- Flipping and flipping back restores exactly the values that fit into the width or do not end in
zero.  So it permutes the numbers that fit, and a numbered dice rolls only such ones. -/
theorem flip_restores_iff (greatest : Int) :
    (∀ values : List Int, (∀ i ∈ greatest :: values, Writable i) →
      ∃ flipped twice, flipAll greatest values = .ok flipped ∧
        flipAll greatest flipped = .ok twice ∧
        (twice = values ↔
          ∀ i ∈ values, i.natAbs < 10 ^ digitWidth greatest ∨ i.natAbs % 10 ≠ 0) ∧
        flipAll greatest (values.map (-·)) = .ok (flipped.map (-·)) ∧
        flipped = values.map (flipDigits (digitWidth greatest))) ∧
    (∀ i, flipDigits (digitWidth greatest) (flipDigits (digitWidth greatest) i) = i ↔
      i.natAbs < 10 ^ digitWidth greatest ∨ i.natAbs % 10 ≠ 0) ∧
    (∀ i, flipDigits (digitWidth greatest) (-i) = -flipDigits (digitWidth greatest) i) ∧
    Set.BijOn (flipDigits (digitWidth greatest)) {i | i.natAbs < 10 ^ digitWidth greatest}
      {i | i.natAbs < 10 ^ digitWidth greatest} ∧
    ∀ (q : Request) (sides : Nat) (hsides : 0 < sides) (draws left : Draws) (r : Rolls),
      q.dice = .numbered sides hsides → q.roll.run draws = .ok r left →
        ∃ t, Action.applyAll [.flip, .flip] r = pure t ∧ t.values = r.values := by
  have hpos := digitWidth_pos greatest
  refine ⟨fun values hwritable ↦ ?_, fun i ↦ flipDigits_flipDigits_eq_iff hpos,
    flipDigits_neg _, bijOn_flipDigits hpos, fun q sides hsides draws left r hq hrun ↦ ?_⟩
  · have hnegated : ∀ i ∈ greatest :: values.map (-·), Writable i := by
      obtain ⟨hgreatest, hvalues⟩ := List.forall_mem_cons.1 hwritable
      refine List.forall_mem_cons.2 ⟨hgreatest, fun i hi ↦ ?_⟩
      obtain ⟨j, hj, rfl⟩ := List.mem_map.1 hi
      rw [Writable, Int.natAbs_neg]
      exact hvalues j hj
    refine ⟨_, _, flipAll_eq_ok hwritable, flipAll_eq_ok (writable_map_flipDigits hwritable),
      map_flipDigits_twice_eq_iff hpos, ?_, rfl⟩
    rw [flipAll_eq_ok hnegated, List.map_map, List.map_map]
    congr 2
    exact funext (flipDigits_neg _)
  · obtain ⟨horigin, hkind, hsides, values, hvalues, hrange⟩ :=
      Request.exists_of_roll_numbered hq hrun
    refine Action.applyAll_flip_flip horigin (by rw [hq, Dice.maximum]) hkind hvalues hsides
      fun i hi ↦ ?_
    have := hrange i hi
    omega

/-- On a hundred-sided dice a thousand loses its zeros, but its successor is restored. -/
theorem flip_restores_hundred :
    (∃ flipped, flipAll 100 [1, -15, 1001] = .ok flipped ∧
      flipAll 100 flipped = .ok [1, -15, 1001]) ∧
    (∃ flipped twice, flipAll 100 [1000] = .ok flipped ∧ flipAll 100 flipped = .ok twice ∧
      twice ≠ [1000]) ∧
    ∃ (q : Request) (r t : Rolls), q.roll.run [0, 41, 99] = .ok r [] ∧
      Action.applyAll [.flip, .flip] r = pure t ∧
        t.values = [.number 1, .number 42, .number 100] := by
  obtain ⟨hvalues, _, _, _, hrolls⟩ := flip_restores_iff 100
  refine ⟨?_, ?_, ?_⟩
  · obtain ⟨flipped, twice, hflipped, htwice, hiff, _⟩ := hvalues [1, -15, 1001] (by decide +kernel)
    obtain rfl := hiff.2 (by decide +kernel)
    exact ⟨flipped, hflipped, htwice⟩
  · obtain ⟨flipped, twice, hflipped, htwice, hiff, _⟩ := hvalues [1000] (by decide +kernel)
    exact ⟨flipped, twice, hflipped, htwice, fun h ↦ absurd (hiff.1 h) (by decide +kernel)⟩
  · have hrun : (Request.roll ⟨3, .numbered 100 (by decide), none, [], by decide, by simp⟩).run
        [0, 41, 99] = .ok _ [] := rfl
    obtain ⟨t, ht, hrestored⟩ := hrolls _ 100 (by decide) _ _ _ rfl hrun
    exact ⟨_, _, t, hrun, ht, hrestored⟩

end TabletopDice
