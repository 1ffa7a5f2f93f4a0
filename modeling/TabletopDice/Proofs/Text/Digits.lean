import TabletopDice.Proofs.Text.Numeral

/-!
# Runs of ASCII digits

Zeros in front of a run of digits do not change its value, and equally many digits with the same
value are the same digits.  The last digit of a numeral is the remainder of the number by ten.
-/

namespace TabletopDice

variable {digits digits' : Text} {n : Nat}

theorem digitsValue_cons (c : Char) (digits : Text) :
    digitsValue (c :: digits) =
      (digitValue? c).getD 0 * 10 ^ digits.length + digitsValue digits := by
  induction digits using List.reverseRecOn with
  | nil => simp [digitsValue]
  | append_singleton digits d ih =>
      rw [← List.cons_append, digitsValue_append_singleton, digitsValue_append_singleton, ih,
        List.length_append, List.length_singleton, Nat.pow_succ, Nat.mul_add, Nat.add_assoc,
        Nat.mul_comm (10 ^ _) 10, Nat.mul_left_comm]

theorem digitsValue_replicate_zero_append (k : Nat) (digits : Text) :
    digitsValue (List.replicate k '0' ++ digits) = digitsValue digits := by
  induction k with
  | zero => rfl
  | succ k ih =>
      have hzero : digitValue? '0' = some 0 := rfl
      rw [List.replicate_succ, List.cons_append, digitsValue_cons, hzero, ih, Option.getD_some,
        Nat.zero_mul, Nat.zero_add]

/-! ## Values and lengths -/

theorem eq_of_digitValue?_eq {c d : Char} (hc : c.isDigit) (hd : d.isDigit)
    (h : (digitValue? c).getD 0 = (digitValue? d).getD 0) : c = d := by
  rw [digitValue?_of_ascii hc, digitValue?_of_ascii hd, Option.getD_some, Option.getD_some] at h
  simp only [Char.isDigit, Bool.and_eq_true, decide_eq_true_eq, UInt32.le_iff_toNat_le] at hc hd
  have hcode : c.toNat = d.toNat := by
    have hlow : 48 ≤ c.toNat := hc.1
    have hlow' : 48 ≤ d.toNat := hd.1
    omega
  exact Char.toNat_inj.1 hcode

/-- Equally many digits with the same value are the same digits. -/
theorem eq_of_digitsValue_eq (hdigits : ∀ c ∈ digits, c.isDigit)
    (hdigits' : ∀ c ∈ digits', c.isDigit) (hlength : digits.length = digits'.length)
    (h : digitsValue digits = digitsValue digits') : digits = digits' := by
  induction digits using List.reverseRecOn generalizing digits' with
  | nil => exact (List.length_eq_zero_iff.1 hlength.symm).symm
  | append_singleton digits c ih =>
      cases digits' using List.reverseRecOn with
      | nil => simp at hlength
      | append_singleton digits' d =>
          have hlt := digitValue?_getD_le c
          have hlt' := digitValue?_getD_le d
          rw [digitsValue_append_singleton, digitsValue_append_singleton] at h
          have hrest : digits = digits' := by
            refine ih (fun b hb ↦ hdigits b (List.mem_append_left _ hb))
              (fun b hb ↦ hdigits' b (List.mem_append_left _ hb)) ?_ (by omega)
            simpa using hlength
          have hlast : c = d := eq_of_digitValue?_eq (hdigits c (by simp)) (hdigits' d (by simp))
            (by omega)
          rw [hrest, hlast]

theorem natNumeral_ne_nil (n : Nat) : natNumeral n ≠ [] := Nat.toDigits_ne_nil

theorem length_natNumeral_pos (n : Nat) : 0 < (natNumeral n).length :=
  List.length_pos_iff.2 (natNumeral_ne_nil n)

theorem length_natNumeral_le_iff {k : Nat} (hpos : 0 < k) :
    (natNumeral n).length ≤ k ↔ n < 10 ^ k :=
  Nat.length_toDigits_le_iff (by decide) hpos

/-- The last digit of a numeral. -/
theorem exists_natNumeral_eq (n : Nat) :
    ∃ digits c, natNumeral n = digits ++ [c] ∧ (digitValue? c).getD 0 = n % 10 := by
  have heq := (List.dropLast_append_getLast (natNumeral_ne_nil n)).symm
  refine ⟨_, _, heq, ?_⟩
  have hvalue := digitsValue_natNumeral n
  rw [heq, digitsValue_append_singleton] at hvalue
  have hlt := digitValue?_getD_le ((natNumeral n).getLast (natNumeral_ne_nil n))
  omega

end TabletopDice
