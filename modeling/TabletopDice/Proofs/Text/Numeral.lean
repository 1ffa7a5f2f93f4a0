import Mathlib.Algebra.Group.Nat.Defs
import Mathlib.Data.List.Basic
import Mathlib.Data.List.Induction
import TabletopDice.Failure
import TabletopDice.Proofs.Text.Span

/-!
# Numbers in a text

A number is a run of digits.  It can be read if it has at most `digitLimit` of them, and the
numeral of a number that was read can be read again.
-/

namespace TabletopDice

/-- The digits stand for the number. -/
def IsNumber (digits : Text) (n : Nat) : Prop := isDigitRun digits ∧ digitsValue digits = n

/-- The digits stand for the number, and there are not too many of them to be read. -/
def Readable (digits : Text) (n : Nat) : Prop := IsNumber digits n ∧ digits.length ≤ digitLimit

/-! ## Digits -/

theorem isDigit_iff {c : Char} :
    isDigit c ↔ ∃ z ∈ digitZeros, z ≤ c.toNat ∧ c.toNat ≤ z + 9 := by
  simp [isDigit, digitValue?]

theorem digitValue?_of_ascii {c : Char} (h : c.isDigit) : digitValue? c = some (c.toNat - 48) := by
  have hrange : 48 ≤ c.toNat ∧ c.toNat ≤ 57 := by
    simpa [Char.isDigit, UInt32.le_iff_toNat_le] using h
  simp [digitValue?, digitZeros, hrange]

theorem isDigit_of_ascii {c : Char} (h : c.isDigit) : isDigit c := by
  rw [isDigit, digitValue?_of_ascii h]
  rfl

theorem not_isBlank_of_isDigit {c : Char} (h : isDigit c) : ¬isBlank c := by
  have hapart : ∀ z ∈ digitZeros, ∀ r ∈ blankRanges, z + 9 < r.1 ∨ r.2 < z := by decide
  obtain ⟨z, hz, hlow, hhigh⟩ := isDigit_iff.1 h
  intro hblank
  obtain ⟨r, hr, hin⟩ := List.any_eq_true.1 hblank
  have := hapart z hz r hr
  simp only [Bool.and_eq_true, decide_eq_true_eq] at hin
  omega

theorem digitValue?_getD_le (c : Char) : (digitValue? c).getD 0 ≤ 9 := by
  cases hfind : digitZeros.find? fun z ↦ z ≤ c.toNat && c.toNat ≤ z + 9 with
  | none => simp [digitValue?, hfind]
  | some z =>
      have hin := List.find?_some hfind
      simp only [Bool.and_eq_true, decide_eq_true_eq] at hin
      simp only [digitValue?, hfind, Option.map_some, Option.getD_some]
      omega

theorem isDigitRun_iff {digits : Text} :
    isDigitRun digits ↔ digits ≠ [] ∧ ∀ c ∈ digits, isDigit c := by
  simp [isDigitRun]

/-! ## The value of a run of digits -/

theorem digitsValue_append_singleton (digits : Text) (c : Char) :
    digitsValue (digits ++ [c]) = 10 * digitsValue digits + (digitValue? c).getD 0 := by
  simp [digitsValue]

theorem digitsValue_lt (digits : Text) : digitsValue digits < 10 ^ digits.length := by
  induction digits using List.reverseRecOn with
  | nil => simp [digitsValue]
  | append_singleton digits c ih =>
      have hdigit := digitValue?_getD_le c
      rw [digitsValue_append_singleton, List.length_append, List.length_singleton, Nat.pow_succ]
      omega

theorem isDigit_of_mem_natNumeral {n : Nat} {c : Char} (h : c ∈ natNumeral n) : c.isDigit :=
  Nat.isDigit_of_mem_toDigits (by decide) (by decide) h

theorem isDigitRun_natNumeral (n : Nat) : isDigitRun (natNumeral n) := by
  refine isDigitRun_iff.2 ⟨Nat.toDigits_ne_nil, fun c hc ↦ ?_⟩
  exact isDigit_of_ascii (isDigit_of_mem_natNumeral hc)

theorem digitsValue_of_ascii {digits : Text} (h : ∀ c ∈ digits, c.isDigit) :
    digitsValue digits = Nat.ofDigitChars 10 digits 0 := by
  rw [digitsValue, Nat.ofDigitChars_eq_foldl]
  apply List.foldl_ext _ _ 0
  intro n c hc
  rw [digitValue?_of_ascii (h c hc)]
  rfl

theorem digitsValue_natNumeral (n : Nat) : digitsValue (natNumeral n) = n := by
  rw [digitsValue_of_ascii fun _ ↦ isDigit_of_mem_natNumeral, natNumeral,
    Nat.ofDigitChars_ten_toDigits]

/-! ## Reading and writing -/

variable {digits : Text} {n : Nat}

theorem readDigits_eq_ok_iff :
    readDigits digits = .ok n ↔ digits.length ≤ digitLimit ∧ digitsValue digits = n := by
  unfold readDigits
  split
  · next h => simp [h]
  · next h => simp [h]

theorem readable_iff : Readable digits n ↔ isDigitRun digits ∧ readDigits digits = .ok n := by
  rw [Readable, IsNumber, readDigits_eq_ok_iff, and_assoc, and_comm (a := digitsValue digits = n)]

theorem numeral_natCast (n : Nat) : numeral n = natNumeral n := by
  rw [numeral, if_neg (by omega), Int.natAbs_natCast]

theorem Readable.writable (h : Readable digits n) : Writable n := by
  obtain ⟨⟨hrun, rfl⟩, hlength⟩ := h
  have hpos : 0 < digits.length := List.length_pos_iff.2 (isDigitRun_iff.1 hrun).1
  have hle := (Nat.length_toDigits_le_iff (by decide) hpos).2 (digitsValue_lt digits)
  exact hle.trans hlength

theorem Writable.of_le {m n : Int} (h : Writable n) (hle : m.natAbs ≤ n.natAbs) : Writable m :=
  writable_iff_natAbs_lt.2 (hle.trans_lt (writable_iff_natAbs_lt.1 h))

/-- The least number with too many digits. -/
theorem not_writable_pow : ¬Writable (Nat.pow 10 digitLimit : Nat) := by
  rw [writable_iff_natAbs_lt, Int.natAbs_natCast]
  exact Nat.lt_irrefl _

theorem readable_natNumeral_iff : Readable (natNumeral n) n ↔ Writable n := by
  have hnumber : IsNumber (natNumeral n) n := ⟨isDigitRun_natNumeral n, digitsValue_natNumeral n⟩
  rw [Readable, Writable, Int.natAbs_natCast]
  exact and_iff_right hnumber

end TabletopDice
