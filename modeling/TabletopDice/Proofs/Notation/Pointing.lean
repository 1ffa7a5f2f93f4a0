import TabletopDice.Proofs.Notation.Rejection

/-!
# Where the faults of a text lie

A fault lies where its position says: what is left of the text there begins with the fragment.  The
one exception is a text that asks for no dice.  It is blamed as a whole and from its first
character, but the fragment leaves out the blanks at its ends.
-/

namespace TabletopDice

variable {text piece : Text} {p : Char → Bool}

theorem Stops.of_prefix (h : Stops p text) (hpiece : piece <+: text) : Stops p piece := by
  obtain ⟨rest, rfl⟩ := hpiece
  cases piece with
  | nil => exact stops_nil
  | cons c others => exact stops_cons.2 (stops_cons.1 h)

/-! ## Texts without the blanks at their ends -/

theorem stripped_prefix_dropWhile (text : Text) : stripped text <+: text.dropWhile isBlank := by
  have h := List.dropWhile_suffix isBlank (l := (text.dropWhile isBlank).reverse)
  rw [← List.reverse_prefix, List.reverse_reverse] at h
  exact h

theorem stops_stripped (text : Text) : Stops isBlank (stripped text) :=
  stops_dropWhile.of_prefix (stripped_prefix_dropWhile text)

theorem stripped_prefix_of_stops (h : Stops isBlank text) : stripped text <+: text := by
  have hprefix := stripped_prefix_dropWhile text
  rwa [dropWhile_of_stops h] at hprefix

/-- A text begins with its stripped form unless it begins with a blank before something else. -/
theorem stripped_prefix_iff : stripped text <+: text ↔ stripped text = [] ∨ Stops isBlank text := by
  constructor
  · intro h
    refine or_iff_not_imp_left.2 fun hne c hc ↦ ?_
    obtain ⟨d, rest, hcons⟩ := List.exists_cons_of_ne_nil hne
    have hstops := stops_stripped text
    rw [hcons] at h hstops
    obtain ⟨after, rfl⟩ := h
    cases hc
    exact stops_cons.1 hstops
  · rintro (hnil | hstops)
    · rw [hnil]
      exact List.nil_prefix
    · exact stripped_prefix_of_stops hstops

namespace Notation

/-! ## Faults -/

/-- The position lies in the text, and what is left of the text there begins with the fragment. -/
def Fault.LiesIn (fault : Fault) (text : Text) : Prop :=
  ∃ position : Nat, fault.position = some (position : Int) ∧ position ≤ text.length ∧
    (text.drop position).take fault.fragment.length = fault.fragment

/-- The fault of a text that asks for no dice. -/
def Fault.ofNoDice (text : Text) : Fault := ⟨.noDice, stripped text, some 0⟩

variable {limits : Limits} {t : Token} {fault : Fault}

theorem Token.LiesIn.blamed (h : t.LiesIn text) (cause : Cause) :
    Fault.LiesIn ⟨cause, t.text, some t.position⟩ text := by
  refine ⟨t.position, rfl, h.position_le, ?_⟩
  obtain ⟨before, after, rfl, hposition⟩ := h
  rw [hposition, List.append_assoc, List.drop_left, List.take_left]

theorem liesIn_ofNoDice_iff :
    (Fault.ofNoDice text).LiesIn text ↔ stripped text = [] ∨ Stops isBlank text := by
  rw [← stripped_prefix_iff, List.prefix_iff_eq_take, eq_comm]
  constructor
  · rintro ⟨position, hposition, _, h⟩
    obtain rfl : position = 0 := Int.ofNat.inj (Option.some.inj hposition).symm
    exact h
  · exact fun h ↦ ⟨0, rfl, Nat.zero_le _, h⟩

/-- The fault of a text that is rejected has a position in the text, and the fragment stands there,
unless the text asks for no dice and begins with a blank. -/
theorem fault_liesIn_iff (h : readPlan limits text = .error (.unreadable fault)) :
    (∃ position : Nat, fault.position = some (position : Int) ∧ position ≤ text.length) ∧
      (fault.LiesIn text ↔
        ¬(fault = .ofNoDice text ∧ stripped text ≠ [] ∧ ¬Stops isBlank text)) := by
  have hwhole : fault = .ofNoDice text →
      (fault.LiesIn text ↔ stripped text = [] ∨ Stops isBlank text) := by
    rintro rfl
    exact liesIn_ofNoDice_iff
  cases rejects_of_readPlan h with
  | fault ht cause =>
      have hlies := (liesIn_of_mem_tokens ht).blamed cause
      refine ⟨hlies.imp fun position hposition ↦ ⟨hposition.1, hposition.2.1⟩, ?_⟩
      refine iff_of_true hlies fun ⟨heq, hne, hblank⟩ ↦ ?_
      exact ((hwhole heq).1 hlies).elim hne hblank
  | noDice =>
      refine ⟨⟨0, rfl, Nat.zero_le _⟩, (hwhole rfl).trans ?_⟩
      rw [Fault.ofNoDice]
      tauto

/-- The count is found seven characters behind the start of the group. -/
theorem fault_liesIn_of_group_count :
    readPlan {} "D6 (AB 2D6 count)".toList =
        .error (.unreadable ⟨.countInGroup, "count".toList, some 11⟩) ∧
      Fault.LiesIn ⟨.countInGroup, "count".toList, some 11⟩ "D6 (AB 2D6 count)".toList := by
  have hread : readPlan {} "D6 (AB 2D6 count)".toList =
      .error (.unreadable ⟨.countInGroup, "count".toList, some 11⟩) := by
    decide +kernel
  refine ⟨hread, (fault_liesIn_iff hread).2.2 ?_⟩
  rintro ⟨heq, _⟩
  cases heq

/-- An action behind a blank is looked for at the blank. -/
theorem fault_beside_fragment_of_blank :
    ∃ fault, readPlan {} " sum".toList = .error (.unreadable fault) ∧
      ¬fault.LiesIn " sum".toList := by
  refine ⟨⟨.noDice, "sum".toList, some 0⟩, by decide +kernel, ?_⟩
  rintro ⟨position, hposition, _, h⟩
  obtain rfl : position = 0 := Int.ofNat.inj (Option.some.inj hposition).symm
  revert h
  decide

end Notation
end TabletopDice
