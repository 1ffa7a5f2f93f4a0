import TabletopDice.Proofs.Notation.RoundTrip

/-!
# Texts that fit on a line

Whatever is written for values, dice, requests and actions has no line break in it.
-/

namespace TabletopDice

def IsLine (text : Text) : Prop := '\n' ∉ text

instance (text : Text) : Decidable (IsLine text) := inferInstanceAs (Decidable (¬_))

variable {text text' : Text}

@[simp] theorem isLine_nil : IsLine [] := List.not_mem_nil

@[simp] theorem isLine_append : IsLine (text ++ text') ↔ IsLine text ∧ IsLine text' := by
  simp [IsLine]

@[simp] theorem isLine_cons {c : Char} : IsLine (c :: text) ↔ '\n' ≠ c ∧ IsLine text := by
  simp [IsLine]

theorem isLine_intercalate {separator : Text} {items : List Text} (hseparator : IsLine separator)
    (hitems : ∀ item ∈ items, IsLine item) : IsLine (separator.intercalate items) := by
  intro hmem
  rcases mem_intercalate hmem with hmem | ⟨item, hitem, hmem⟩
  · exact hseparator hmem
  · exact hitems item hitem hmem

theorem isLine_natNumeral (n : Nat) : IsLine (natNumeral n) := fun hmem ↦
  absurd (isDigit_of_mem_natNumeral hmem) (by decide)

theorem mem_numeral {n : Int} {c : Char} (h : c ∈ numeral n) : c = '-' ∨ c.isDigit := by
  unfold numeral at h
  split at h
  · exact (List.mem_cons.1 h).imp_right isDigit_of_mem_natNumeral
  · exact .inr (isDigit_of_mem_natNumeral h)

theorem isLine_numeral (n : Int) : IsLine (numeral n) := fun hmem ↦
  absurd (mem_numeral hmem) (by decide)

/-- A value has a sign and digits only. -/
theorem Value.mem_text {v : Value} {c : Char} (h : c ∈ v.text) : c = '-' ∨ c = '+' ∨ c.isDigit := by
  cases v with
  | number n => exact (mem_numeral h).imp_right .inr
  | face f => cases f <;> simp_all [text, Face.text]

theorem Value.text_ne_nil (v : Value) : v.text ≠ [] := by
  cases v with
  | number n =>
      simp only [text, numeral]
      split
      · exact List.cons_ne_nil _ _
      · exact Nat.toDigits_ne_nil
  | face f => cases f <;> decide

theorem Value.isLine_text (v : Value) : IsLine v.text := fun hmem ↦
  absurd (mem_text hmem) (by decide)

theorem Value.isLine_word (v : Value) : IsLine v.word := by
  cases v with
  | number n => exact isLine_numeral n
  | face f => cases f <;> decide

theorem Dice.isLine_text (d : Dice) : IsLine d.text := by
  cases d with
  | const value =>
      cases value with
      | number n => simp [text, isLine_numeral]
      | face f => cases f <;> decide
  | numbered sides => simp [text, isLine_natNumeral]
  | repeating cycle =>
      have hvalues : IsLine (cycle.toList.flatMap fun v ↦ v.text ++ [',']) := by
        intro hmem
        obtain ⟨v, _, hmem⟩ := List.mem_flatMap.1 hmem
        rcases List.mem_append.1 hmem with hmem | hmem
        · exact v.isLine_text hmem
        · exact absurd hmem (by decide)
      simp [text, hvalues]
  | fudge => decide

theorem Request.isLine_rollText (q : Request) : IsLine q.rollText := by
  unfold rollText
  split
  · exact q.dice.isLine_text
  · simp [isLine_natNumeral, q.dice.isLine_text]

theorem isLine_of_isIdentifier {name : Text} (h : isIdentifier name) : IsLine name := fun hmem ↦
  absurd (Notation.isIdentifierChar_of_mem h _ hmem) (by decide)

theorem Request.isLine_text (q : Request) : IsLine q.text := by
  unfold text
  split
  · next name hname =>
      simp [isLine_of_isIdentifier (q.identifier_valid name hname), q.isLine_rollText]
  · exact q.isLine_rollText

theorem Keyword.isLine_text (k : Keyword) : IsLine k.text := by
  rcases k with _ | _ | _ | _ | _ | ⟨_ | _⟩ | ⟨_ | _⟩ <;> decide

theorem Keyword.isLine_call (k : Keyword) (h : IsLine text) : IsLine (k.call text) := by
  simp [call, k.isLine_text, h]

theorem ValueSet.isLine_text (s : ValueSet) : IsLine s.text := by
  refine isLine_intercalate (by decide) fun item hitem ↦ ?_
  obtain ⟨v, _, rfl⟩ := List.mem_map.1 hitem
  exact v.isLine_word

theorem Action.isLine_text (a : Action) : IsLine a.text := by
  cases a with
  | reroll _ triggers | explode _ triggers => exact Keyword.isLine_call _ triggers.isLine_text
  | multiply factor => simp [text, isLine_numeral]
  | flip => exact Keyword.flip.isLine_text
  | sum => exact Keyword.sum.isLine_text
  | total => exact Keyword.total.isLine_text
  | keep _ n | rerollExtreme _ n => exact Keyword.isLine_call _ (isLine_numeral n)

end TabletopDice
