import Mathlib.Data.List.TakeWhile
import TabletopDice.Text.Basic

/-!
# Spans of characters

A text that begins with a run of some class of characters is split in one way only, and so is a
text with blanks at its two ends.
-/

namespace TabletopDice

/-- The text does not go on with a character of the class. -/
def Stops (p : Char → Bool) (rest : Text) : Prop := ∀ c ∈ rest.head?, ¬p c

section Spans

variable {p : Char → Bool} {run rest text : Text}

theorem stops_nil : Stops p [] := by simp [Stops]

theorem stops_cons {c : Char} : Stops p (c :: rest) ↔ ¬p c := by simp [Stops]

theorem stops_dropWhile : Stops p (text.dropWhile p) := by
  intro c hc
  have hhead := List.head?_dropWhile_not p text
  rw [hc] at hhead
  simpa using hhead

theorem takeWhile_of_stops (h : Stops p rest) : rest.takeWhile p = [] := by
  cases rest with
  | nil => rfl
  | cons c rest => exact List.takeWhile_cons_of_neg (stops_cons.1 h)

theorem dropWhile_of_stops (h : Stops p rest) : rest.dropWhile p = rest := by
  cases rest with
  | nil => rfl
  | cons c rest => exact List.dropWhile_cons_of_neg (stops_cons.1 h)

theorem takeWhile_span (hrun : ∀ c ∈ run, p c) (h : Stops p rest) :
    (run ++ rest).takeWhile p = run := by
  rw [List.takeWhile_append_of_pos hrun, takeWhile_of_stops h, List.append_nil]

theorem dropWhile_span (hrun : ∀ c ∈ run, p c) (h : Stops p rest) :
    (run ++ rest).dropWhile p = rest := by
  rw [List.dropWhile_append_of_pos hrun, dropWhile_of_stops h]

end Spans

/-! ## Blanks around a text -/

/-- The text has no blank at its two ends. -/
def Bare (text : Text) : Prop := Stops isBlank text ∧ Stops isBlank text.reverse

/-- The text is written with blanks around it, or with none. -/
def Padded (core text : Text) : Prop :=
  ∃ before after, text = before ++ core ++ after ∧
    (∀ c ∈ before, isBlank c) ∧ ∀ c ∈ after, isBlank c

theorem padded_self (text : Text) : Padded text text := ⟨[], [], by simp⟩

theorem padded_stripped (text : Text) : Padded (stripped text) text := by
  obtain ⟨before, hbefore⟩ : ∃ before, before = text.takeWhile isBlank := ⟨_, rfl⟩
  refine ⟨before, ((text.dropWhile isBlank).reverse.takeWhile isBlank).reverse, ?_,
    fun c hc ↦ ?_, fun c hc ↦ ?_⟩
  · rw [stripped, trimmed, List.append_assoc, ← List.reverse_append,
      List.takeWhile_append_dropWhile, List.reverse_reverse, hbefore,
      List.takeWhile_append_dropWhile]
  · rw [hbefore] at hc
    exact List.mem_takeWhile_imp hc
  · exact List.mem_takeWhile_imp (List.mem_reverse.1 hc)

theorem stripped_of_padded {core text : Text} (hcore : Bare core) (hne : core ≠ [])
    (h : Padded core text) : stripped text = core := by
  obtain ⟨before, after, rfl, hbefore, hafter⟩ := h
  have hstart : Stops isBlank (core ++ after) := by
    obtain ⟨c, rest, rfl⟩ := List.exists_cons_of_ne_nil hne
    exact stops_cons.2 (stops_cons.1 hcore.1)
  have hafter' : ∀ c ∈ after.reverse, isBlank c := fun c hc ↦ hafter c (List.mem_reverse.1 hc)
  rw [stripped, trimmed, List.append_assoc, dropWhile_span hbefore hstart, List.reverse_append,
    dropWhile_span hafter' hcore.2, List.reverse_reverse]

theorem bare_of_forall {text : Text} (h : ∀ c ∈ text, ¬isBlank c) : Bare text := by
  refine ⟨fun c hc ↦ h c (List.mem_of_mem_head? hc), fun c hc ↦ h c ?_⟩
  exact List.mem_reverse.1 (List.mem_of_mem_head? hc)

end TabletopDice
