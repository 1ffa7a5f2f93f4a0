import Mathlib.Data.List.Forall2

/-!
# Computations that may fail

What it takes for a sequence of computations to end with a result, or to fail.
-/

namespace TabletopDice

variable {ε α β : Type}

theorem bind_eq_ok_iff {e : Except ε α} {next : α → Except ε β} {b : β} :
    (e >>= next) = .ok b ↔ ∃ a, e = .ok a ∧ next a = .ok b := by
  cases e with
  | ok a =>
      refine ⟨fun h ↦ ⟨a, rfl, h⟩, ?_⟩
      rintro ⟨_, ha, h⟩
      cases ha
      exact h
  | error f =>
      constructor
      · intro h
        cases h
      · rintro ⟨_, ha, _⟩
        cases ha

theorem bind_eq_error_iff {e : Except ε α} {next : α → Except ε β} {f : ε} :
    (e >>= next) = .error f ↔ e = .error f ∨ ∃ a, e = .ok a ∧ next a = .error f := by
  cases e with
  | ok a =>
      refine ⟨fun h ↦ .inr ⟨a, rfl, h⟩, ?_⟩
      rintro (h | ⟨_, ha, h⟩)
      · cases h
      · cases ha
        exact h
  | error g =>
      constructor
      · intro h
        cases h
        exact .inl rfl
      · rintro (h | ⟨_, ha, _⟩)
        · cases h
          rfl
        · cases ha

theorem ok_bind (a : α) (next : α → Except ε β) : (Except.ok a >>= next) = next a := rfl

theorem pure_eq_ok_iff {a b : α} : (pure a : Except ε α) = .ok b ↔ a = b :=
  ⟨Except.ok.inj, congrArg _⟩

theorem mapM_eq_ok_iff {f : α → Except ε β} {l : List α} {r : List β} :
    l.mapM f = .ok r ↔ List.Forall₂ (fun a b ↦ f a = .ok b) l r := by
  induction l generalizing r with
  | nil => rw [List.mapM_nil, pure_eq_ok_iff, List.forall₂_nil_left_iff, eq_comm]
  | cons a l ih =>
      simp only [List.mapM_cons, bind_eq_ok_iff, pure_eq_ok_iff, List.forall₂_cons_left_iff, ih]
      grind

/-- A list of computations fails with a failure of one of them. -/
theorem exists_of_mapM_eq_error {f : α → Except ε β} {l : List α} {e : ε}
    (h : l.mapM f = .error e) : ∃ a ∈ l, f a = .error e := by
  induction l with
  | nil => cases h
  | cons a l ih =>
      rw [List.mapM_cons] at h
      rcases bind_eq_error_iff.1 h with h | ⟨_, _, h⟩
      · exact ⟨a, List.mem_cons_self, h⟩
      rcases bind_eq_error_iff.1 h with h | ⟨_, _, h⟩
      · obtain ⟨b, hb, hf⟩ := ih h
        exact ⟨b, List.mem_cons_of_mem a hb, hf⟩
      · cases h

section Runs

variable {step : β → α → Except ε β} {inv : β → Prop} {l : List α} {b r : β} {e : ε}

/-- What each step keeps is kept by a run. -/
theorem foldlM_keeps (hstep : ∀ a ∈ l, ∀ b c, inv b → step b a = .ok c → inv c) (hb : inv b)
    (h : l.foldlM step b = .ok r) : inv r := by
  induction l generalizing b with
  | nil =>
      cases h
      exact hb
  | cons a rest ih =>
      rw [List.foldlM_cons] at h
      obtain ⟨c, hc, h⟩ := bind_eq_ok_iff.1 h
      have hinv := hstep a List.mem_cons_self b c hb hc
      exact ih (fun d hd ↦ hstep d (List.mem_cons_of_mem a hd)) hinv h

/-- A run fails at one of its steps, behind a run that does not. -/
theorem exists_append_of_foldlM_eq_error (h : l.foldlM step b = .error e) :
    ∃ front a back c, l = front ++ a :: back ∧ front.foldlM step b = .ok c ∧
      step c a = .error e := by
  induction l generalizing b with
  | nil => cases h
  | cons a rest ih =>
      rw [List.foldlM_cons] at h
      rcases bind_eq_error_iff.1 h with h | ⟨c, hc, h⟩
      · exact ⟨[], a, rest, b, rfl, rfl, h⟩
      · obtain ⟨front, d, back, r, rfl, hrun, hfails⟩ := ih h
        refine ⟨a :: front, d, back, r, rfl, ?_, hfails⟩
        rw [List.foldlM_cons, hc]
        exact hrun

end Runs

end TabletopDice
