import TabletopDice.Proofs.Rolling.Guarantee

/-!
# Two runs with different draws

Two rollings accord if their runs end alike whatever draws either of them is given: with related
results or with the same failure.  Nothing is said about a run whose luck fails it, because its
draws do not last or a number grows too long.  Accord of the parts is accord of the whole, so
nothing else has to look at two runs at once.
-/

namespace TabletopDice

open List (Forall₂)

variable {α β γ δ ε : Type}

/-- There are too few draws, or a number has grown too long to be written. -/
def Failure.OfLuck : Failure → Prop
  | noDrawLeft | numberTooLong none => True
  | _ => False

namespace Rolling

/-- Two ways for a run to end that are alike. -/
inductive Alike (related : α → β → Prop) :
    EStateM.Result Failure Draws α → EStateM.Result Failure Draws β → Prop where
  | ok {a : α} {b : β} {left left' : Draws} (h : related a b) :
      Alike related (.ok a left) (.ok b left')
  | error {f : Failure} {left left' : Draws} : Alike related (.error f left) (.error f left')
  | first {f : Failure} {left : Draws} {end' : EStateM.Result Failure Draws β}
      (h : f.OfLuck) : Alike related (.error f left) end'
  | second {f : Failure} {left' : Draws} {end' : EStateM.Result Failure Draws α}
      (h : f.OfLuck) : Alike related end' (.error f left')

def Accords (roll : Rolling α) (roll' : Rolling β) (related : α → β → Prop) : Prop :=
  ∀ draws draws', Alike related (roll.run draws) (roll'.run draws')

variable {roll : Rolling α} {roll' : Rolling β} {related mid : α → β → Prop}

theorem Accords.imp {related' : α → β → Prop} (h : roll.Accords roll' related)
    (himp : ∀ a b, related a b → related' a b) : roll.Accords roll' related' := by
  intro draws draws'
  have hends := h draws draws'
  generalize roll.run draws = result, roll'.run draws' = result' at hends ⊢
  cases hends with
  | ok hab => exact .ok (himp _ _ hab)
  | error => exact .error
  | first hluck => exact .first hluck
  | second hluck => exact .second hluck

theorem accords_pure {a : α} {b : β} (h : related a b) :
    Rolling.Accords (pure a) (pure b) related :=
  fun _ _ ↦ .ok h

theorem accords_throw (f : Failure) :
    Rolling.Accords (throw f : Rolling α) (throw f : Rolling β) related :=
  fun _ _ ↦ .error

theorem Accords.bind {next : α → Rolling γ} {next' : β → Rolling δ} {last : γ → δ → Prop}
    (h : roll.Accords roll' mid) (hnext : ∀ a b, mid a b → (next a).Accords (next' b) last) :
    (roll >>= next).Accords (roll' >>= next') last := by
  intro draws draws'
  have hends := h draws draws'
  rw [EStateM.run_bind, EStateM.run_bind]
  generalize roll.run draws = result, roll'.run draws' = result' at hends ⊢
  -- What follows a failure is not run, so a failure ends the whole as it ended the part.
  cases hends with
  | ok hab => exact hnext _ _ hab _ _
  | error => exact .error
  | first hluck => exact .first hluck
  | second hluck => exact .second hluck

theorem Accords.map {f : α → γ} {g : β → δ} {last : γ → δ → Prop}
    (h : roll.Accords roll' fun a b ↦ last (f a) (g b)) :
    (f <$> roll).Accords (g <$> roll') last := by
  rw [← bind_pure_comp, ← bind_pure_comp]
  exact h.bind fun _ _ hab ↦ accords_pure hab

/-- What is known of each run alone is known of the two together. -/
theorem Accords.and_gives {good : α → Prop} {good' : β → Prop} {bad bad' : Failure → Prop}
    (h : roll.Accords roll' related) (hgives : roll.Gives good bad)
    (hgives' : roll'.Gives good' bad') :
    roll.Accords roll' fun a b ↦ related a b ∧ good a ∧ good' b := by
  intro draws draws'
  have hends := h draws draws'
  cases hrun : roll.run draws with
  | ok a left =>
      cases hrun' : roll'.run draws' with
      | ok b left' =>
          rw [hrun, hrun'] at hends
          cases hends with
          | ok hab => exact .ok ⟨hab, hgives.of_ok hrun, hgives'.of_ok hrun'⟩
      | error f left' =>
          rw [hrun, hrun'] at hends
          cases hends with
          | second hluck => exact .second hluck
  | error f left =>
      rw [hrun] at hends
      generalize roll'.run draws' = result' at hends ⊢
      cases hends with
      | error => exact .error
      | first hluck => exact .first hluck
      | second hluck => exact .second hluck

/-- Rollings that only luck can make fail. -/
theorem accords_of_gives {good : α → Prop} {good' : β → Prop}
    (h : roll.Gives good Failure.OfLuck) (h' : roll'.Gives good' Failure.OfLuck)
    (hrelated : ∀ a b, good a → good' b → related a b) : roll.Accords roll' related := by
  intro draws draws'
  cases hrun : roll.run draws with
  | ok a left =>
      cases hrun' : roll'.run draws' with
      | ok b left' => exact .ok (hrelated a b (h.of_ok hrun) (h'.of_ok hrun'))
      | error f left' => exact .second (h'.of_error hrun')
  | error f left => exact .first (h.of_error hrun)

theorem accords_lift {e : Except Failure α} {e' : Except Failure β}
    (hok : ∀ a b, e = .ok a → e' = .ok b → related a b)
    (herror : ∀ f, e = .error f → f.OfLuck ∨ e' = .error f)
    (herror' : ∀ f, e' = .error f → f.OfLuck ∨ e = .error f) :
    Rolling.Accords (liftM e) (liftM e') related := by
  intro draws draws'
  cases e with
  | ok a =>
      cases e' with
      | ok b => exact .ok (hok a b rfl rfl)
      | error f =>
          rcases herror' f rfl with hluck | heq
          · exact .second hluck
          · cases heq
  | error f =>
      rcases herror f rfl with hluck | rfl
      · exact .first hluck
      · exact .error

/-- The same computation without draws in both runs. -/
theorem accords_lift_self (e : Except Failure α) :
    Rolling.Accords (liftM e) (liftM e) fun a b ↦ a = b :=
  accords_lift (fun _ _ ha hb ↦ Except.ok.inj (ha.symm.trans hb)) (fun _ h ↦ .inr h)
    fun _ h ↦ .inr h

/-- The same check before two results. -/
theorem accords_lift_check (check : Except Failure Unit) {a : α} {b : β} (h : related a b) :
    Rolling.Accords (liftM (check >>= fun _ ↦ pure a)) (liftM (check >>= fun _ ↦ pure b))
      related := by
  cases check with
  | ok u => exact fun _ _ ↦ .ok h
  | error f => exact fun _ _ ↦ .error

/-! ## Loops -/

theorem accords_mapM {f : α → Rolling γ} {g : β → Rolling δ} {last : γ → δ → Prop} {l : List α}
    {u : List β} (h : Forall₂ related l u)
    (hroll : ∀ a b, related a b → (f a).Accords (g b) last) :
    (l.mapM f).Accords (u.mapM g) (Forall₂ last) := by
  induction h with
  | nil =>
      rw [List.mapM_nil, List.mapM_nil]
      exact accords_pure .nil
  | cons hab _ ih =>
      rw [List.mapM_cons, List.mapM_cons]
      refine (hroll _ _ hab).bind fun c d hcd ↦ ih.bind fun others others' hothers ↦ ?_
      exact accords_pure (.cons hcd hothers)

theorem accords_foldlM {step : α → ε → Rolling α} {step' : β → ε → Rolling β} {l : List ε}
    (hstep : ∀ c ∈ l, ∀ a b, related a b → (step a c).Accords (step' b c) related)
    {a : α} {b : β} (h : related a b) :
    (l.foldlM step a).Accords (l.foldlM step' b) related := by
  induction l generalizing a b with
  | nil => exact accords_pure h
  | cons c rest ih =>
      rw [List.foldlM_cons, List.foldlM_cons]
      refine (hstep c List.mem_cons_self a b h).bind fun _ _ hnext ↦ ?_
      exact ih (fun d hd ↦ hstep d (List.mem_cons_of_mem c hd)) hnext

end Rolling
end TabletopDice
