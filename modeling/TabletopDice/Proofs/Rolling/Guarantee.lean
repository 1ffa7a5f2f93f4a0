import TabletopDice.Proofs.RelatedLists
import TabletopDice.Rolling.Basic

/-!
# Guarantees about rolling

`roll.Gives good bad` says how a rolling can end, whatever the draws: with a result that is `good`
or with a failure that is `bad`.  A guarantee about the parts of a rolling is one about the whole,
so nothing else has to look at the draws.
-/

namespace TabletopDice.Rolling

variable {α β γ : Type}

def Gives (roll : Rolling α) (good : α → Prop) (bad : Failure → Prop) : Prop :=
  ∀ draws, match roll.run draws with
    | .ok a _ => good a
    | .error f _ => bad f

theorem Gives.imp {roll : Rolling α} {good good' : α → Prop} {bad bad' : Failure → Prop}
    (h : roll.Gives good bad) (hgood : ∀ a, good a → good' a) (hbad : ∀ f, bad f → bad' f) :
    roll.Gives good' bad' := by
  intro draws
  have hd := h draws
  split at hd
  · next a rest heq => exact hgood a hd
  · next f rest heq => exact hbad f hd

theorem Gives.good_only {roll : Rolling α} {good : α → Prop} {bad : Failure → Prop}
    (h : roll.Gives good bad) : roll.Gives good fun _ ↦ True :=
  h.imp (fun _ ha ↦ ha) fun _ _ ↦ trivial

theorem Gives.of_ok {roll : Rolling α} {good : α → Prop} {bad : Failure → Prop}
    (h : roll.Gives good bad) {draws rest : Draws} {a : α} (heq : roll.run draws = .ok a rest) :
    good a := by
  have hd := h draws
  rwa [heq] at hd

theorem Gives.of_error {roll : Rolling α} {good : α → Prop} {bad : Failure → Prop}
    (h : roll.Gives good bad) {draws rest : Draws} {f : Failure}
    (heq : roll.run draws = .error f rest) : bad f := by
  have hd := h draws
  rwa [heq] at hd

theorem Gives.and {roll : Rolling α} {good good' : α → Prop} {bad bad' : Failure → Prop}
    (h : roll.Gives good bad) (h' : roll.Gives good' bad') :
    roll.Gives (fun a ↦ good a ∧ good' a) fun f ↦ bad f ∧ bad' f := by
  intro draws
  cases heq : roll.run draws with
  | ok a rest => exact ⟨h.of_ok heq, h'.of_ok heq⟩
  | error f rest => exact ⟨h.of_error heq, h'.of_error heq⟩

theorem gives_anything (roll : Rolling α) : roll.Gives (fun _ ↦ True) fun _ ↦ True := by
  intro draws
  split <;> trivial

theorem gives_pure {a : α} {good : α → Prop} {bad : Failure → Prop} (h : good a) :
    Rolling.Gives (pure a) good bad :=
  fun _ ↦ h

theorem Gives.bind {roll : Rolling α} {next : α → Rolling β} {mid : α → Prop} {good : β → Prop}
    {bad : Failure → Prop} (h : roll.Gives mid bad)
    (hnext : ∀ a, mid a → (next a).Gives good bad) : (roll >>= next).Gives good bad := by
  intro draws
  rw [EStateM.run_bind]
  cases heq : roll.run draws with
  | ok a rest => exact hnext a (h.of_ok heq) rest
  | error f rest => exact h.of_error heq

/-- What follows a rolling may be replaced by what is the same for its results. -/
theorem Gives.bind_congr {roll : Rolling α} {next next' : α → Rolling β} {good : α → Prop}
    {bad : Failure → Prop} (h : roll.Gives good bad) (hnext : ∀ a, good a → next a = next' a) :
    roll >>= next = roll >>= next' := by
  funext draws
  change (roll >>= next).run draws = (roll >>= next').run draws
  rw [EStateM.run_bind, EStateM.run_bind]
  cases heq : roll.run draws with
  | ok a rest => exact congrFun (hnext a (h.of_ok heq)) rest
  | error f rest => rfl

theorem Gives.map {roll : Rolling α} {f : α → β} {good : β → Prop} {bad : Failure → Prop}
    (h : roll.Gives (fun a ↦ good (f a)) bad) : (f <$> roll).Gives good bad := by
  rw [← bind_pure_comp]
  exact h.bind fun a ha ↦ gives_pure ha

theorem gives_fail {f : Failure} {good : α → Prop} {bad : Failure → Prop} (h : bad f.raised) :
    (Rolling.fail f : Rolling α).Gives good bad :=
  fun _ ↦ h

theorem gives_ofExcept {e : Except Failure α} {good : α → Prop} {bad : Failure → Prop}
    (hok : ∀ a, e = .ok a → good a) (herror : ∀ f, e = .error f → bad f) :
    (ofExcept e).Gives good bad := by
  cases e with
  | ok a => exact gives_pure (hok a rfl)
  | error f => exact fun _ ↦ herror f rfl

/-- A computation without draws that has a result makes no difference to the rest. -/
theorem gives_lift_bind_of_ok {e : Except Failure α} {a : α} {next : α → Rolling β}
    {good : β → Prop} {bad : Failure → Prop} (he : e = .ok a) (h : (next a).Gives good bad) :
    Rolling.Gives (liftM e >>= next) good bad := by
  subst he
  exact h

theorem gives_lift_bind {e : Except Failure α} {next : α → Rolling β}
    {good : β → Prop} {bad : Failure → Prop} (herror : ∀ f, e = .error f → bad f)
    (h : ∀ a, e = .ok a → (next a).Gives good bad) :
    Rolling.Gives (liftM e >>= next) good bad := by
  cases e with
  | ok a => exact h a rfl
  | error f => exact fun _ ↦ herror f rfl

theorem gives_draw : draw.Gives (fun _ ↦ True) (· = .noDrawLeft) := by
  intro draws
  cases draws with
  | nil => rfl
  | cons d rest => trivial

theorem gives_times {roll : Rolling α} {good : α → Prop} {bad : Failure → Prop}
    (h : roll.Gives good bad) (n : Nat) : (times roll n).Gives (∀ a ∈ ·, good a) bad := by
  induction n with
  | zero => exact gives_pure (by simp)
  | succ n ih =>
      refine h.bind fun a ha ↦ ih.bind fun rest hrest ↦ gives_pure ?_
      simpa using ⟨ha, hrest⟩

/-- Each result of a list of rollings belongs to the element from which it was rolled. -/
theorem gives_mapM {roll : α → Rolling β} {related : α → β → Prop} {bad : Failure → Prop}
    {l : List α} (h : ∀ a ∈ l, (roll a).Gives (related a) bad) :
    (l.mapM roll).Gives (List.Forall₂ related l) bad := by
  induction l with
  | nil =>
      rw [List.mapM_nil]
      exact gives_pure .nil
  | cons a l ih =>
      rw [List.mapM_cons]
      refine (h a List.mem_cons_self).bind fun b hb ↦ ?_
      refine (ih fun c hc ↦ h c (List.mem_cons_of_mem a hc)).bind fun rest hrest ↦ ?_
      exact gives_pure (.cons hb hrest)

theorem gives_mapM_forall {roll : α → Rolling β} {good : β → Prop} {bad : Failure → Prop}
    {l : List α} (h : ∀ a ∈ l, (roll a).Gives good bad) :
    (l.mapM roll).Gives (∀ b ∈ ·, good b) bad := by
  have hrelated : (l.mapM roll).Gives (List.Forall₂ (fun _ ↦ good) l) bad := gives_mapM h
  refine hrelated.imp (fun u hu b hb ↦ ?_) fun _ hf ↦ hf
  obtain ⟨_, _, hgood⟩ := exists_left_of_mem hu hb
  exact hgood

/-- What a loop keeps may speak of the elements that have had their turn. -/
theorem gives_foldlM {roll : β → α → Rolling β} {inv : List α → β → Prop} {bad : Failure → Prop}
    (h : ∀ done b a, inv done b → (roll b a).Gives (inv (done ++ [a])) bad) {done l : List α}
    {b : β} (hb : inv done b) : (l.foldlM roll b).Gives (inv (done ++ l)) bad := by
  induction l generalizing done b with
  | nil =>
      rw [List.append_nil]
      exact gives_pure hb
  | cons a rest ih =>
      rw [List.foldlM_cons, List.append_cons]
      exact (h done b a hb).bind fun c hc ↦ ih hc

theorem gives_foldlM_of_keeps {roll : β → α → Rolling β} {inv : β → Prop} {bad : Failure → Prop}
    (h : ∀ b a, inv b → (roll b a).Gives inv bad) {l : List α} {b : β} (hb : inv b) :
    (l.foldlM roll b).Gives inv bad := by
  have hkeeps : ∀ (_ : List α) b a, inv b → (roll b a).Gives inv bad := fun _ ↦ h
  exact @gives_foldlM _ _ roll (fun _ ↦ inv) bad hkeeps [] l b hb

theorem mapM_map_eq (g : β → γ) (roll : α → Rolling β) (l : List α) :
    l.mapM (fun a ↦ g <$> roll a) = List.map g <$> l.mapM roll := by
  induction l with
  | nil => simp
  | cons a l ih => simp [List.mapM_cons, ih, map_bind, bind_map_left]

/-- Elements that replace related ones are related in their turn. -/
theorem gives_mapM_of_related {roll : β → Rolling γ} {before : α → β → Prop}
    {after : α → γ → Prop} {bad : Failure → Prop} {l : List α} {u : List β}
    (h : List.Forall₂ before l u) (hroll : ∀ a b, before a b → (roll b).Gives (after a) bad) :
    (u.mapM roll).Gives (List.Forall₂ after l) bad := by
  induction h with
  | nil =>
      rw [List.mapM_nil]
      exact gives_pure .nil
  | cons hab _ ih =>
      rw [List.mapM_cons]
      refine (hroll _ _ hab).bind fun c hc ↦ ih.bind fun rest hrest ↦ ?_
      exact gives_pure (.cons hc hrest)

end TabletopDice.Rolling
