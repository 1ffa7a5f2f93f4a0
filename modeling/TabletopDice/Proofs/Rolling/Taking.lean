import Mathlib.Data.List.Perm.Basic
import TabletopDice.Proofs.Rolling.Shown

/-!
# Draws taken

`roll.Takes good` relates each result of a rolling to the draws that were taken for it, in order.
What follows a rolling takes its draws behind those of the rolling.  A loop over a list shares out
the draws it takes among the elements of the list, each of which gets its own ones in order.
-/

namespace TabletopDice.Rolling

variable {α β γ : Type}

def Takes (roll : Rolling α) (good : Draws → α → Prop) : Prop :=
  ∀ draws a left, roll.run draws = .ok a left → ∃ used, draws = used ++ left ∧ good used a

variable {roll : Rolling α} {good good' : Draws → α → Prop}

theorem Takes.imp (h : roll.Takes good) (himp : ∀ used a, good used a → good' used a) :
    roll.Takes good' := by
  intro draws a left hrun
  obtain ⟨used, hused, hgood⟩ := h _ _ _ hrun
  exact ⟨used, hused, himp used a hgood⟩

theorem takes_pure {a : α} (h : good [] a) : Rolling.Takes (pure a) good := by
  intro draws b left hrun
  obtain ⟨rfl, rfl⟩ := run_pure_eq_ok_iff.1 hrun
  exact ⟨[], rfl, h⟩

theorem takes_throw {f : Failure} : Rolling.Takes (throw f) good :=
  fun _ _ _ hrun ↦ nomatch hrun

theorem Takes.bind {next : α → Rolling β} {last : Draws → β → Prop} (h : roll.Takes good)
    (hnext : ∀ used a, good used a → (next a).Takes fun more b ↦ last (used ++ more) b) :
    (roll >>= next).Takes last := by
  intro draws b left hrun
  obtain ⟨a, mid, ha, hb⟩ := run_bind_eq_ok_iff.1 hrun
  obtain ⟨used, rfl, hgood⟩ := h _ _ _ ha
  obtain ⟨more, rfl, hlast⟩ := hnext used a hgood _ _ _ hb
  exact ⟨used ++ more, (List.append_assoc used more left).symm, hlast⟩

theorem Takes.map {g : α → β} {last : Draws → β → Prop}
    (h : roll.Takes fun used a ↦ last used (g a)) : (g <$> roll).Takes last := by
  intro draws b left hrun
  obtain ⟨a, ha, rfl⟩ := run_map_eq_ok_iff.1 hrun
  exact h _ _ _ ha

theorem takes_lift_bind {e : Except Failure α} {next : α → Rolling β} {last : Draws → β → Prop}
    (h : ∀ a, e = .ok a → (next a).Takes last) : Rolling.Takes (liftM e >>= next) last := by
  cases e with
  | ok a => exact h a rfl
  | error f => exact takes_throw

/-! ## Loops -/

/-- The draws are shared out among the elements of the list: all of them together, and to each
element its own ones in order. -/
def Shared (share : Draws → α → Prop) (used : Draws) (l : List α) : Prop :=
  ∃ shares : List (Draws × α), shares.map Prod.snd = l ∧
    (shares.map Prod.fst).flatten.Perm used ∧ ∀ p ∈ shares, p.1.Sublist used ∧ share p.1 p.2

variable {share : Draws → α → Prop} {share' : Draws → β → Prop}

/-- So far nothing has been taken. -/
theorem shared_nil {l : List α} (h : ∀ a ∈ l, share [] a) : Shared share [] l := by
  refine ⟨l.map fun a ↦ ([], a), ?_, ?_, fun p hp ↦ ?_⟩
  · rw [List.map_map]
    exact List.map_id l
  · simp
  · obtain ⟨a, ha, rfl⟩ := List.mem_map.1 hp
    exact ⟨List.Sublist.refl [], h a ha⟩

/-- A single element has got all draws. -/
theorem Shared.of_singleton {used : Draws} {a : α} (h : Shared share used [a]) : share used a := by
  obtain ⟨shares, hshares, hperm, hall⟩ := h
  match shares, hshares with
  | [p], rfl =>
      obtain ⟨hsub, hshare⟩ := hall p (List.mem_singleton_self p)
      have hlength : p.1.length = used.length := by simpa using hperm.length_eq
      exact hsub.eq_of_length hlength ▸ hshare

theorem takes_mapM_of_forall {f : α → Rolling β}
    (hf : ∀ used a, share used a → (f a).Takes fun more b ↦ share' (used ++ more) b)
    (shares : List (Draws × α)) (h : ∀ p ∈ shares, share p.1 p.2) :
    ((shares.map Prod.snd).mapM f).Takes fun used u ↦
      ∃ shares' : List (Draws × β), shares'.map Prod.snd = u ∧
        (shares'.map Prod.fst).flatten.Perm ((shares.map Prod.fst).flatten ++ used) ∧
        ∀ q ∈ shares', share' q.1 q.2 ∧ ∃ p ∈ shares, q.1.Sublist (p.1 ++ used) := by
  induction shares with
  | nil =>
      rw [List.map_nil, List.mapM_nil]
      exact takes_pure ⟨[], rfl, by simp, by simp⟩
  | cons p shares ih =>
      rw [List.map_cons, List.mapM_cons]
      refine (hf p.1 p.2 (h p List.mem_cons_self)).bind fun more b hb ↦ ?_
      refine (ih fun q hq ↦ h q (List.mem_cons_of_mem p hq)).bind fun used u hu ↦ ?_
      obtain ⟨shares', rfl, hperm, hall⟩ := hu
      refine takes_pure ⟨(p.1 ++ more, b) :: shares', rfl, ?_, ?_⟩
      · simp only [List.map_cons, List.flatten_cons, List.append_assoc, List.append_nil]
        apply List.Perm.append_left
        exact (hperm.append_left more).trans (List.perm_append_comm_assoc _ _ _)
      · rw [List.append_nil]
        intro q hq
        rcases List.mem_cons.1 hq with rfl | hq
        · refine ⟨hb, p, List.mem_cons_self, ?_⟩
          exact (List.sublist_append_left more used).append_left p.1
        · obtain ⟨hshare, r, hr, hsub⟩ := hall q hq
          refine ⟨hshare, r, List.mem_cons_of_mem p hr, hsub.trans ?_⟩
          exact (List.sublist_append_right more used).append_left r.1

/-- What each turn takes goes behind what its element has got already. -/
theorem takes_mapM {f : α → Rolling β}
    (hf : ∀ used a, share used a → (f a).Takes fun more b ↦ share' (used ++ more) b)
    {used : Draws} {l : List α} (h : Shared share used l) :
    (l.mapM f).Takes fun more u ↦ Shared share' (used ++ more) u := by
  obtain ⟨shares, rfl, hperm, hall⟩ := h
  refine (takes_mapM_of_forall hf shares fun p hp ↦ (hall p hp).2).imp ?_
  rintro more u ⟨shares', hu, hperm', hall'⟩
  refine ⟨shares', hu, hperm'.trans (hperm.append_right more), fun q hq ↦ ?_⟩
  obtain ⟨hshare, p, hp, hsub⟩ := hall' q hq
  exact ⟨hsub.trans ((hall p hp).1.append_right more), hshare⟩

theorem takes_foldlM {step : β → α → Rolling β} {l : List α} (inv : Draws → β → Prop)
    (hstep : ∀ a ∈ l, ∀ used b, inv used b → (step b a).Takes fun more c ↦ inv (used ++ more) c)
    {used : Draws} {b : β} (hb : inv used b) :
    (l.foldlM step b).Takes fun more c ↦ inv (used ++ more) c := by
  induction l generalizing used b with
  | nil => exact takes_pure (by rwa [List.append_nil])
  | cons a rest ih =>
      rw [List.foldlM_cons]
      refine (hstep a List.mem_cons_self used b hb).bind fun more c hc ↦ ?_
      refine (ih (fun d hd ↦ hstep d (List.mem_cons_of_mem a hd)) hc).imp fun others d hd ↦ ?_
      rwa [List.append_assoc] at hd

end Rolling

/-- So many values, and on a dice that takes draws those that it shows for them. -/
theorem Dice.roll_takes (d : Dice) (n : Nat) :
    (d.roll n).Takes fun used values ↦
      values.length = n ∧ ∀ shows ∈ d.shows?, values = used.map shows := by
  intro draws values left hrun
  rcases d.exists_shows_or_opening with ⟨shows, hshows⟩ | ⟨v, hopening⟩
  · obtain ⟨used, hdraws, rfl, hlength⟩ := run_roll_eq_ok_of_shows hshows hrun
    refine ⟨used, hdraws, by rw [List.length_map, hlength], fun shows' hshows' ↦ ?_⟩
    rw [Option.some.inj (hshows.symm.trans hshows')]
  · obtain ⟨values', hroll, hlength, _⟩ := run_roll_of_opening hopening n draws
    rw [hroll] at hrun
    cases hrun
    refine ⟨[], rfl, hlength, fun shows hshows ↦ ?_⟩
    rw [opening?_of_shows hshows] at hopening
    cases hopening

theorem ValueSet.reroll_takes (triggers : ValueSet) (d : Dice) (values : List Value) :
    (triggers.reroll d values).Takes fun _ _ ↦ True := by
  induction values with
  | nil => exact Rolling.takes_pure trivial
  | cons v rest ih =>
      have hfresh : Rolling.Takes (if v ∈ triggers then d.roll 1 else pure [v])
          fun _ _ ↦ True := by
        split
        · exact (d.roll_takes 1).imp fun _ _ _ ↦ trivial
        · exact Rolling.takes_pure trivial
      rw [reroll_cons]
      exact hfresh.bind fun _ _ _ ↦ ih.map

end TabletopDice
