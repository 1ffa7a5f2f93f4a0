import Mathlib.Data.List.Forall2

/-!
# Related and sorted lists

Lists that are related element by element, and lists that are sorted by a number.
-/

namespace TabletopDice

open List (Forall₂)

variable {α β γ : Type} {R S : α → β → Prop} {l : List α} {u : List β}

theorem exists_left_of_mem (h : Forall₂ R l u) {b : β} (hb : b ∈ u) : ∃ a ∈ l, R a b := by
  induction h with
  | nil => cases hb
  | cons hab _ ih =>
      rcases List.mem_cons.1 hb with rfl | hb
      · exact ⟨_, List.mem_cons_self, hab⟩
      · obtain ⟨a, ha, hr⟩ := ih hb
        exact ⟨a, List.mem_cons_of_mem _ ha, hr⟩

theorem exists_right_of_mem (h : Forall₂ R l u) {a : α} (ha : a ∈ l) : ∃ b ∈ u, R a b :=
  exists_left_of_mem h.flip ha

theorem related_iff_map_eq_map {f : α → γ} {g : β → γ} :
    Forall₂ (fun a b ↦ f a = g b) l u ↔ l.map f = u.map g := by
  rw [← List.forall₂_eq_eq_eq, List.forall₂_map_left_iff, List.forall₂_map_right_iff]

theorem map_eq_map_of_related {f : α → γ} {g : β → γ} (h : Forall₂ (fun a b ↦ f a = g b) l u) :
    l.map f = u.map g :=
  related_iff_map_eq_map.1 h

/-- A weaker relation, for elements of the two lists only. -/
theorem related_imp (h : Forall₂ R l u) (himp : ∀ a ∈ l, ∀ b ∈ u, R a b → S a b) :
    Forall₂ S l u := by
  induction h with
  | nil => exact .nil
  | cons hab _ ih =>
      refine .cons (himp _ List.mem_cons_self _ List.mem_cons_self hab) (ih fun a ha b hb ↦ ?_)
      exact himp a (List.mem_cons_of_mem _ ha) b (List.mem_cons_of_mem _ hb)

theorem related_filterMap {f : α → Option β} (h : ∀ a ∈ l, (f a).isSome) :
    Forall₂ (fun a b ↦ f a = some b) l (l.filterMap f) := by
  induction l with
  | nil => exact .nil
  | cons a rest ih =>
      obtain ⟨b, hb⟩ := Option.isSome_iff_exists.1 (h a List.mem_cons_self)
      rw [List.filterMap_cons_some hb]
      exact .cons hb (ih fun c hc ↦ h c (List.mem_cons_of_mem a hc))

theorem filterMap_eq_of_related {f : α → Option β}
    (h : Forall₂ (fun a b ↦ f a = some b) l u) : l.filterMap f = u := by
  induction h with
  | nil => rfl
  | cons hab _ ih => rw [List.filterMap_cons_some hab, ih]

/-- Lists are related by way of the elements between exactly if they are related by way of a list
between. -/
theorem related_comp_iff {T : β → γ → Prop} {v : List γ} :
    Forall₂ (fun a c ↦ ∃ b, R a b ∧ T b c) l v ↔ ∃ u, Forall₂ R l u ∧ Forall₂ T u v := by
  constructor
  · intro h
    induction h with
    | nil => exact ⟨[], .nil, .nil⟩
    | cons hac _ ih =>
        obtain ⟨b, hab, hbc⟩ := hac
        obtain ⟨u, hu, hv⟩ := ih
        exact ⟨b :: u, .cons hab hu, .cons hbc hv⟩
  · rintro ⟨u, hu, hv⟩
    induction hu generalizing v with
    | nil =>
        cases hv
        exact .nil
    | cons hab _ ih =>
        cases hv with
        | cons hbc hv => exact .cons ⟨_, hab, hbc⟩ (ih hv)

theorem pairwise_mergeSort_by (score : α → Int) (l : List α) :
    (l.mergeSort fun a b ↦ decide (score a ≤ score b)).Pairwise fun a b ↦ score a ≤ score b := by
  have htrans (a b c : α) (hab : decide (score a ≤ score b) = true)
      (hbc : decide (score b ≤ score c) = true) : decide (score a ≤ score c) = true := by
    simp only [decide_eq_true_eq] at hab hbc ⊢
    exact Int.le_trans hab hbc
  have htotal (a b : α) : (decide (score a ≤ score b) || decide (score b ≤ score a)) = true := by
    simp only [Bool.or_eq_true, decide_eq_true_eq]
    exact Int.le_total _ _
  have h := List.pairwise_mergeSort htrans htotal l
  simpa only [decide_eq_true_eq] using h

end TabletopDice
