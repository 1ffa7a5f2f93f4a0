import Mathlib.Data.List.Forall2
import TabletopDice.Proofs.RelatedLists
import TabletopDice.Proofs.Text.Span

/-!
# Lists with commas

A list of items is written with commas between them, and blanks around an item do not matter.
-/

namespace TabletopDice

open List (Forall₂)

variable {α : Type}

/-- Each item of the text, without the blanks around it, is written for one of the values. -/
def WritesItems (writes : Text → α → Prop) (text : Text) (values : List α) : Prop :=
  ∃ items, items ≠ [] ∧ text = [','].intercalate items ∧
    Forall₂ (fun item v ↦ ∃ core, Padded core item ∧ writes core v) items values

/-- Whatever is written is neither empty nor holds blanks or commas. -/
def Delimited (writes : Text → α → Prop) : Prop :=
  ∀ core v, writes core v → core ≠ [] ∧ ∀ c ∈ core, ¬isBlank c ∧ c ≠ ','

theorem isInfix_intercalate (separator : Text) {item : Text} {items : List Text}
    (h : item ∈ items) : item <:+: separator.intercalate items := by
  induction items with
  | nil => cases h
  | cons first rest ih =>
      cases rest with
      | nil =>
          have hitem : item = separator.intercalate [first] := by
            rw [List.mem_singleton.1 h, List.intercalate_singleton]
          exact hitem ▸ List.infix_refl item
      | cons second rest =>
          rw [List.intercalate_cons_cons]
          rcases List.mem_cons.1 h with rfl | h
          · rw [List.append_assoc]
            exact (List.prefix_append _ _).isInfix
          · exact (ih h).trans (List.suffix_append _ _).isInfix

theorem intercalate_append (separator : Text) {items others : List Text} (hitems : items ≠ [])
    (hothers : others ≠ []) :
    separator.intercalate (items ++ others) =
      separator.intercalate items ++ (separator ++ separator.intercalate others) := by
  induction items with
  | nil => exact (hitems rfl).elim
  | cons first rest ih =>
      cases rest with
      | nil =>
          obtain ⟨other, more, rfl⟩ := List.exists_cons_of_ne_nil hothers
          rw [List.singleton_append, List.intercalate_cons_cons, List.intercalate_singleton,
            List.append_assoc]
      | cons second rest =>
          have hrest := ih (List.cons_ne_nil _ _)
          rw [List.cons_append] at hrest ⊢
          rw [List.cons_append, List.intercalate_cons_cons, List.intercalate_cons_cons, hrest]
          simp only [List.append_assoc]

theorem intercalate_flatten (separator : Text) {groups : List (List Text)}
    (h : ∀ items ∈ groups, items ≠ []) :
    separator.intercalate (groups.map separator.intercalate) =
      separator.intercalate groups.flatten := by
  induction groups with
  | nil => rfl
  | cons items rest ih =>
      have hrest := ih fun other hother ↦ h other (List.mem_cons_of_mem items hother)
      cases rest with
      | nil => simp
      | cons second others =>
          have hflatten : (second :: others).flatten ≠ [] := by
            simp [h second (by simp)]
          rw [List.flatten_cons, intercalate_append _ (h items List.mem_cons_self) hflatten,
            ← hrest, List.map_cons, List.map_cons, List.intercalate_cons_cons, List.append_assoc]

theorem isInfix_of_padded {core text : Text} (h : Padded core text) : core <:+: text := by
  obtain ⟨before, after, rfl, _⟩ := h
  exact ⟨before, after, rfl⟩

section Items

variable {writes writes' : Text → α → Prop} {text : Text} {values : List α}

theorem WritesItems.imp (h : WritesItems writes text values)
    (himp : ∀ core v, core <:+: text → writes core v → writes' core v) :
    WritesItems writes' text values := by
  obtain ⟨items, hne, rfl, hitems⟩ := h
  refine ⟨items, hne, rfl, related_imp hitems ?_⟩
  rintro item hitem v _ ⟨core, hpadded, hcore⟩
  have hpiece : core <:+: [','].intercalate items :=
    (isInfix_of_padded hpadded).trans (isInfix_intercalate _ hitem)
  exact ⟨core, hpadded, himp core v hpiece hcore⟩

theorem WritesItems.ne_nil (h : WritesItems writes text values) : values ≠ [] := by
  obtain ⟨items, hne, _, hitems⟩ := h
  rintro rfl
  exact hne (List.forall₂_nil_right_iff.1 hitems)

theorem mem_intercalate {separator : Text} {items : List Text} {c : Char}
    (h : c ∈ separator.intercalate items) : c ∈ separator ∨ ∃ item ∈ items, c ∈ item := by
  induction items with
  | nil => simp at h
  | cons first rest ih =>
      cases rest with
      | nil => exact .inr ⟨first, List.mem_cons_self, by simpa using h⟩
      | cons second rest =>
          rw [List.intercalate_cons_cons, List.append_assoc, List.mem_append,
            List.mem_append] at h
          rcases h with h | h | h
          · exact .inr ⟨first, List.mem_cons_self, h⟩
          · exact .inl h
          · rcases ih h with h | ⟨item, hitem, hc⟩
            · exact .inl h
            · exact .inr ⟨item, List.mem_cons_of_mem _ hitem, hc⟩

/-- A list with commas has no characters but commas, blanks and those of its values. -/
theorem WritesItems.forall_mem {p : Char → Prop} (h : WritesItems writes text values)
    (hcomma : p ',') (hblank : ∀ c, isBlank c → p c)
    (hwrites : ∀ core v, writes core v → ∀ c ∈ core, p c) : ∀ c ∈ text, p c := by
  obtain ⟨items, _, rfl, hitems⟩ := h
  intro c hc
  rcases mem_intercalate hc with hc | ⟨item, hitem, hc⟩
  · rw [List.mem_singleton.1 hc]
    exact hcomma
  · obtain ⟨v, _, core, ⟨before, after, rfl, hbefore, hafter⟩, hcore⟩ :=
      exists_right_of_mem hitems hitem
    rw [List.mem_append, List.mem_append] at hc
    rcases hc with (hc | hc) | hc
    · exact hblank c (hbefore c hc)
    · exact hwrites core v hcore c hc
    · exact hblank c (hafter c hc)

/-- The items are found by splitting at the commas. -/
theorem writesItems_iff (hwrites : Delimited writes) :
    WritesItems writes text values ↔ Forall₂ writes ((text.splitOn ',').map stripped) values := by
  rw [List.forall₂_map_left_iff]
  constructor
  · rintro ⟨items, hne, rfl, hitems⟩
    have hcomma : ∀ item ∈ items, ',' ∉ item := by
      intro item hitem hmem
      obtain ⟨v, _, core, ⟨before, after, rfl, hbefore, hafter⟩, hcore⟩ :=
        exists_right_of_mem hitems hitem
      rw [List.mem_append, List.mem_append] at hmem
      rcases hmem with (hmem | hmem) | hmem
      · exact absurd (hbefore _ hmem) (by decide)
      · exact ((hwrites core v hcore).2 _ hmem).2 rfl
      · exact absurd (hafter _ hmem) (by decide)
    rw [List.splitOn_intercalate _ hcomma hne]
    apply hitems.imp
    rintro item v ⟨core, hpadded, hcore⟩
    obtain ⟨hne, hchars⟩ := hwrites core v hcore
    rwa [stripped_of_padded (bare_of_forall fun c hc ↦ (hchars c hc).1) hne hpadded]
  · intro h
    refine ⟨text.splitOn ',', List.splitOn_ne_nil _ _, (List.intercalate_splitOn _).symm, ?_⟩
    exact h.imp fun item v hv ↦ ⟨stripped item, padded_stripped item, hv⟩

theorem not_any_isEmpty (hwrites : Delimited writes) {items : List Text}
    (h : Forall₂ writes items values) : ¬items.any List.isEmpty := by
  intro hany
  obtain ⟨item, hitem, hempty⟩ := List.any_eq_true.1 hany
  obtain ⟨v, _, hv⟩ := exists_right_of_mem h hitem
  exact (hwrites item v hv).1 (List.isEmpty_iff.1 hempty)

theorem WritesItems.stripped_ne_nil (hwrites : Delimited writes)
    (h : WritesItems writes text values) : stripped text ≠ [] := by
  intro hnil
  obtain ⟨before, after, htext, hbefore, hafter⟩ := padded_stripped text
  rw [hnil, List.append_nil] at htext
  have hcomma : ',' ∉ text := by
    intro hmem
    rw [htext, List.mem_append] at hmem
    rcases hmem with hmem | hmem
    · exact absurd (hbefore _ hmem) (by decide)
    · exact absurd (hafter _ hmem) (by decide)
  have hitems : (text.splitOn ',').map stripped = [[]] := by
    rw [List.splitOn_eq_singleton hcomma, List.map_singleton, hnil]
  have hrelated := (writesItems_iff hwrites).1 h
  rw [hitems] at hrelated
  obtain ⟨v, _, hv⟩ := exists_right_of_mem hrelated List.mem_cons_self
  exact (hwrites [] v hv).1 rfl

end Items

end TabletopDice
