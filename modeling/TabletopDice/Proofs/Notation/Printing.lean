import TabletopDice.Proofs.Notation.Acceptance

/-!
# Writing what was read

The plain form of a plan: its requests, the numeric ones first, then its actions, then perhaps the
word `count`, with a space between them.  Whatever was read from a word, its text is such a word
again: the numbers in it are those that were read, and so they can be read once more.  Of the
actions, those of the notation have such a text.
-/

namespace TabletopDice

open List (Forall₂)

/-- The request with its private actions.  An identifier makes it a group. -/
def Request.written (r : Request) : Text :=
  match r.identifier with
  | none => r.text
  | some _ => '(' :: [' '].intercalate (r.text :: r.actions.map Action.text) ++ [')']

/-- The words of the plan, a group counting as one. -/
def Plan.words (p : Plan) : List Text :=
  p.requests.map Request.written ++ p.actions.map Action.text ++
    if p.counts then [Notation.countWord] else []

def Plan.text (p : Plan) : Text := [' '].intercalate p.words

/-! ## Sets of values -/

theorem ValueSet.ofList_toList (s : ValueSet) : ValueSet.ofList s.toList = s :=
  ValueSet.eq_of_mem_iff fun _ ↦ ValueSet.mem_ofList

theorem exists_map_of_forall {α β : Type} {f : α → β} {l : List β} (h : ∀ b ∈ l, ∃ a, b = f a) :
    ∃ u : List α, u.map f = l := by
  induction l with
  | nil => exact ⟨[], rfl⟩
  | cons b rest ih =>
      obtain ⟨a, rfl⟩ := h b List.mem_cons_self
      obtain ⟨others, rfl⟩ := ih fun c hc ↦ h c (List.mem_cons_of_mem _ hc)
      exact ⟨a :: others, rfl⟩

/-- The set can be written as the triggers of an action on rolls of this kind: it is not empty, and
all its members are numbers without a sign, or faces. -/
def ValueSet.InNotation (s : ValueSet) (kind : Kind) : Prop :=
  s.toList ≠ [] ∧ ∀ v ∈ s, match kind with
    | .numeric => ∃ n : Nat, v = .number n
    | .fudge => ∃ f, v = .face f

theorem ValueSet.toList_ofList_ne_nil {l : List Value} (h : l ≠ []) : (ofList l).toList ≠ [] := by
  obtain ⟨v, rest, rfl⟩ := List.exists_cons_of_ne_nil h
  exact List.ne_nil_of_mem (mem_iff.1 (mem_ofList.2 List.mem_cons_self))

/-- The action can be written in a request. -/
def Action.InNotation : Action → Prop
  | reroll kind triggers | explode kind triggers => triggers.InNotation kind
  | multiply n | keep _ n | rerollExtreme _ n => 0 ≤ n
  | flip | sum | total => True

namespace Notation

/-! ## Words that are written for actions -/

section Read

variable {number : Text → Nat → Prop} {text : Text} {kind : Kind} {triggers : ValueSet}

theorem WritesTriggers.inNotation (h : WritesTriggers number text kind triggers) :
    triggers.InNotation kind := by
  cases h with
  | numbers h =>
      refine ⟨ValueSet.toList_ofList_ne_nil (by simpa using h.ne_nil), fun v hv ↦ ?_⟩
      obtain ⟨n, _, rfl⟩ := List.mem_map.1 (ValueSet.mem_ofList.1 hv)
      exact ⟨n, rfl⟩
  | faces h =>
      refine ⟨ValueSet.toList_ofList_ne_nil (by simpa using h.ne_nil), fun v hv ↦ ?_⟩
      obtain ⟨f, _, rfl⟩ := List.mem_map.1 (ValueSet.mem_ofList.1 hv)
      exact ⟨f, rfl⟩

theorem WritesAction.inNotation {a : Action} (h : WritesAction number text a) : a.InNotation := by
  cases h with
  | flip | sum | total => trivial
  | reroll h | explode h => exact h.inNotation
  | @multiply _ n | @keep _ n | @rerollExtreme _ n => exact Int.natCast_nonneg n

theorem WritesTriggers.writable (h : WritesTriggers Readable text kind triggers) :
    ∀ n ∈ triggers.numbers, Writable n := by
  intro n hn
  obtain ⟨v, hv, hn⟩ := List.mem_flatMap.1 hn
  have hmem := ValueSet.mem_iff.2 hv
  cases h with
  | numbers h =>
      obtain ⟨m, hm, rfl⟩ := List.mem_map.1 (ValueSet.mem_ofList.1 hmem)
      obtain ⟨items, _, _, hitems⟩ := h
      obtain ⟨item, _, core, _, hcore⟩ := exists_left_of_mem hitems hm
      rw [List.mem_singleton.1 hn]
      exact hcore.writable
  | faces h =>
      obtain ⟨f, _, rfl⟩ := List.mem_map.1 (ValueSet.mem_ofList.1 hmem)
      cases hn

theorem WritesArgument.writable {n : Nat} (h : WritesArgument Readable text n) : Writable n := by
  obtain ⟨core, _, hcore⟩ := h
  exact hcore.writable

theorem WritesAction.writable {a : Action} (h : WritesAction Readable text a) :
    ∀ n ∈ a.numbers, Writable n := by
  cases h with
  | flip | sum | total => simp [Action.numbers]
  | reroll h | explode h => exact h.writable
  | multiply h | keep _ h | rerollExtreme _ h => simpa [Action.numbers] using h.writable

end Read

/-- The text of a set lists its members, if each of them is written by its word. -/
theorem exists_writesItems {α : Type} (writes : Text → α → Prop) {make : α → Value} {s : ValueSet}
    (hne : s.toList ≠ []) (hmade : ∀ v ∈ s, ∃ a, v = make a)
    (hwrites : ∀ a, make a ∈ s → writes (make a).word a) :
    ∃ members, ValueSet.ofList (members.map make) = s ∧ WritesItems writes s.text members := by
  obtain ⟨members, heq⟩ := exists_map_of_forall fun v hv ↦ hmade v (ValueSet.mem_iff.2 hv)
  refine ⟨members, by rw [heq, s.ofList_toList], members.map fun a ↦ (make a).word, ?_, ?_, ?_⟩
  · rw [← heq] at hne
    simpa using hne
  · rw [ValueSet.text, ← heq, List.map_map]
    rfl
  · rw [List.forall₂_map_left_iff, List.forall₂_same]
    intro a ha
    exact ⟨_, padded_self _, hwrites a (ValueSet.mem_iff.2 (heq ▸ List.mem_map_of_mem ha))⟩

theorem writesTriggers_of_inNotation {triggers : ValueSet} {kind : Kind}
    (h : triggers.InNotation kind) (hwritable : ∀ n ∈ triggers.numbers, Writable n) :
    WritesTriggers Readable triggers.text kind triggers := by
  obtain ⟨hne, hmade⟩ := h
  cases kind with
  | numeric =>
      have hwrites : ∀ n : Nat, .number n ∈ triggers → Readable (Value.number n).word n := by
        intro n hn
        rw [Value.word, numeral_natCast]
        refine readable_natNumeral_iff.2 (hwritable n (List.mem_flatMap.2 ⟨.number n, ?_, ?_⟩))
        · exact ValueSet.mem_iff.1 hn
        · exact List.mem_singleton_self _
      obtain ⟨members, hset, hitems⟩ := exists_writesItems Readable hne hmade hwrites
      exact hset ▸ WritesTriggers.numbers (hset.symm ▸ hitems)
  | fudge =>
      obtain ⟨members, hset, hitems⟩ :=
        exists_writesItems (fun core f ↦ core = Face.word f) hne hmade fun _ _ ↦ rfl
      exact hset ▸ WritesTriggers.faces (hset.symm ▸ hitems)

theorem writesArgument_of_nonneg {n : Int} (h : 0 ≤ n) (hwritable : Writable n) :
    ∃ m : Nat, n = m ∧ WritesArgument Readable (numeral n) m := by
  obtain ⟨m, rfl⟩ := Int.eq_ofNat_of_zero_le h
  refine ⟨m, rfl, numeral m, padded_self _, ?_⟩
  rw [numeral_natCast]
  exact readable_natNumeral_iff.2 hwritable

/-- The text of an action of the notation is a word for this action. -/
theorem writesAction_of_inNotation {a : Action} (h : a.InNotation)
    (hwritable : ∀ n ∈ a.numbers, Writable n) : WritesAction Readable a.text a := by
  cases a with
  | flip => exact .flip
  | sum => exact .sum
  | total => exact .total
  | reroll kind triggers => exact .reroll (writesTriggers_of_inNotation h hwritable)
  | explode kind triggers => exact .explode (writesTriggers_of_inNotation h hwritable)
  | multiply n =>
      obtain ⟨m, rfl⟩ := Int.eq_ofNat_of_zero_le h
      rw [Action.text, numeral_natCast]
      exact .multiply (readable_natNumeral_iff.2 (hwritable m List.mem_cons_self))
  | keep which n =>
      obtain ⟨m, rfl, hargument⟩ := writesArgument_of_nonneg h (hwritable n List.mem_cons_self)
      exact .keep which hargument
  | rerollExtreme which n =>
      obtain ⟨m, rfl, hargument⟩ := writesArgument_of_nonneg h (hwritable n List.mem_cons_self)
      exact .rerollExtreme which hargument

/-- The text of an action that was read is a word for this action. -/
theorem writesAction_text {word : Text} {a : Action} (h : WritesAction Readable word a) :
    WritesAction Readable a.text a ∧ ∀ n ∈ a.numbers, Writable n :=
  ⟨writesAction_of_inNotation h.inNotation h.writable, h.writable⟩

/-! ## Words that are written for dice -/

theorem writable_one : Writable (1 : Nat) := by decide

theorem writesCount_natNumeral {count : Text} {n : Nat} (h : WritesCount Readable count n) :
    WritesCount Readable (natNumeral n) n ∧ Writable n := by
  have hwritable : Writable n := by
    cases h with
    | omitted => exact writable_one
    | given h => exact h.writable
  exact ⟨.given (readable_natNumeral_iff.2 hwritable), hwritable⟩

/-- The text of the rolls of a request that was read is a word for these rolls. -/
theorem writesRolls_rollText {limits : Limits} {word : Text} {r : Request}
    (h : WritesRolls Readable limits word r) :
    WritesRolls Readable limits r.rollText r ∧ ∀ n ∈ r.numbers, Writable n := by
  obtain ⟨hdice, hcount⟩ := h
  suffices hroll : WritesDice Readable limits r.rollText r.number r.dice ∧
      ∀ n ∈ r.numbers, Writable n from ⟨⟨hroll.1, hcount⟩, hroll.2⟩
  clear hcount
  obtain ⟨number, dice, identifier, actions, hnumber, hidentifier⟩ := r
  simp only [Request.rollText, Request.numbers] at hdice ⊢
  cases hdice with
  | numbered hcount hmarker hsides hpos hmost =>
      obtain ⟨htext, hwritable⟩ := writesCount_natNumeral hcount
      have hsidesText := readable_natNumeral_iff.2 hsides.writable
      refine ⟨.numbered htext (.inr rfl) hsidesText hpos hmost, ?_⟩
      simpa [Dice.numbers] using ⟨hwritable, hsides.writable⟩
  | constant h =>
      refine ⟨?_, by simpa [Dice.numbers, Value.numbers] using ⟨writable_one, h.writable⟩⟩
      simp only [Dice.text, numeral_natCast]
      exact .constant (readable_natNumeral_iff.2 h.writable)
  | fudge hcount hmarker =>
      obtain ⟨htext, hwritable⟩ := writesCount_natNumeral hcount
      exact ⟨.fudge htext (.inr rfl), by simpa [Dice.numbers] using hwritable⟩

end Notation
end TabletopDice
