import TabletopDice.Proofs.Notation.Casing

/-!
# Dice and actions told apart

Outside of groups a word is sent to the reader of dice or to that of actions before either has seen
more of it than its form.  None is sent to the wrong one.
-/

namespace TabletopDice.Notation

/-- Reads a word outside of groups that is taken for a dice. -/
def Reader.readDiceWord (limits : Limits) (plan : Plan) (t : Token) : Except Failure Reader :=
  if plan.actions ≠ [] then t.blame .diceAfterActions
  else do
    let request ← readRequest limits t.text (some t.position) none []
    return ⟨plan.addRequest request, .outside⟩

/-- The word is read as a dice, or refused for another reason than that it is none. -/
def HasDiceForm (limits : Limits) (word : Text) : Prop :=
  ∃ position, (∃ d, readDice limits word position = .ok d) ∨
    ∃ fault, readDice limits word position = .error (.unreadable fault) ∧
      fault.cause ≠ .notDice word

variable {limits : Limits} {word : Text} {t : Token} {p : Plan} {a : Action}
  {position position' : Option Int}

theorem eq_of_blame {α : Type} {cause : Cause} {fault : Fault}
    (h : (blame cause word position : Except Failure α) = .error (.unreadable fault)) :
    fault = ⟨cause, word, position⟩ := by
  simp only [blame, Failure.raised] at h
  split at h
  · cases h
    rfl
  · cases h

theorem exists_ofText?_of_hasDiceForm (h : HasDiceForm limits word) :
    ∃ w, DiceWord.ofText? word = some w := by
  obtain ⟨position, hread⟩ := h
  cases hform : DiceWord.ofText? word with
  | some w => exact ⟨w, rfl⟩
  | none =>
      rw [readDice, hform] at hread
      rcases hread with ⟨d, hd⟩ | ⟨fault, hfault, hcause⟩
      · exact (blame_ne_ok hd).elim
      · rw [eq_of_blame hfault] at hcause
        exact (hcause rfl).elim

theorem not_action_of_dice {d : Nat × Dice} (hdice : readDice limits word position = .ok d) :
    readAction word position' ≠ .ok a := by
  intro haction
  obtain ⟨w, hw⟩ := exists_ofText?_of_hasDiceForm ⟨position, .inl ⟨d, hdice⟩⟩
  rw [ofText?_of_writesAction (readAction_eq_ok_iff.1 haction)] at hw
  cases hw

theorem read_of_hasDiceForm (hshape : t.shape = .word) (hcounts : ¬p.counts)
    (h : HasDiceForm limits t.text) :
    Reader.read limits ⟨p, .outside⟩ t = Reader.readDiceWord limits p t := by
  obtain ⟨w, hw⟩ := exists_ofText?_of_hasDiceForm h
  simp only [Reader.read, Reader.readOutside, Reader.readWord, hshape, if_neg hcounts,
    if_neg (ne_countWord_of_ofText? hw), if_neg (not_beginsLikeAction_of_ofText? hw),
    Reader.readDiceWord]

/-- No word is both a dice and an action, and each is sent to the reader that accepts it; the word
for a count is neither.  So the case of the markers makes no difference to a text that is read. -/
theorem dice_and_actions_told_apart (limits : Limits) :
    (∀ (p : Plan) (t : Token), t.shape = .word → ¬p.counts →
      (∀ position d position' a, readDice limits t.text position = .ok d →
        readAction t.text position' ≠ .ok a) ∧
      (HasDiceForm limits t.text →
        Reader.read limits ⟨p, .outside⟩ t = Reader.readDiceWord limits p t) ∧
      ∀ position a, readAction t.text position = .ok a →
        Reader.read limits ⟨p, .outside⟩ t = .ok ⟨p.addAction a, .outside⟩) ∧
      (∀ position d, readDice limits countWord position ≠ .ok d) ∧
      (∀ position a, readAction countWord position ≠ .ok a) ∧
      ∀ text other p, readPlan limits text = .ok p → Recased limits text other →
        readPlan limits other = .ok p := by
  refine ⟨fun p t hshape hcounts ↦ ⟨fun _ _ _ _ ↦ not_action_of_dice,
    read_of_hasDiceForm hshape hcounts, fun position a ha ↦ ?_⟩, fun position d hd ↦ ?_,
    fun position a ha ↦ ?_, fun _ _ _ ↦ readPlan_recased⟩
  · exact read_action hcounts (lexeme_eq_word_iff.2 ⟨hshape, rfl⟩) (readAction_eq_ok_iff.1 ha)
  · obtain ⟨w, hw⟩ := exists_ofText?_of_hasDiceForm ⟨position, .inl ⟨d, hd⟩⟩
    exact ne_countWord_of_ofText? hw rfl
  · exact ne_countWord_of_writesAction (readAction_eq_ok_iff.1 ha) rfl

/-- A small `d` is read as a dice, a small `x` as an action, and the case of the markers changes
nothing. -/
theorem dice_and_actions_told_apart_of_lower_case :
    Reader.read {} ⟨Plan.empty, .outside⟩ ⟨.word, "d6".toList, 0⟩ =
        Reader.readDiceWord {} Plan.empty ⟨.word, "d6".toList, 0⟩ ∧
      Reader.read {} ⟨Plan.empty, .outside⟩ ⟨.word, "x3".toList, 0⟩ =
        .ok ⟨Plan.empty.addAction (.multiply 3), .outside⟩ ∧
      ∃ p, readPlan {} "D6 (D6 4F sum)".toList = .ok p ∧
        readPlan {} "d6 (D6 4f sum)".toList = .ok p := by
  obtain ⟨hwords, _, _, hcases⟩ := dice_and_actions_told_apart {}
  have hdice : HasDiceForm {} "d6".toList :=
    ⟨none, .inl ⟨(1, .numbered 6 (by decide)), by decide +kernel⟩⟩
  have haction : readAction "x3".toList none = .ok (.multiply 3) := by decide +kernel
  have hread : readPlan {} "D6 (D6 4F sum)".toList =
      .ok ⟨[⟨1, .numbered 6 (by decide), none, [], by decide, by decide⟩],
        [⟨4, .fudge, some "D6".toList, [.sum], by decide, by decide⟩], [], false⟩ := by
    decide +kernel
  have hcase : Recased {} "D6 (D6 4F sum)".toList "d6 (D6 4f sum)".toList := by
    refine ⟨by decide, fun i hi ↦ ?_⟩
    have hlt : i < 14 := by
      by_contra hge
      exact hi (by rw [List.getElem?_eq_none, List.getElem?_eq_none] <;> simpa using hge)
    have hmarkers : ∀ i < 14, "d6 (D6 4f sum)".toList[i]? ≠ "D6 (D6 4F sum)".toList[i]? →
        i = 0 ∨ i = 8 := by
      decide
    rcases hmarkers i hlt hi with rfl | rfl
    · exact ⟨⟨.word, "D6".toList, 0⟩, by decide +kernel, by decide, by decide⟩
    · exact ⟨⟨.word, "4F".toList, 7⟩, by decide +kernel, by decide, by decide⟩
  refine ⟨?_, ?_, _, hread, hcases _ _ _ hread hcase⟩
  · exact (hwords Plan.empty ⟨.word, "d6".toList, 0⟩ rfl (by decide)).2.1 hdice
  · exact (hwords Plan.empty ⟨.word, "x3".toList, 0⟩ rfl (by decide)).2.2 none _ haction

end TabletopDice.Notation
