import TabletopDice.Proofs.Notation.Reading

/-!
# The texts that are accepted

If no run of digits in a text is too long to be read, the text is accepted exactly if it belongs to
the grammar, where every run of digits is a number.
-/

namespace TabletopDice.Notation

/-! ## The words of a text -/

variable {text word : Text}

theorem IsRun.not_mem_newline (h : IsRun word) : '\n' ∉ word := by
  intro hmem
  exact absurd (h.2 _ hmem) (by decide)

/-- A word does not end with a line break, so that none is dropped. -/
theorem IsWord.withoutFinalBreak_eq (h : IsWord word) : withoutFinalBreak word = word := by
  apply if_neg
  intro hlast
  rcases h with hrun | ⟨run, part, _, ⟨inner, rfl, _⟩, rfl⟩
  · exact hrun.not_mem_newline (List.mem_of_mem_getLast? hlast)
  · rw [← List.append_assoc, List.getLast?_append_of_ne_nil _ (by simp)] at hlast
    exact absurd hlast (by decide)

theorem Lexed.isWord {lexemes : List Lexeme} (h : Lexed text lexemes)
    (hword : .word word ∈ lexemes) : IsWord word ∧ word <:+: text := by
  induction h with
  | nil => cases hword
  | blank _ _ ih => exact ⟨(ih hword).1, (ih hword).2.trans (List.suffix_cons _ _).isInfix⟩
  | opening _ ih | closing _ ih =>
      have hrest := ih (by simpa using hword)
      exact ⟨hrest.1, hrest.2.trans (List.suffix_cons _ _).isInfix⟩
  | run hrun _ _ ih =>
      rcases List.mem_cons.1 hword with heq | hrest
      · cases heq
        exact ⟨.inl hrun, (List.prefix_append _ _).isInfix⟩
      · exact ⟨(ih hrest).1, (ih hrest).2.trans (List.suffix_append _ _).isInfix⟩
  | call hrun hpart _ ih =>
      rcases List.mem_cons.1 hword with heq | hrest
      · cases heq
        exact ⟨.inr ⟨_, _, hrun, hpart, rfl⟩, (List.prefix_append _ _).isInfix⟩
      · exact ⟨(ih hrest).1, (ih hrest).2.trans (List.suffix_append _ _).isInfix⟩

/-! ## Texts whose numbers can all be read -/

/-- No run of digits in the text is too long to be read. -/
def HasShortRuns (text : Text) : Prop :=
  ∀ run, run <:+: text → isDigitRun run → run.length ≤ digitLimit

theorem hasShortRuns_of_length_le (h : text.length ≤ digitLimit) : HasShortRuns text := by
  intro run hpiece _
  exact hpiece.length_le.trans h

/-- Numbers in such a text can be read. -/
theorem HasShortRuns.readable {digits : Text} {n : Nat} (h : HasShortRuns text)
    (hpiece : digits <:+: text) (hnumber : IsNumber digits n) : Readable digits n :=
  ⟨hnumber, h digits hpiece hnumber.1⟩

theorem writesPlan_iff_of_hasShortRuns {limits : Limits} {lexemes : List Lexeme} {p : Plan}
    (hshort : HasShortRuns text) (hlexed : Lexed text lexemes) :
    WritesPlan (ReadsRolls limits) ReadsAction lexemes p ↔
      WritesPlan (WritesRolls IsNumber limits) (WritesAction IsNumber) lexemes p := by
  constructor
  · intro h
    refine h.imp (fun word r hword hrolls ↦ ?_) fun word a hword ha ↦ ?_
    · rw [ReadsRolls, (hlexed.isWord hword).1.withoutFinalBreak_eq] at hrolls
      exact ⟨hrolls.1.imp fun _ _ _ hreadable ↦ hreadable.1, hrolls.2⟩
    · rw [ReadsAction, (hlexed.isWord hword).1.withoutFinalBreak_eq] at ha
      exact ha.imp fun _ _ _ hreadable ↦ hreadable.1
  · intro h
    refine h.imp (fun word r hword hrolls ↦ ?_) fun word a hword ha ↦ ?_
    · obtain ⟨hisWord, hpiece⟩ := hlexed.isWord hword
      rw [ReadsRolls, hisWord.withoutFinalBreak_eq]
      exact ⟨hrolls.1.imp fun _ _ hin ↦ hshort.readable (hin.trans hpiece), hrolls.2⟩
    · obtain ⟨hisWord, hpiece⟩ := hlexed.isWord hword
      rw [ReadsAction, hisWord.withoutFinalBreak_eq]
      exact ha.imp fun _ _ hin ↦ hshort.readable (hin.trans hpiece)

/-- A text is read as the plan that it is written for, provided that it asks for dice at all, and
every other text is refused. -/
theorem readPlan_eq_ok_iff_writesPlan {limits : Limits} (hshort : HasShortRuns text) (p : Plan) :
    readPlan limits text = .ok p ↔ ∃ lexemes, Lexed text lexemes ∧
      WritesPlan (WritesRolls IsNumber limits) (WritesAction IsNumber) lexemes p ∧
        p.requests ≠ [] := by
  rw [readPlan_eq_ok_iff]
  refine exists_congr fun lexemes ↦ and_congr_right fun hlexed ↦ ?_
  rw [writesPlan_iff_of_hasShortRuns hshort hlexed]

theorem exists_writesPlan_of_group :
    HasShortRuns "2d6 (AB 4F reroll(+, blank)) x10 count".toList ∧
      ∃ p lexemes, Lexed "2d6 (AB 4F reroll(+, blank)) x10 count".toList lexemes ∧
        WritesPlan (WritesRolls IsNumber {}) (WritesAction IsNumber) lexemes p ∧
          p.requests ≠ [] := by
  have hshort : HasShortRuns "2d6 (AB 4F reroll(+, blank)) x10 count".toList :=
    hasShortRuns_of_length_le (by decide)
  have hread : readPlan {} "2d6 (AB 4F reroll(+, blank)) x10 count".toList = .ok
      ⟨[⟨2, .numbered 6 (by decide), none, [], by decide, by decide⟩],
        [⟨4, .fudge, some "AB".toList, [.reroll .fudge (.ofList [.face .plus, .face .blank])],
          by decide, by decide⟩], [.multiply 10], true⟩ := by
    decide +kernel
  exact ⟨hshort, _, (readPlan_eq_ok_iff_writesPlan hshort _).1 hread⟩

end TabletopDice.Notation
