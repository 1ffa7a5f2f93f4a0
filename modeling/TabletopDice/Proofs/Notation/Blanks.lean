import TabletopDice.Proofs.Notation.Displacement
import TabletopDice.Proofs.Notation.Reading
import TabletopDice.Session.Outcome

/-!
# Blanks around and between tokens

Blanks at the two ends of a text are no part of any token.  All that comes of them is that the
tokens stand further back, and the faults with them.  The blanks between two tokens may be any
others as well.
-/

namespace TabletopDice

variable {before after text : Text}

theorem stripped_padded (hbefore : ∀ c ∈ before, isBlank c) (hafter : ∀ c ∈ after, isBlank c)
    (text : Text) : stripped (before ++ text ++ after) = stripped text := by
  have hnone : after.dropWhile isBlank = [] := List.dropWhile_eq_nil_iff.2 hafter
  rw [stripped, stripped, trimmed, trimmed, List.append_assoc,
    List.dropWhile_append_of_pos hbefore, List.dropWhile_append]
  split
  · next hempty => rw [hnone, List.isEmpty_iff.1 hempty]
  · have hreverse : ∀ c ∈ after.reverse, isBlank c := fun c hc ↦ hafter c (List.mem_reverse.1 hc)
    rw [List.reverse_append, List.dropWhile_append_of_pos hreverse]

namespace Notation

/-! ## Blanks around the tokens -/

theorem isBlank_ne_parenthesis {c : Char} (h : isBlank c) : c ≠ '(' ∧ c ≠ ')' := by
  constructor
  · rintro rfl
    revert h
    decide
  · rintro rfl
    revert h
    decide

theorem ends_blanks (h : ∀ c ∈ after, isBlank c) : Ends after := by
  cases after with
  | nil => exact ends_nil
  | cons c rest =>
      have hc := h c List.mem_cons_self
      exact ends_cons (by simp [isWordChar, hc]) (isBlank_ne_parenthesis hc).1

theorem tokensFrom_blanks_append (h : ∀ c ∈ before, isBlank c) (position : Nat) (text : Text) :
    tokensFrom position (before ++ text) = tokensFrom (position + before.length) text := by
  induction before generalizing position with
  | nil => rfl
  | cons c rest ih =>
      rw [List.cons_append, tokensFrom_of_isBlank (h c List.mem_cons_self),
        ih fun d hd ↦ h d (List.mem_cons_of_mem c hd), List.length_cons, Nat.add_right_comm,
        Nat.add_assoc]

theorem Lexed.tokensFrom_append_blanks {lexemes : List Lexeme} (h : Lexed text lexemes)
    (hafter : ∀ c ∈ after, isBlank c) (position : Nat) :
    tokensFrom position (text ++ after) = tokensFrom position text := by
  induction h generalizing position with
  | nil =>
      have hblanks := tokensFrom_blanks_append hafter position []
      rw [List.append_nil] at hblanks
      rw [List.nil_append, hblanks, tokensFrom, tokensFrom]
  | blank hblank _ ih =>
      rw [List.cons_append, tokensFrom_of_isBlank hblank, tokensFrom_of_isBlank hblank, ih]
  | opening _ ih => rw [List.cons_append, tokensFrom_opening, tokensFrom_opening, ih]
  | closing _ ih => rw [List.cons_append, tokensFrom_closing, tokensFrom_closing, ih]
  | run hrun ends _ ih =>
      have hclosing : ')' ∉ after := fun hmem ↦ (isBlank_ne_parenthesis (hafter _ hmem)).2 rfl
      have hends := ends.append (ends_blanks hafter) hclosing
      rw [List.append_assoc, tokensFrom_run hrun hends, tokensFrom_run hrun ends, ih]
  | call hrun hpart _ ih =>
      rw [List.append_assoc, tokensFrom_call hrun hpart, tokensFrom_call hrun hpart, ih]

theorem Lexed.tokensFrom_add {lexemes : List Lexeme} (h : Lexed text lexemes) (n position : Nat) :
    tokensFrom (position + n) text = (tokensFrom position text).map (Token.moved n) := by
  induction h generalizing position with
  | nil => rw [tokensFrom, tokensFrom, List.map_nil]
  | blank hblank _ ih =>
      rw [tokensFrom_of_isBlank hblank, tokensFrom_of_isBlank hblank, Nat.add_right_comm, ih]
  | opening _ ih =>
      rw [tokensFrom_opening, tokensFrom_opening, Nat.add_right_comm, ih]
      rfl
  | closing _ ih =>
      rw [tokensFrom_closing, tokensFrom_closing, Nat.add_right_comm, ih]
      rfl
  | run hrun ends _ ih =>
      rw [tokensFrom_run hrun ends, tokensFrom_run hrun ends, Nat.add_right_comm, ih]
      rfl
  | call hrun hpart _ ih =>
      rw [tokensFrom_call hrun hpart, tokensFrom_call hrun hpart, Nat.add_right_comm, ih]
      rfl

theorem tokens_padded (hbefore : ∀ c ∈ before, isBlank c) (hafter : ∀ c ∈ after, isBlank c)
    (text : Text) :
    tokens (before ++ text ++ after) = (tokens text).map (Token.moved before.length) := by
  have hlexed := lexed_tokensFrom 0 text
  rw [tokens, tokens, List.append_assoc, tokensFrom_blanks_append hbefore,
    hlexed.tokensFrom_append_blanks hafter, hlexed.tokensFrom_add]

/-- Blanks around a text change nothing of what is read, and move the fault of a text that is
rejected. -/
theorem readPlan_padded (hbefore : ∀ c ∈ before, isBlank c) (hafter : ∀ c ∈ after, isBlank c)
    (limits : Limits) (text : Text) :
    Moves before.length Eq (readPlan limits text) (readPlan limits (before ++ text ++ after)) := by
  rw [readPlan, readPlan, tokens_padded hbefore hafter]
  have hrun : Moves before.length (fun r r' ↦ r' = r.moved before.length)
      ((tokens text).foldlM (Reader.read limits) ⟨Plan.empty, .outside⟩)
      (((tokens text).map (Token.moved before.length)).foldlM (Reader.read limits)
        ⟨Plan.empty, .outside⟩) := by
    refine .foldlM rfl fun t r r' h ↦ ?_
    rw [h]
    exact moves_read r
  refine hrun.bind ?_
  rintro r _ rfl
  exact moves_finish (stripped_padded hbefore hafter text)

/-! ## Blanks between two tokens -/

/-- The text closes a parenthesis that stands open in front of it. -/
def Closes (text : Text) : Prop :=
  ∃ inner rest, text = inner ++ ')' :: rest ∧ ∀ c ∈ inner, ¬isParenthesis c

theorem closes_cons {c : Char} : Closes (c :: text) ↔ c = ')' ∨ ¬isParenthesis c ∧ Closes text := by
  constructor
  · rintro ⟨inner, rest, heq, hinner⟩
    cases inner with
    | nil => exact .inl (List.cons.inj heq).1
    | cons d others =>
        obtain ⟨rfl, rfl⟩ := List.cons.inj heq
        obtain ⟨hc, hothers⟩ := List.forall_mem_cons.1 hinner
        exact .inr ⟨hc, others, rest, rfl, hothers⟩
  · rintro (rfl | ⟨hc, inner, rest, rfl, hinner⟩)
    · exact ⟨[], text, rfl, by simp⟩
    · exact ⟨c :: inner, rest, rfl, List.forall_mem_cons.2 ⟨hc, hinner⟩⟩

theorem closes_append_congr {rest rest' : Text} (h : Closes rest ↔ Closes rest') (text : Text) :
    Closes (text ++ rest) ↔ Closes (text ++ rest') := by
  induction text with
  | nil => exact h
  | cons c others ih => rw [List.cons_append, List.cons_append, closes_cons, closes_cons, ih]

theorem closes_blanks_append (h : ∀ c ∈ before, isBlank c) (text : Text) :
    Closes (before ++ text) ↔ Closes text := by
  induction before with
  | nil => rfl
  | cons c rest ih =>
      obtain ⟨hc, hrest⟩ := List.forall_mem_cons.1 h
      rw [List.cons_append, closes_cons, ih hrest, or_iff_right (isBlank_ne_parenthesis hc).2,
        and_iff_right (not_isParenthesis_of_isBlank hc)]

theorem ends_iff :
    Ends text ↔ Stops isWordChar text ∧ ∀ rest, text = '(' :: rest → ¬Closes rest := by
  constructor
  · intro h
    refine ⟨h.stops, ?_⟩
    rintro _ rfl ⟨inner, rest, rfl, hinner⟩
    exact h.no_part _ rest ⟨inner, rfl, hinner⟩ (by simp)
  · rintro ⟨hstops, hopen⟩
    refine ⟨hstops, ?_⟩
    rintro _ rest ⟨inner, rfl, hinner⟩ rfl
    exact hopen _ (by simp) ⟨inner, rest, rfl, hinner⟩

/-- A run of blanks in the text that no token reaches into. -/
structure IsGap (front gap back : Text) : Prop where
  ne_nil : gap ≠ []
  blank : ∀ c ∈ gap, isBlank c
  apart : ∀ t ∈ tokens (front ++ gap ++ back),
    t.position + t.text.length ≤ front.length ∨ (front ++ gap).length ≤ t.position

section Gap

variable {gap other back : Text}

/-- Where a word ends in front of some blanks, it ends in front of any others. -/
theorem Ends.with_gap (h : Ends (text ++ gap ++ back)) (hgap : ∀ c ∈ gap, isBlank c)
    (hother : ∀ c ∈ other, isBlank c) (hne : other ≠ []) : Ends (text ++ other ++ back) := by
  cases text with
  | nil =>
      obtain ⟨c, others, rfl⟩ := List.exists_cons_of_ne_nil hne
      have hc := hother c List.mem_cons_self
      exact ends_cons (by simp [isWordChar, hc]) (isBlank_ne_parenthesis hc).1
  | cons c rest =>
      have hcloses : Closes (rest ++ gap ++ back) ↔ Closes (rest ++ other ++ back) := by
        rw [List.append_assoc, List.append_assoc]
        apply closes_append_congr
        rw [closes_blanks_append hgap, closes_blanks_append hother]
      obtain ⟨hstops, hopen⟩ := ends_iff.1 h
      refine ends_iff.2 ⟨stops_cons.2 (stops_cons.1 hstops), ?_⟩
      rintro tail htail hclosed
      obtain ⟨rfl, rfl⟩ := List.cons.inj htail
      exact hopen _ rfl (hcloses.2 hclosed)

theorem lexed_blanks_append_iff {lexemes : List Lexeme} (h : ∀ c ∈ before, isBlank c) :
    Lexed (before ++ text) lexemes ↔ Lexed text lexemes := by
  have hsame := (lexed_tokensFrom 0 text).map_tokensFrom before.length
  rw [lexed_iff, lexed_iff, tokens, tokensFrom_blanks_append h, Nat.zero_add, hsame]
  rfl

/-- A word at the beginning that is not too long stands in front of the gap. -/
theorem exists_eq_append_of_word {word rest front : Text}
    (htext : word ++ rest = front ++ gap ++ back) (hlength : word.length ≤ front.length) :
    ∃ others, front = word ++ others ∧ rest = others ++ gap ++ back := by
  rw [List.append_assoc] at htext
  have hprefix : front <+: word ++ rest := htext ▸ List.prefix_append front _
  obtain ⟨others, rfl⟩ :=
    List.prefix_of_prefix_length_le (List.prefix_append word rest) hprefix hlength
  rw [List.append_assoc, List.append_cancel_left_eq] at htext
  exact ⟨others, rfl, by rw [htext, List.append_assoc]⟩

/-- With other blanks in the gap the text falls into the same words and parentheses. -/
theorem Lexed.with_gap {lexemes : List Lexeme} (h : Lexed text lexemes)
    (hgap : ∀ c ∈ gap, isBlank c) (hother : ∀ c ∈ other, isBlank c) (hne : other ≠ [])
    {front : Text} (htext : text = front ++ gap ++ back) {position border : Nat}
    (hborder : position + front.length = border)
    (hapart : ∀ t ∈ tokensFrom position text,
      t.position + t.text.length ≤ border ∨ border < t.position) :
    Lexed (front ++ other ++ back) lexemes := by
  have hbase {text : Text} {lexemes : List Lexeme} (h : Lexed text lexemes)
      (htext : text = [] ++ gap ++ back) : Lexed ([] ++ other ++ back) lexemes := by
    subst htext
    exact (lexed_blanks_append_iff hother).2 ((lexed_blanks_append_iff hgap).1 h)
  -- The gap begins in front of the first character, or else this character stays where it is.
  induction h generalizing front position with
  | nil =>
      cases front with
      | nil => exact hbase .nil htext
      | cons d others => cases htext
  | blank hblank next ih =>
      cases front with
      | nil => exact hbase (.blank hblank next) htext
      | cons d others =>
          obtain ⟨rfl, hrest⟩ := List.cons.inj htext
          rw [tokensFrom_of_isBlank hblank] at hapart
          exact .blank hblank (ih hrest (by rw [← hborder, List.length_cons]; omega) hapart)
  | opening next ih =>
      cases front with
      | nil => exact hbase (.opening next) htext
      | cons d others =>
          obtain ⟨rfl, hrest⟩ := List.cons.inj htext
          rw [tokensFrom_opening, List.forall_mem_cons] at hapart
          exact .opening (ih hrest (by rw [← hborder, List.length_cons]; omega) hapart.2)
  | closing next ih =>
      cases front with
      | nil => exact hbase (.closing next) htext
      | cons d others =>
          obtain ⟨rfl, hrest⟩ := List.cons.inj htext
          rw [tokensFrom_closing, List.forall_mem_cons] at hapart
          exact .closing (ih hrest (by rw [← hborder, List.length_cons]; omega) hapart.2)
  | run hrun ends next ih =>
      rw [tokensFrom_run hrun ends, List.forall_mem_cons] at hapart
      simp only at hapart
      obtain ⟨others, rfl, rfl⟩ := exists_eq_append_of_word htext (by omega)
      rw [List.append_assoc, List.append_assoc, ← List.append_assoc others]
      refine .run hrun (ends.with_gap hgap hother hne) (ih rfl ?_ hapart.2)
      rw [← hborder, List.length_append, Nat.add_assoc]
  | @call run part _ _ hrun hpart next ih =>
      rw [tokensFrom_call hrun hpart, List.forall_mem_cons] at hapart
      simp only at hapart
      obtain ⟨others, rfl, rfl⟩ := exists_eq_append_of_word htext (by omega)
      rw [List.append_assoc, List.append_assoc, ← List.append_assoc others]
      have hmore : position + (run ++ part).length + others.length = border := by
        rw [Nat.add_assoc, ← List.length_append, hborder]
      exact .call hrun hpart (ih rfl hmore hapart.2)

end Gap

/-! ## Meaning -/

/-- Blanks carry no meaning.  Those around a text move its fault, if it is rejected; they have no
influence on what is read, and so on what is rolled.  Nor do the blanks between two tokens, which
may be replaced by others. -/
theorem blanks_carry_no_meaning (hbefore : ∀ c ∈ before, isBlank c)
    (hafter : ∀ c ∈ after, isBlank c) (limits : Limits) (text : Text) :
    (∀ p, readPlan limits (before ++ text ++ after) = .ok p ↔ readPlan limits text = .ok p) ∧
      (∀ f, readPlan limits text = .error f →
        readPlan limits (before ++ text ++ after) = .error (f.moved before.length)) ∧
      (∀ p, (readPlan limits (stripped text) = .ok p ↔ readPlan limits text = .ok p) ∧
        (readPlan limits text = .ok p →
          ∀ autoTotal, roll limits (stripped text) autoTotal = roll limits text autoTotal)) ∧
      ∀ front gap other back p, text = front ++ gap ++ back → IsGap front gap back →
        other ≠ [] → (∀ c ∈ other, isBlank c) → readPlan limits text = .ok p →
          readPlan limits (front ++ other ++ back) = .ok p := by
  have hpadded := readPlan_padded hbefore hafter limits text
  refine ⟨fun p ↦ hpadded.ok_iff.symm, fun f hf ↦ hpadded.error_of hf, fun p ↦ ?_, ?_⟩
  · obtain ⟨start, rest, htext, hstart, hrest⟩ := padded_stripped text
    have hstripped := readPlan_padded hstart hrest limits (stripped text)
    rw [← htext] at hstripped
    refine ⟨hstripped.ok_iff, fun hp autoTotal ↦ ?_⟩
    rw [roll, roll, hp, hstripped.ok_iff.2 hp]
  · rintro front gap other back p rfl hgap hne hother hp
    obtain ⟨lexemes, hlexed, hwrites⟩ := readPlan_eq_ok_iff.1 hp
    have hpos := List.length_pos_iff.2 hgap.ne_nil
    refine readPlan_eq_ok_iff.2 ⟨lexemes, ?_, hwrites⟩
    refine hlexed.with_gap hgap.blank hother hne rfl (Nat.zero_add _) fun t ht ↦ ?_
    refine (hgap.apart t ht).imp_right fun h ↦ ?_
    rw [List.length_append] at h
    omega

theorem blanks_carry_no_meaning_around_sum :
    (∃ p, readPlan {} "2D6 sum".toList = .ok p ∧ readPlan {} " \n2D6 sum\t".toList = .ok p ∧
        readPlan {} "2D6\t\nsum".toList = .ok p) ∧
      readPlan {} " \n2D6 flop\t".toList =
        .error (.unreadable ⟨.unknownAction "flop".toList, "flop".toList, some 6⟩) := by
  have hbefore : ∀ c ∈ " \n".toList, isBlank c := List.all_eq_true.1 (by decide)
  have hafter : ∀ c ∈ "\t".toList, isBlank c := List.all_eq_true.1 (by decide)
  have hother : ∀ c ∈ "\t\n".toList, isBlank c := List.all_eq_true.1 (by decide)
  have hgap : IsGap "2D6".toList " ".toList "sum".toList :=
    ⟨by decide, List.all_eq_true.1 (by decide), by decide +kernel⟩
  have hread : readPlan {} "2D6 sum".toList =
      .ok ⟨[⟨2, .numbered 6 (by decide), none, [], by decide, by decide⟩], [], [.sum], false⟩ := by
    decide +kernel
  have hfails : readPlan {} "2D6 flop".toList =
      .error (.unreadable ⟨.unknownAction "flop".toList, "flop".toList, some 4⟩) := by
    decide +kernel
  obtain ⟨haround, _, _, hbetween⟩ :=
    blanks_carry_no_meaning hbefore hafter {} "2D6 sum".toList
  obtain ⟨_, hmoves, _⟩ := blanks_carry_no_meaning hbefore hafter {} "2D6 flop".toList
  refine ⟨⟨_, hread, (haround _).2 hread, ?_⟩, ?_⟩
  · exact hbetween _ _ "\t\n".toList _ _ rfl hgap (by decide) hother hread
  · refine (hmoves _ hfails).trans ?_
    decide +kernel

end Notation
end TabletopDice
