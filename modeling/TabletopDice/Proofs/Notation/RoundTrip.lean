import TabletopDice.Proofs.Notation.Printing

/-!
# Reading back what was written

The text of a plan falls into the words it was put together from.  If the plan was read from a
text, these words can be read, and the plan comes out again.  A single action is read back from its
text if it is one of the notation.
-/

namespace TabletopDice

open List (Forall₂)

namespace Notation

/-! ## Single words -/

section IsWord

variable {word : Text}

theorem isWordChar_of_isDigit {c : Char} (h : isDigit c) : isWordChar c := by
  simp [isWordChar, not_isBlank_of_isDigit h, not_isParenthesis_of_isDigit h]

theorem isWordChar_of_mem_text (k : Keyword) : ∀ c ∈ k.text, isWordChar c := by
  apply List.all_eq_true.1
  rcases k with _ | _ | _ | _ | _ | ⟨_ | _⟩ | ⟨_ | _⟩ <;> decide

theorem isRun_text (k : Keyword) : IsRun k.text := by
  refine ⟨?_, isWordChar_of_mem_text k⟩
  rcases k with _ | _ | _ | _ | _ | ⟨_ | _⟩ | ⟨_ | _⟩ <;> decide

theorem isWord_call (k : Keyword) {arguments : Text} (h : ∀ c ∈ arguments, ¬isParenthesis c) :
    IsWord (k.call arguments) := by
  refine .inr ⟨k.text, '(' :: arguments ++ [')'], isRun_text k, ⟨arguments, rfl, h⟩, ?_⟩
  rw [Keyword.call, List.append_assoc]

theorem WritesAction.isWord {a : Action} (h : WritesAction Readable word a) : IsWord word := by
  cases h with
  | multiply h =>
      refine .inl ⟨List.cons_ne_nil _ _, fun c hc ↦ ?_⟩
      rcases List.mem_cons.1 hc with rfl | hc
      · decide
      · exact isWordChar_of_isDigit ((isDigitRun_iff.1 h.1.1).2 c hc)
  | flip => exact .inl (isRun_text .flip)
  | sum => exact .inl (isRun_text .sum)
  | total => exact .inl (isRun_text .total)
  | reroll h | explode h => exact isWord_call _ h.not_isParenthesis
  | keep which h | rerollExtreme which h => exact isWord_call _ h.not_isParenthesis

theorem WritesDice.isWord {limits : Limits} {n : Nat} {d : Dice}
    (h : WritesDice Readable limits word n d) : IsWord word := by
  have hrun {run : Text} (h : ∀ c ∈ run, isDigit c) : ∀ c ∈ run, isWordChar c :=
    fun c hc ↦ isWordChar_of_isDigit (h c hc)
  refine .inl ⟨?_, fun c hc ↦ ?_⟩
  · cases h <;> simp
  cases h with
  | numbered hcount hmarker hsides =>
      rcases List.mem_append.1 hc with hc | hc
      · exact hrun hcount.isDigit c hc
      · rcases List.mem_cons.1 hc with rfl | hc
        · rcases hmarker with rfl | rfl <;> decide
        · exact hrun (isDigitRun_iff.1 hsides.1.1).2 c hc
  | constant h =>
      rcases List.mem_cons.1 hc with rfl | hc
      · decide
      · exact hrun (isDigitRun_iff.1 h.1.1).2 c hc
  | fudge hcount hmarker =>
      rcases List.mem_append.1 hc with hc | hc
      · exact hrun hcount.isDigit c hc
      · rw [List.mem_singleton.1 hc]
        rcases hmarker with rfl | rfl <;> decide

theorem isWordChar_of_isIdentifierChar {c : Char} (h : isIdentifierChar c) : isWordChar c := by
  have hrange : 48 ≤ c.toNat ∧ c.toNat ≤ 95 := by
    simp only [isIdentifierChar, isIdentifierStart, Bool.or_eq_true, Bool.and_eq_true,
      decide_eq_true_eq, beq_iff_eq, Char.le_def, UInt32.le_iff_toNat_le] at h
    rcases h with (⟨hlow, hhigh⟩ | ⟨hlow, hhigh⟩) | rfl
    · exact ⟨Nat.le_trans (by decide) hlow, Nat.le_trans hhigh (by decide)⟩
    · exact ⟨hlow, Nat.le_trans hhigh (by decide)⟩
    · decide
  have hblank : ¬isBlank c := by
    intro hblank
    obtain ⟨range, hmem, hin⟩ := List.any_eq_true.1 hblank
    have hapart : ∀ r ∈ blankRanges, r.2 < 48 ∨ 95 < r.1 := by decide
    have := hapart range hmem
    simp only [Bool.and_eq_true, decide_eq_true_eq] at hin
    omega
  have hparen : ¬isParenthesis c := not_isParenthesis_of (by decide) (by decide) h
  simp [isWordChar, hblank, hparen]

theorem isIdentifierChar_of_mem {name : Text} (h : isIdentifier name) :
    ∀ c ∈ name, isIdentifierChar c := by
  match name, h with
  | first :: second :: rest, h =>
      obtain ⟨hfirst, hrest⟩ := Bool.and_eq_true_iff.1 h
      intro c hc
      rcases List.mem_cons.1 hc with rfl | hc
      · simp [isIdentifierChar, hfirst]
      · exact List.all_eq_true.1 hrest c hc

theorem isWord_of_isIdentifier {name : Text} (h : isIdentifier name) : IsWord name := by
  refine .inl ⟨?_, fun c hc ↦ isWordChar_of_isIdentifierChar (isIdentifierChar_of_mem h c hc)⟩
  rintro rfl
  cases h

end IsWord

/-! ## Words one after the other -/

/-- The text falls into these words and parentheses, whatever comes behind it, as long as no word
goes on there. -/
def FallsInto (text : Text) (lexemes : List Lexeme) : Prop :=
  ∀ rest others, Ends rest → Lexed rest others → Lexed (text ++ rest) (lexemes ++ others)

theorem FallsInto.lexed {text : Text} {lexemes : List Lexeme} (h : FallsInto text lexemes) :
    Lexed text lexemes := by
  simpa using h [] [] ends_nil .nil

theorem IsWord.fallsInto {word : Text} (h : IsWord word) : FallsInto word [.word word] := by
  intro rest others hends hrest
  rcases h with hrun | ⟨run, part, hrun, hpart, rfl⟩
  · exact .run hrun hends hrest
  · exact .call hrun hpart hrest

theorem FallsInto.space {text text' : Text} {lexemes lexemes' : List Lexeme}
    (h : FallsInto text lexemes) (h' : FallsInto text' lexemes') :
    FallsInto (text ++ ' ' :: text') (lexemes ++ lexemes') := by
  intro rest others hends hrest
  rw [List.append_assoc, List.append_assoc, List.cons_append]
  apply h _ _ (ends_cons (by decide) (by decide))
  exact .blank (by decide) (h' rest others hends hrest)

theorem fallsInto_intercalate {texts : List Text} {lexemes : List (List Lexeme)}
    (h : Forall₂ FallsInto texts lexemes) :
    FallsInto ([' '].intercalate texts) lexemes.flatten := by
  induction h with
  | nil => exact fun rest others _ hrest ↦ hrest
  | @cons text part texts parts hfirst hmore ih =>
      cases hmore with
      | nil => simpa using hfirst
      | cons hsecond hmore =>
          rw [List.intercalate_cons_cons, List.append_assoc, List.singleton_append,
            List.flatten_cons]
          exact hfirst.space ih

/-- Parentheses around a text are two more tokens. -/
theorem FallsInto.group {text : Text} {lexemes : List Lexeme} (h : FallsInto text lexemes) :
    FallsInto ('(' :: text ++ [')']) (.opening :: lexemes ++ [.closing]) := by
  intro rest others _ hrest
  simp only [List.cons_append, List.append_assoc, List.nil_append]
  exact .opening (h _ _ (ends_cons (by decide) (by decide)) (.closing hrest))

end Notation

/-! ## Requests and plans -/

open Notation

/-- The words and parentheses of the written request. -/
def Request.lexemes (r : Request) : List Lexeme :=
  match r.identifier with
  | none => [.word r.rollText]
  | some name =>
      .opening :: .word name :: .word r.rollText ::
        (r.actions.map Action.text).map .word ++ [.closing]

def Request.allNumbers (r : Request) : List Int := r.numbers ++ r.actions.flatMap Action.numbers

/-- The numbers that the text of the plan writes out. -/
def Plan.numbers (p : Plan) : List Int :=
  p.requests.flatMap Request.allNumbers ++ p.actions.flatMap Action.numbers

namespace Notation

variable {limits : Limits} {text : Text} {p : Plan}

theorem readsAction_text {word : Text} {a : Action} (h : ReadsAction word a) :
    ReadsAction a.text a ∧ FallsInto a.text [.word a.text] ∧ ∀ n ∈ a.numbers, Writable n := by
  obtain ⟨htext, hwritable⟩ := writesAction_text h
  refine ⟨?_, htext.isWord.fallsInto, hwritable⟩
  rwa [ReadsAction, htext.isWord.withoutFinalBreak_eq]

theorem readsRolls_rollText {word : Text} {r : Request} (h : ReadsRolls limits word r) :
    ReadsRolls limits r.rollText r ∧ FallsInto r.rollText [.word r.rollText] ∧
      ∀ n ∈ r.numbers, Writable n := by
  obtain ⟨htext, hwritable⟩ := writesRolls_rollText h
  refine ⟨?_, htext.1.isWord.fallsInto, hwritable⟩
  rwa [ReadsRolls, htext.1.isWord.withoutFinalBreak_eq]

theorem readsActions_text {words : List Text} {actions : List Action}
    (h : Forall₂ ReadsAction words actions) :
    Forall₂ ReadsAction (actions.map Action.text) actions ∧
      Forall₂ FallsInto (actions.map Action.text) (actions.map fun a ↦ [.word a.text]) ∧
        ∀ n ∈ actions.flatMap Action.numbers, Writable n := by
  have hread : ∀ a ∈ actions, ∃ word, ReadsAction word a := fun a ha ↦
    (exists_left_of_mem h ha).imp fun _ ⟨_, hword⟩ ↦ hword
  refine ⟨?_, ?_, fun n hn ↦ ?_⟩
  · rw [List.forall₂_map_left_iff, List.forall₂_same]
    intro a ha
    obtain ⟨word, hword⟩ := hread a ha
    exact (readsAction_text hword).1
  · rw [List.forall₂_map_left_iff, List.forall₂_map_right_iff, List.forall₂_same]
    intro a ha
    obtain ⟨word, hword⟩ := hread a ha
    exact (readsAction_text hword).2.1
  · obtain ⟨a, ha, hn⟩ := List.mem_flatMap.1 hn
    obtain ⟨word, hword⟩ := hread a ha
    exact (readsAction_text hword).2.2 n hn

theorem flatten_words (actions : List Action) :
    (actions.map fun a ↦ [Lexeme.word a.text]).flatten = (actions.map Action.text).map .word := by
  rw [← List.flatMap_def, ← List.map_eq_flatMap, List.map_map]
  rfl

/-- A request that was read from some words is read from the words of its text. -/
theorem writesRequest_lexemes {part : List Lexeme} {r : Request}
    (h : WritesRequest (ReadsRolls limits) ReadsAction part r) :
    WritesRequest (ReadsRolls limits) ReadsAction r.lexemes r ∧
      FallsInto r.written r.lexemes ∧ ∀ n ∈ r.allNumbers, Writable n := by
  cases h with
  | plain hrolls hidentifier hactions =>
      obtain ⟨hread, hfalls, hwritable⟩ := readsRolls_rollText hrolls
      have hlexemes : r.lexemes = [.word r.rollText] := by rw [Request.lexemes, hidentifier]
      have hwritten : r.written = r.rollText := by
        simp only [Request.written, Request.text, hidentifier]
      rw [hlexemes, hwritten]
      refine ⟨.plain hread hidentifier hactions, hfalls, ?_⟩
      simpa [Request.allNumbers, hactions] using hwritable
  | @group name word words _ hrolls hidentifier hactions =>
      obtain ⟨hread, hfalls, hwritable⟩ := readsRolls_rollText hrolls
      obtain ⟨hactionsRead, hactionsFall, hactionsWritable⟩ := readsActions_text hactions
      have hlexemes : r.lexemes = .opening :: .word name :: .word r.rollText ::
          (r.actions.map Action.text).map .word ++ [.closing] := by
        rw [Request.lexemes, hidentifier]
      have hwritten : r.written =
          '(' :: [' '].intercalate ((name ++ ' ' :: r.rollText) :: r.actions.map Action.text) ++
            [')'] := by
        simp only [Request.written, Request.text, hidentifier]
      have hname := (isWord_of_isIdentifier (r.identifier_valid name hidentifier)).fallsInto
      have hinner := fallsInto_intercalate (.cons (hname.space hfalls) hactionsFall)
      rw [hlexemes, hwritten]
      refine ⟨.group hread hidentifier hactionsRead, ?_, fun n hn ↦ ?_⟩
      · simpa [flatten_words] using hinner.group
      · rcases List.mem_append.1 hn with hn | hn
        · exact hwritable n hn
        · exact hactionsWritable n hn

theorem filter_requests (hnumeric : ∀ q ∈ p.numeric, q.kind = .numeric)
    (hfudge : ∀ q ∈ p.fudge, q.kind = .fudge) :
    p.numeric = p.requests.filter (·.kind = .numeric) ∧
      p.fudge = p.requests.filter (·.kind = .fudge) := by
  rw [Plan.requests, List.filter_append, List.filter_append]
  constructor
  · have hself : p.numeric.filter (·.kind = .numeric) = p.numeric :=
      List.filter_eq_self.2 fun q hq ↦ by simp [hnumeric q hq]
    have hnone : p.fudge.filter (·.kind = .numeric) = [] :=
      List.filter_eq_nil_iff.2 fun q hq ↦ by simp [hfudge q hq]
    rw [hself, hnone, List.append_nil]
  · have hself : p.fudge.filter (·.kind = .fudge) = p.fudge :=
      List.filter_eq_self.2 fun q hq ↦ by simp [hfudge q hq]
    have hnone : p.numeric.filter (·.kind = .fudge) = [] :=
      List.filter_eq_nil_iff.2 fun q hq ↦ by simp [hnumeric q hq]
    rw [hself, hnone, List.nil_append]

/-- The words of a plan that was read from a text make up a text of the grammar. -/
theorem writesPlan_words {lexemes : List Lexeme}
    (h : WritesPlan (ReadsRolls limits) ReadsAction lexemes p) :
    (∃ others, FallsInto p.text others ∧ WritesPlan (ReadsRolls limits) ReadsAction others p) ∧
      ∀ n ∈ p.numbers, Writable n := by
  obtain ⟨hnumericKind, hfudgeKind⟩ := h.kind_eq
  obtain ⟨parts, words, requests, rfl, hrequests, hactions, hnumeric, hfudge⟩ := h
  obtain ⟨hread, hfall, hwritable⟩ := readsActions_text hactions
  have hmem : ∀ r ∈ p.requests, r ∈ requests := by
    intro r hr
    rw [Plan.requests, hnumeric, hfudge] at hr
    rcases List.mem_append.1 hr with hr | hr
    · exact (List.mem_filter.1 hr).1
    · exact (List.mem_filter.1 hr).1
  have hrequest : ∀ r ∈ p.requests, WritesRequest (ReadsRolls limits) ReadsAction r.lexemes r ∧
      FallsInto r.written r.lexemes ∧ ∀ n ∈ r.allNumbers, Writable n := by
    intro r hr
    obtain ⟨part, _, hpart⟩ := exists_left_of_mem hrequests (hmem r hr)
    exact writesRequest_lexemes hpart
  refine ⟨⟨(p.requests.map Request.lexemes).flatten ++ (p.actions.map Action.text).map .word ++
    if p.counts then [.word countWord] else [], ?_, ?_⟩, fun n hn ↦ ?_⟩
  · have hrequestsFall : Forall₂ FallsInto (p.requests.map Request.written)
        (p.requests.map Request.lexemes) := by
      rw [List.forall₂_map_left_iff, List.forall₂_map_right_iff, List.forall₂_same]
      exact fun r hr ↦ (hrequest r hr).2.1
    have hcount : Forall₂ FallsInto (if p.counts then [countWord] else [])
        (if p.counts then [[Lexeme.word countWord]] else []) := by
      split
      · have hword : IsWord countWord := .inl ⟨by decide, List.all_eq_true.1 (by decide)⟩
        exact .cons hword.fallsInto .nil
      · exact .nil
    have hall := fallsInto_intercalate
      (List.rel_append (List.rel_append hrequestsFall hfall) hcount)
    have hflat : (if p.counts then [[Lexeme.word countWord]] else []).flatten =
        if p.counts then [.word countWord] else [] := by
      split <;> rfl
    rw [List.flatten_append, List.flatten_append, flatten_words, hflat] at hall
    exact hall
  · obtain ⟨hnumeric', hfudge'⟩ := filter_requests hnumericKind hfudgeKind
    refine .intro _ _ p.requests rfl ?_ hread hnumeric' hfudge'
    rw [List.forall₂_map_left_iff, List.forall₂_same]
    exact fun r hr ↦ (hrequest r hr).1
  · rcases List.mem_append.1 hn with hn | hn
    · obtain ⟨r, hr, hn⟩ := List.mem_flatMap.1 hn
      exact (hrequest r hr).2.2 n hn
    · exact hwritable n hn

/-- The text of a plan that was read can be written, and reading it gives the plan again. -/
theorem readPlan_text (h : readPlan limits text = .ok p) :
    (∀ n ∈ p.numbers, Writable n) ∧ readPlan limits p.text = .ok p := by
  obtain ⟨lexemes, _, hwrites, hne⟩ := readPlan_eq_ok_iff.1 h
  obtain ⟨⟨others, hfalls, hothers⟩, hwritable⟩ := writesPlan_words hwrites
  exact ⟨hwritable, readPlan_eq_ok_iff.2 ⟨others, hfalls.lexed, hothers, hne⟩⟩

theorem readPlan_text_of_group : ∃ p,
    readPlan {} "+007 f (AB d6 reroll( 2 ,1)) keep-best( 1) count".toList = .ok p ∧
      p.text = "+7 (AB 1D6 reroll(1,2)) 1F keep-best(1) count".toList ∧
        (∀ n ∈ p.numbers, Writable n) ∧ readPlan {} p.text = .ok p := by
  have hread : readPlan {} "+007 f (AB d6 reroll( 2 ,1)) keep-best( 1) count".toList = .ok
      ⟨[⟨1, .const (.number 7), none, [], by decide, by decide⟩,
        ⟨1, .numbered 6 (by decide), some "AB".toList,
          [.reroll .numeric (.ofList [.number 2, .number 1])], by decide, by decide⟩],
        [⟨1, .fudge, none, [], by decide, by decide⟩], [.keep .best 1], true⟩ := by
    decide +kernel
  exact ⟨_, hread, by decide, readPlan_text hread⟩

/-! ## Single actions -/

theorem readAction_text_iff (a : Action) (position : Option Int) :
    readAction a.text position = .ok a ↔ a.InNotation ∧ ∀ n ∈ a.numbers, Writable n := by
  rw [readAction_eq_ok_iff]
  constructor
  · intro h
    exact ⟨h.inNotation, h.writable⟩
  · rintro ⟨hin, hwritable⟩
    have htext := writesAction_of_inNotation hin hwritable
    rwa [htext.isWord.withoutFinalBreak_eq]

/-- An action is read back from its text exactly if it is an action of the notation, and its numbers
can be written.  All actions that are read from words are such. -/
theorem action_read_back (a : Action) (position : Option Int) :
    (readAction a.text position = .ok a ↔ a.InNotation ∧ ∀ n ∈ a.numbers, Writable n) ∧
      ∀ word position', readAction word position' = .ok a →
        (∀ n ∈ a.numbers, Writable n) ∧ readAction a.text position = .ok a := by
  refine ⟨readAction_text_iff a position, fun word position' h ↦ ?_⟩
  have hwrites := readAction_eq_ok_iff.1 h
  have htext := (readAction_text_iff a position).2 ⟨hwrites.inNotation, hwrites.writable⟩
  exact ⟨hwrites.writable, htext⟩

theorem action_read_back_of_reroll :
    ∃ a, readAction "reroll( 2,01 ,2)".toList none = .ok a ∧ a.text = "reroll(1,2)".toList ∧
      a.InNotation ∧ (∀ n ∈ a.numbers, Writable n) ∧ readAction a.text (some 4) = .ok a := by
  have hread : readAction "reroll( 2,01 ,2)".toList none =
      .ok (.reroll .numeric (.ofList [.number 2, .number 1])) := by
    decide +kernel
  obtain ⟨hiff, hback⟩ := action_read_back _ (some 4)
  obtain ⟨hwritable, htext⟩ := hback _ _ hread
  exact ⟨_, hread, by decide, (hiff.1 htext).1, hwritable, htext⟩

/-- A face among the triggers for numbers is read as a trigger for fudge dice. -/
example : readAction (Action.explode .numeric (.ofList [.face .plus])).text none =
    .ok (.explode .fudge (.ofList [.face .plus])) := by
  decide +kernel

end Notation
end TabletopDice
