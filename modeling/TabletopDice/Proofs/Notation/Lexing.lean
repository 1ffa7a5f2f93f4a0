import Mathlib.Data.List.Basic
import TabletopDice.Notation.Token
import TabletopDice.Proofs.Text.Span

/-!
# What the tokens of a text are

`Lexed` says, without a word about how a text is read, into which words and parentheses it falls.
The words are the longest ones, so that a text has exactly one such list, which is that of its
tokens.
-/

namespace TabletopDice.Notation

/-- A token without its position. -/
inductive Lexeme where
  | opening
  | closing
  | word (text : Text)
  deriving DecidableEq

def Token.lexeme (t : Token) : Lexeme :=
  match t.shape with
  | .opening => .opening
  | .closing => .closing
  | .word => .word t.text

theorem lexeme_eq_opening_iff {t : Token} : t.lexeme = .opening ↔ t.shape = .opening := by
  cases hshape : t.shape <;> simp [Token.lexeme, hshape]

theorem lexeme_eq_closing_iff {t : Token} : t.lexeme = .closing ↔ t.shape = .closing := by
  cases hshape : t.shape <;> simp [Token.lexeme, hshape]

theorem lexeme_eq_word_iff {t : Token} {word : Text} :
    t.lexeme = .word word ↔ t.shape = .word ∧ t.text = word := by
  cases hshape : t.shape <;> simp [Token.lexeme, hshape]

/-- A nonempty run of characters that are neither blank nor parentheses. -/
def IsRun (run : Text) : Prop := run ≠ [] ∧ ∀ c ∈ run, isWordChar c

/-- A part in parentheses without further parentheses in it. -/
def IsPart (part : Text) : Prop :=
  ∃ inner, part = '(' :: inner ++ [')'] ∧ ∀ c ∈ inner, ¬isParenthesis c

/-- A word that begins in front of the text ends there: the text goes on neither with a character of
a word nor with a part in parentheses. -/
structure Ends (rest : Text) : Prop where
  stops : Stops isWordChar rest
  no_part : ∀ part after, IsPart part → rest ≠ part ++ after

theorem ends_cons {c : Char} {rest : Text} (hword : ¬isWordChar c) (hopening : c ≠ '(') :
    Ends (c :: rest) := by
  refine ⟨stops_cons.2 hword, ?_⟩
  rintro _ after ⟨inner, rfl, _⟩ heq
  exact hopening (List.cons.inj heq).1

theorem ends_nil : Ends [] := by
  refine ⟨stops_nil, ?_⟩
  rintro _ after ⟨inner, rfl, _⟩ heq
  cases heq

inductive Lexed : Text → List Lexeme → Prop where
  | nil : Lexed [] []
  | blank {c : Char} {rest : Text} {lexemes : List Lexeme} (h : isBlank c)
      (next : Lexed rest lexemes) : Lexed (c :: rest) lexemes
  | opening {rest : Text} {lexemes : List Lexeme} (next : Lexed rest lexemes) :
      Lexed ('(' :: rest) (.opening :: lexemes)
  | closing {rest : Text} {lexemes : List Lexeme} (next : Lexed rest lexemes) :
      Lexed (')' :: rest) (.closing :: lexemes)
  | run {run rest : Text} {lexemes : List Lexeme} (h : IsRun run) (ends : Ends rest)
      (next : Lexed rest lexemes) : Lexed (run ++ rest) (.word run :: lexemes)
  | call {run part rest : Text} {lexemes : List Lexeme} (h : IsRun run) (hpart : IsPart part)
      (next : Lexed rest lexemes) :
      Lexed (run ++ part ++ rest) (.word (run ++ part) :: lexemes)

/-- A text that is a single word. -/
def IsWord (word : Text) : Prop :=
  IsRun word ∨ ∃ run part, IsRun run ∧ IsPart part ∧ word = run ++ part

/-! ## Splitting off a word -/

variable {text run part rest : Text} {lexemes : List Lexeme}

theorem stops_of_isPart (h : IsPart part) : Stops isWordChar (part ++ rest) := by
  obtain ⟨inner, rfl, _⟩ := h
  exact stops_cons.2 (by decide)

theorem splitArguments_of_isPart (h : IsPart part) :
    splitArguments (part ++ rest) = (part, rest) := by
  obtain ⟨inner, rfl, hinner⟩ := h
  have hin : ∀ c ∈ inner, !isParenthesis c := fun c hc ↦ by simpa using hinner c hc
  have hstop : Stops (fun c ↦ !isParenthesis c) (')' :: rest) := stops_cons.2 (by decide)
  have hspan : '(' :: inner ++ [')'] ++ rest = '(' :: (inner ++ ')' :: rest) := by simp
  rw [hspan, splitArguments, dropWhile_span hin hstop, takeWhile_span hin hstop]
  rfl

theorem splitArguments_of_no_part (h : ∀ part after, IsPart part → rest ≠ part ++ after) :
    splitArguments rest = ([], rest) := by
  unfold splitArguments
  split
  · next rest =>
      split
      · next after hdrop =>
          have hinner : ∀ c ∈ rest.takeWhile fun c ↦ !isParenthesis c, ¬isParenthesis c :=
            fun c hc ↦ by simpa using List.mem_takeWhile_imp hc
          refine (h _ after ⟨_, rfl, hinner⟩ ?_).elim
          have hsplit := List.takeWhile_append_dropWhile
            (p := fun c ↦ !isParenthesis c) (l := rest)
          rw [hdrop] at hsplit
          simpa using hsplit.symm
      · rfl
  · rfl

theorem splitWord_of_isRun (h : IsRun run) (hstop : Stops isWordChar rest) :
    splitWord (run ++ rest) = (run ++ (splitArguments rest).1, (splitArguments rest).2) := by
  rw [splitWord, dropWhile_span h.2 hstop, takeWhile_span h.2 hstop]

theorem tokensFrom_of_isRun (h : IsRun run) (hstop : Stops isWordChar rest) (position : Nat) :
    tokensFrom position (run ++ rest) =
      ⟨.word, run ++ (splitArguments rest).1, position⟩ ::
        tokensFrom (position + (run ++ (splitArguments rest).1).length)
          (splitArguments rest).2 := by
  have hsplit := splitWord_of_isRun h hstop
  obtain ⟨c, others, rfl⟩ := List.exists_cons_of_ne_nil h.1
  rw [List.cons_append] at hsplit ⊢
  rw [tokensFrom, dif_pos (h.2 c List.mem_cons_self), hsplit]

theorem tokensFrom_run (h : IsRun run) (ends : Ends rest) (position : Nat) :
    tokensFrom position (run ++ rest) =
      ⟨.word, run, position⟩ :: tokensFrom (position + run.length) rest := by
  rw [tokensFrom_of_isRun h ends.stops, splitArguments_of_no_part ends.no_part, List.append_nil]

theorem tokensFrom_call (h : IsRun run) (hpart : IsPart part) (position : Nat) :
    tokensFrom position (run ++ part ++ rest) =
      ⟨.word, run ++ part, position⟩ :: tokensFrom (position + (run ++ part).length) rest := by
  rw [List.append_assoc, tokensFrom_of_isRun h (stops_of_isPart hpart),
    splitArguments_of_isPart hpart]

theorem isWordChar_or {c : Char} : isWordChar c ∨ isBlank c ∨ c = '(' ∨ c = ')' := by
  by_cases hblank : isBlank c
  · exact .inr (.inl hblank)
  · by_cases hparen : isParenthesis c
    · exact .inr (.inr (by simpa [isParenthesis] using hparen))
    · exact .inl (by simp [isWordChar, hblank, hparen])

theorem tokensFrom_of_isBlank {c : Char} (h : isBlank c) (position : Nat) :
    tokensFrom position (c :: rest) = tokensFrom (position + 1) rest := by
  have hopening : c ≠ '(' := by
    rintro rfl
    revert h
    decide
  have hclosing : c ≠ ')' := by
    rintro rfl
    revert h
    decide
  rw [tokensFrom, dif_neg (by simp [isWordChar, h]), if_neg hopening, if_neg hclosing]

theorem tokensFrom_opening (position : Nat) :
    tokensFrom position ('(' :: rest) =
      ⟨.opening, ['('], position⟩ :: tokensFrom (position + 1) rest := by
  rw [tokensFrom, dif_neg (by decide), if_pos rfl]

theorem tokensFrom_closing (position : Nat) :
    tokensFrom position (')' :: rest) =
      ⟨.closing, [')'], position⟩ :: tokensFrom (position + 1) rest := by
  rw [tokensFrom, dif_neg (by decide), if_neg (by decide), if_pos rfl]

/-! ## The tokens of a text -/

theorem Lexed.map_tokensFrom (h : Lexed text lexemes) (position : Nat) :
    (tokensFrom position text).map Token.lexeme = lexemes := by
  induction h generalizing position with
  | nil => simp [tokensFrom]
  | blank hblank _ ih => rw [tokensFrom_of_isBlank hblank, ih]
  | opening _ ih => rw [tokensFrom_opening, List.map_cons, ih]; rfl
  | closing _ ih => rw [tokensFrom_closing, List.map_cons, ih]; rfl
  | run hrun ends _ ih => rw [tokensFrom_run hrun ends, List.map_cons, ih]; rfl
  | call hrun hpart _ ih => rw [tokensFrom_call hrun hpart, List.map_cons, ih]; rfl

/-- The longest run that a text begins with. -/
theorem exists_isRun {c : Char} (h : isWordChar c) (rest : Text) :
    ∃ run tail, c :: rest = run ++ tail ∧ IsRun run ∧ Stops isWordChar tail := by
  refine ⟨(c :: rest).takeWhile isWordChar, (c :: rest).dropWhile isWordChar, ?_, ⟨?_, ?_⟩, ?_⟩
  · rw [List.takeWhile_append_dropWhile]
  · simp [h]
  · intro d hd
    exact List.mem_takeWhile_imp hd
  · exact stops_dropWhile

theorem lexed_tokensFrom (position : Nat) (text : Text) :
    Lexed text ((tokensFrom position text).map Token.lexeme) := by
  induction hlength : text.length using Nat.strongRecOn generalizing position text with
  | ind n ih =>
    subst hlength
    cases text with
    | nil => simpa [tokensFrom] using Lexed.nil
    | cons c rest =>
        have hrest := fun position ↦ ih rest.length (by simp) position rest rfl
        rcases @isWordChar_or c with hword | hblank | rfl | rfl
        · obtain ⟨run, tail, hsplit, hrun, hstop⟩ := exists_isRun hword rest
          have hpos : 0 < run.length := List.length_pos_iff.2 hrun.1
          rw [hsplit] at ih ⊢
          rw [List.length_append] at ih
          by_cases hpart : ∃ part after, IsPart part ∧ tail = part ++ after
          · obtain ⟨part, after, hpart, rfl⟩ := hpart
            rw [← List.append_assoc, tokensFrom_call hrun hpart]
            apply Lexed.call hrun hpart
            apply ih after.length _ _ _ rfl
            rw [List.length_append]
            omega
          · have hends : Ends tail := ⟨hstop, fun part after h heq ↦ hpart ⟨part, after, h, heq⟩⟩
            rw [tokensFrom_run hrun hends]
            exact .run hrun hends (ih tail.length (by omega) _ _ rfl)
        · rw [tokensFrom_of_isBlank hblank]
          exact .blank hblank (hrest _)
        · rw [tokensFrom_opening]
          exact .opening (hrest _)
        · rw [tokensFrom_closing]
          exact .closing (hrest _)

/-- A text falls into the lexemes of its tokens, and into no others. -/
theorem lexed_iff : Lexed text lexemes ↔ (tokens text).map Token.lexeme = lexemes := by
  constructor
  · intro h
    exact h.map_tokensFrom 0
  · rintro rfl
    exact lexed_tokensFrom 0 text

/-! ## A text behind another one -/

/-- What is added cannot close a parenthesis of the text in front of it. -/
theorem Ends.append (h : Ends text) (hrest : Ends rest) (hclosing : ')' ∉ rest) :
    Ends (text ++ rest) := by
  refine ⟨?_, fun part after hpart heq ↦ ?_⟩
  · cases text with
    | nil => exact hrest.stops
    | cons c others => exact stops_cons.2 (stops_cons.1 h.stops)
  · rcases List.append_eq_append_iff.1 heq with ⟨more, hsplit, hmore⟩ | ⟨more, hsplit, _⟩
    · by_cases hne : more = []
      · rw [hne, List.append_nil] at hsplit
        exact h.no_part part [] hpart (by rw [hsplit, List.append_nil])
      · obtain ⟨inner, hform, _⟩ := hpart
        have hlast := congrArg List.getLast? (hsplit.symm.trans hform)
        rw [List.getLast?_append_of_ne_nil _ hne,
          List.getLast?_append_of_ne_nil _ (List.cons_ne_nil _ _)] at hlast
        rw [hmore] at hclosing
        exact hclosing (List.mem_append_left after (List.mem_of_getLast? hlast))
    · exact h.no_part part more hpart hsplit

/-- The tokens of a text stay the same in front of a text that neither goes on with its last word
nor closes a parenthesis. -/
theorem Lexed.append {others : List Lexeme} (h : Lexed text lexemes) (hends : Ends rest)
    (hclosing : ')' ∉ rest) (hrest : Lexed rest others) :
    Lexed (text ++ rest) (lexemes ++ others) := by
  induction h with
  | nil => exact hrest
  | blank hblank _ ih => exact .blank hblank ih
  | opening _ ih => exact .opening ih
  | closing _ ih => exact .closing ih
  | run hrun ends _ ih =>
      rw [List.append_assoc]
      exact .run hrun (ends.append hends hclosing) ih
  | call hrun hpart _ ih =>
      rw [List.append_assoc]
      exact .call hrun hpart ih

end TabletopDice.Notation
