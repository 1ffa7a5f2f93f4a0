import TabletopDice.Proofs.Notation.Lexing

/-!
# Where the tokens of a text lie

The position of a token is the number of characters in front of it, so that its text is found there.
-/

namespace TabletopDice.Notation

/-- The text of the token is a piece of this text, at the token's position. -/
def Token.LiesIn (t : Token) (text : Text) : Prop :=
  ∃ before after, text = before ++ t.text ++ after ∧ t.position = before.length

variable {text : Text} {t : Token}

theorem Token.LiesIn.isInfix (h : t.LiesIn text) : t.text <:+: text := by
  obtain ⟨before, after, rfl, _⟩ := h
  exact ⟨before, after, rfl⟩

theorem Token.LiesIn.position_le (h : t.LiesIn text) : t.position ≤ text.length := by
  obtain ⟨before, after, rfl, hposition⟩ := h
  rw [hposition, List.append_assoc, List.length_append]
  exact Nat.le_add_right _ _

/-- The tokens of a text lie in it, whatever stands in front. -/
def LieIn (text : Text) : Prop :=
  ∀ before : Text, ∀ t ∈ tokensFrom before.length text, t.LiesIn (before ++ text)

/-- What has been passed over belongs to the text in front of the rest. -/
theorem LieIn.behind {rest : Text} (h : LieIn rest) (piece before : Text) :
    ∀ t ∈ tokensFrom (before.length + piece.length) rest,
      t.LiesIn (before ++ (piece ++ rest)) := by
  intro t ht
  rw [← List.append_assoc]
  exact h (before ++ piece) t (by rwa [List.length_append])

theorem Lexed.lieIn {lexemes : List Lexeme} (h : Lexed text lexemes) : LieIn text := by
  induction h with
  | nil => simp [LieIn, tokensFrom]
  | @blank c rest _ hblank _ ih =>
      intro before
      rw [tokensFrom_of_isBlank hblank]
      exact ih.behind [c] before
  | @opening rest _ _ ih =>
      intro before
      rw [tokensFrom_opening, List.forall_mem_cons]
      exact ⟨⟨before, rest, by simp, rfl⟩, ih.behind ['('] before⟩
  | @closing rest _ _ ih =>
      intro before
      rw [tokensFrom_closing, List.forall_mem_cons]
      exact ⟨⟨before, rest, by simp, rfl⟩, ih.behind [')'] before⟩
  | @run run rest _ hrun ends _ ih =>
      intro before
      rw [tokensFrom_run hrun ends, List.forall_mem_cons]
      exact ⟨⟨before, rest, by simp, rfl⟩, ih.behind run before⟩
  | @call run part rest _ hrun hpart _ ih =>
      intro before
      rw [tokensFrom_call hrun hpart, List.forall_mem_cons]
      exact ⟨⟨before, rest, by simp, rfl⟩, ih.behind (run ++ part) before⟩

theorem liesIn_of_mem_tokens (h : t ∈ tokens text) : t.LiesIn text :=
  (lexed_tokensFrom 0 text).lieIn [] t h

/-- The character with this number belongs to the token. -/
def Token.Covers (t : Token) (i : Nat) : Prop :=
  t.position ≤ i ∧ i < t.position + t.text.length

theorem Token.LiesIn.getElem?_add (h : t.LiesIn text) {i : Nat} (hi : i < t.text.length) :
    text[t.position + i]? = t.text[i]? := by
  obtain ⟨before, after, rfl, hposition⟩ := h
  rw [hposition, List.append_assoc, List.getElem?_append_right (Nat.le_add_right _ _),
    Nat.add_sub_cancel_left, List.getElem?_append_left hi]

/-! ## One token behind the other -/

/-- The second token begins where the first one ends, or further on. -/
def Token.Precedes (t u : Token) : Prop := t.position + t.text.length ≤ u.position

/-- Tokens of at least one character, each behind the one before, and the first not in front of
the position. -/
structure Ordered (position : Nat) (ts : List Token) : Prop where
  ne_nil : ∀ t ∈ ts, t.text ≠ []
  le_position : ∀ t ∈ ts, position ≤ t.position
  pairwise : ts.Pairwise Token.Precedes

theorem ordered_nil (position : Nat) : Ordered position [] := ⟨by simp, by simp, .nil⟩

variable {position : Nat} {ts : List Token}

theorem Ordered.mono {n : Nat} (h : Ordered position ts) (hn : n ≤ position) : Ordered n ts :=
  ⟨h.ne_nil, fun t ht ↦ hn.trans (h.le_position t ht), h.pairwise⟩

theorem Ordered.cons {shape : Token.Shape} {word : Text} (hne : word ≠ [])
    (h : Ordered (position + word.length) ts) :
    Ordered position (⟨shape, word, position⟩ :: ts) :=
  ⟨List.forall_mem_cons.2 ⟨hne, h.ne_nil⟩,
    List.forall_mem_cons.2 ⟨le_rfl, (h.mono (Nat.le_add_right _ _)).le_position⟩,
    .cons h.le_position h.pairwise⟩

theorem Lexed.ordered {lexemes : List Lexeme} (h : Lexed text lexemes) (position : Nat) :
    Ordered position (tokensFrom position text) := by
  induction h generalizing position with
  | nil =>
      rw [tokensFrom]
      exact ordered_nil position
  | blank hblank _ ih =>
      rw [tokensFrom_of_isBlank hblank]
      exact (ih _).mono (Nat.le_succ position)
  | opening _ ih =>
      rw [tokensFrom_opening]
      exact .cons (List.cons_ne_nil _ _) (ih _)
  | closing _ ih =>
      rw [tokensFrom_closing]
      exact .cons (List.cons_ne_nil _ _) (ih _)
  | run hrun ends _ ih =>
      rw [tokensFrom_run hrun ends]
      exact .cons hrun.1 (ih _)
  | call hrun hpart _ ih =>
      rw [tokensFrom_call hrun hpart]
      exact .cons (by simp [hrun.1]) (ih _)

theorem ordered_tokens (text : Text) : Ordered 0 (tokens text) :=
  (lexed_tokensFrom 0 text).ordered 0

theorem Ordered.nodup (h : Ordered position ts) : ts.Nodup := by
  refine h.pairwise.imp_of_mem fun {t u} ht _ hprecedes heq ↦ ?_
  have hpos := List.length_pos_iff.2 (h.ne_nil t ht)
  rw [Token.Precedes, heq] at hprecedes
  rw [heq] at hpos
  omega

theorem Token.Precedes.not_covers {u : Token} {i : Nat} (h : t.Precedes u) (ht : t.Covers i) :
    ¬u.Covers i := by
  rintro ⟨hposition, _⟩
  exact Nat.not_lt_of_le (h.trans hposition) ht.2

/-- No character belongs to two tokens. -/
theorem Ordered.eq_of_covers {u : Token} {i : Nat} (h : Ordered position ts) (ht : t ∈ ts)
    (hu : u ∈ ts) (hti : t.Covers i) (hui : u.Covers i) : t = u := by
  have hone : ts.Pairwise fun t u ↦ t.Covers i → u.Covers i → t = u :=
    h.pairwise.imp fun hprecedes hti hui ↦ (hprecedes.not_covers hti hui).elim
  have hother : ts.Pairwise fun u t ↦ t.Covers i → u.Covers i → t = u :=
    h.pairwise.imp fun hprecedes hti hui ↦ (hprecedes.not_covers hui hti).elim
  exact hone.forall_of_forall_of_flip (fun _ _ _ _ ↦ rfl) hother ht hu hti hui

end TabletopDice.Notation
