import TabletopDice.Proofs.Notation.Grammar

/-!
# Reading by the grammar

The reader accepts the texts of the grammar, those of its words that can be read taken for its dice
and its actions.  `Reads` is what the reader keeps to from one token to the next.
-/

namespace TabletopDice.Notation

open List (Forall₂)

/-! ## Which words go where -/

theorem head?_of_withoutFinalBreak {word rest : Text} {c : Char}
    (h : withoutFinalBreak word = c :: rest) : word.head? = some c := by
  unfold withoutFinalBreak at h
  split at h
  · cases word with
    | nil => cases h
    | cons d others =>
        cases others with
        | nil => cases h
        | cons e others =>
            cases h
            rfl
  · rw [h]
    rfl

/-- An action word begins with a keyword, unless it is a multiplication. -/
theorem WritesAction.begins {number : Text → Nat → Prop} {word : Text} {a : Action}
    (h : WritesAction number word a) :
    (∃ digits, word = 'x' :: digits) ∨ ∃ k rest, word = Keyword.text k ++ rest := by
  have hcall (k : Keyword) (text : Text) :
      ∃ k' rest, k.call text = Keyword.text k' ++ rest := by
    exact ⟨k, '(' :: text ++ [')'], by rw [Keyword.call, List.append_assoc]⟩
  cases h with
  | multiply h => exact .inl ⟨_, rfl⟩
  | flip => exact .inr ⟨.flip, [], rfl⟩
  | sum => exact .inr ⟨.sum, [], rfl⟩
  | total => exact .inr ⟨.total, [], rfl⟩
  | reroll h => exact .inr (hcall _ _)
  | explode h => exact .inr (hcall _ _)
  | keep which h => exact .inr (hcall _ _)
  | rerollExtreme which h => exact .inr (hcall _ _)

section Routing

variable {number : Text → Nat → Prop} {limits : Limits} {word : Text}

theorem ofText?_of_writesAction {a : Action}
    (h : WritesAction number (withoutFinalBreak word) a) : DiceWord.ofText? word = none := by
  unfold DiceWord.ofText?
  rcases h.begins with ⟨digits, hword⟩ | ⟨k, rest, hword⟩
  · rw [hword]
    rfl
  · rw [hword]
    rcases k with _ | _ | _ | _ | _ | ⟨_ | _⟩ | ⟨_ | _⟩ <;> rfl

/-- No action begins like the word for a count. -/
theorem WritesAction.exists_head {a : Action} (h : WritesAction number word a) :
    ∃ c rest, word = c :: rest ∧ isAsciiLowercase c ∧ c ≠ 'c' := by
  rcases h.begins with ⟨digits, rfl⟩ | ⟨k, rest, rfl⟩
  · exact ⟨'x', digits, rfl, by decide, by decide⟩
  · rcases k with _ | _ | _ | _ | _ | ⟨_ | _⟩ | ⟨_ | _⟩ <;>
      exact ⟨_, _, rfl, by decide, by decide⟩

theorem beginsLikeAction_of_writesAction {a : Action}
    (h : WritesAction number (withoutFinalBreak word) a) : beginsLikeAction word := by
  obtain ⟨c, rest, hword, hlower, _⟩ := h.exists_head
  rw [beginsLikeAction, head?_of_withoutFinalBreak hword, ofText?_of_writesAction h]
  simp [isLowercase, hlower]

theorem ne_countWord_of_writesAction {a : Action}
    (h : WritesAction number (withoutFinalBreak word) a) : word ≠ countWord := by
  rintro rfl
  obtain ⟨c, rest, hword, _, hne⟩ := h.exists_head
  have hhead := head?_of_withoutFinalBreak hword
  exact hne (Option.some.inj hhead).symm

theorem exists_ofText?_of_writesDice {n : Nat} {d : Dice}
    (h : WritesDice Readable limits (withoutFinalBreak word) n d) :
    ∃ w, DiceWord.ofText? word = some w := by
  generalize hword : withoutFinalBreak word = text at h
  cases h with
  | numbered hcount hmarker hsides =>
      exact ⟨_, DiceWord.ofText?_of_spelled hword (.numbered hcount.isDigit hmarker hsides.1.1)⟩
  | constant h => exact ⟨_, DiceWord.ofText?_of_spelled hword (.constant h.1.1)⟩
  | fudge hcount hmarker =>
      exact ⟨_, DiceWord.ofText?_of_spelled hword (.fudge hcount.isDigit hmarker)⟩

theorem not_beginsLikeAction_of_ofText? {w : DiceWord} (h : DiceWord.ofText? word = some w) :
    ¬beginsLikeAction word := by
  simp [beginsLikeAction, h]

theorem ne_countWord_of_ofText? {w : DiceWord} (h : DiceWord.ofText? word = some w) :
    word ≠ countWord := by
  rintro rfl
  have hnone : DiceWord.ofText? countWord = none := by decide
  rw [hnone] at h
  cases h

theorem not_beginsLikeAction_of_writesDice {n : Nat} {d : Dice}
    (h : WritesDice Readable limits (withoutFinalBreak word) n d) : ¬beginsLikeAction word := by
  obtain ⟨w, hw⟩ := exists_ofText?_of_writesDice h
  exact not_beginsLikeAction_of_ofText? hw

theorem ne_countWord_of_writesDice {n : Nat} {d : Dice}
    (h : WritesDice Readable limits (withoutFinalBreak word) n d) : word ≠ countWord := by
  obtain ⟨w, hw⟩ := exists_ofText?_of_writesDice h
  exact ne_countWord_of_ofText? hw

end Routing

/-! ## One token after the other -/

/-- The word is read as a request for these rolls. -/
def ReadsRolls (limits : Limits) (word : Text) (r : Request) : Prop :=
  WritesRolls Readable limits (withoutFinalBreak word) r

/-- The word is read as the action. -/
def ReadsAction (word : Text) (a : Action) : Prop :=
  WritesAction Readable (withoutFinalBreak word) a

section Invariant

variable (limits : Limits)

/-- What has been read, from the beginning of the text on, and where the reader stands then. -/
inductive Reads : List Lexeme → Reader → Prop where
  | outside {lexemes : List Lexeme} {p : Plan}
      (h : WritesPlan (ReadsRolls limits) ReadsAction lexemes p) : Reads lexemes ⟨p, .outside⟩
  | opened {lexemes : List Lexeme} {p : Plan} (opening : Token)
      (h : WritesPlan (ReadsRolls limits) ReadsAction lexemes p) (hactions : p.actions = [])
      (hcounts : ¬p.counts) : Reads (lexemes ++ [.opening]) ⟨p, .opened opening⟩
  | named {lexemes : List Lexeme} {p : Plan} (opening name : Token)
      (h : WritesPlan (ReadsRolls limits) ReadsAction lexemes p) (hactions : p.actions = [])
      (hcounts : ¬p.counts) :
      Reads (lexemes ++ [.opening, .word name.text]) ⟨p, .named opening name⟩
  | inside {lexemes : List Lexeme} {p : Plan} {words : List Text} {actions : List Action}
      (opening name dice : Token) (h : WritesPlan (ReadsRolls limits) ReadsAction lexemes p)
      (hactions : p.actions = []) (hcounts : ¬p.counts)
      (hwords : Forall₂ ReadsAction words actions) :
      Reads (lexemes ++ .opening :: .word name.text :: .word dice.text :: words.map .word)
        ⟨p, .inside opening name dice actions⟩

end Invariant

section Steps

variable {limits : Limits} {lexemes : List Lexeme} {p : Plan} {t : Token} {r r' : Reader}

theorem reads_of_readWord (h : WritesPlan (ReadsRolls limits) ReadsAction lexemes p)
    (hcounts : ¬p.counts) (hread : Reader.readWord limits p t = .ok r') :
    Reads limits (lexemes ++ [.word t.text]) r' := by
  unfold Reader.readWord at hread
  split at hread
  · next hcount =>
      cases hread
      rw [hcount]
      exact .outside (h.count hcounts)
  split at hread
  · obtain ⟨a, ha, heq⟩ := bind_eq_ok_iff.1 hread
    cases heq
    exact .outside (h.addAction hcounts (readAction_eq_ok_iff.1 ha))
  split at hread
  · exact (blame_ne_ok hread).elim
  · next hactions =>
      obtain ⟨q, hq, heq⟩ := bind_eq_ok_iff.1 hread
      cases heq
      obtain ⟨hrolls, hidentifier, hown⟩ := readRequest_eq_ok_iff.1 hq
      exact .outside (h.addRequest (not_not.1 hactions) hcounts (.plain hrolls hidentifier hown))

theorem reads_of_readOutside (h : WritesPlan (ReadsRolls limits) ReadsAction lexemes p)
    (hread : Reader.readOutside limits p t = .ok r') :
    Reads limits (lexemes ++ [t.lexeme]) r' := by
  unfold Reader.readOutside at hread
  split at hread
  · exact (blame_ne_ok hread).elim
  next hcounts =>
  split at hread
  · exact (blame_ne_ok hread).elim
  · next hshape =>
      split at hread
      · exact (blame_ne_ok hread).elim
      · next hactions =>
          cases hread
          rw [lexeme_eq_opening_iff.2 hshape]
          exact .opened t h (not_not.1 hactions) hcounts
  · next hshape =>
      rw [lexeme_eq_word_iff.2 ⟨hshape, rfl⟩]
      exact reads_of_readWord h hcounts hread

theorem reads_of_readInside {words : List Text} {actions : List Action} {opening name dice : Token}
    (h : WritesPlan (ReadsRolls limits) ReadsAction lexemes p) (hactions : p.actions = [])
    (hcounts : ¬p.counts) (hwords : Forall₂ ReadsAction words actions)
    (hread : Reader.readInside limits p opening name dice actions t = .ok r') :
    Reads limits
      (lexemes ++ .opening :: .word name.text :: .word dice.text :: words.map .word ++
        [t.lexeme]) r' := by
  unfold Reader.readInside at hread
  split at hread
  · next hshape =>
      obtain ⟨q, hq, heq⟩ := bind_eq_ok_iff.1 hread
      cases heq
      obtain ⟨hrolls, hidentifier, hown⟩ := readRequest_eq_ok_iff.1 hq
      rw [lexeme_eq_closing_iff.2 hshape, List.append_assoc]
      exact .outside (h.addRequest hactions hcounts (.group hrolls hidentifier (hown ▸ hwords)))
  · exact (blame_ne_ok hread).elim
  · next hshape =>
      split at hread
      · exact (blame_ne_ok hread).elim
      · obtain ⟨a, ha, heq⟩ := bind_eq_ok_iff.1 hread
        cases heq
        have hmore : Forall₂ ReadsAction (words ++ [t.text]) (actions ++ [a]) :=
          List.rel_append hwords (.cons (readAction_eq_ok_iff.1 ha) .nil)
        rw [lexeme_eq_word_iff.2 ⟨hshape, rfl⟩]
        simpa using Reads.inside opening name dice h hactions hcounts hmore

/-- A token that is read leads from one beginning of a plan to the next. -/
theorem Reads.step (h : Reads limits lexemes r)
    (hread : r.read limits t = .ok r') :
    Reads limits (lexemes ++ [t.lexeme]) r' := by
  cases h with
  | outside h => exact reads_of_readOutside h hread
  | opened opening h hactions hcounts =>
      simp only [Reader.read, Reader.readName] at hread
      split at hread
      · exact (blame_ne_ok hread).elim
      next hshape =>
      split at hread
      · cases hread
        rw [lexeme_eq_word_iff.2 ⟨not_not.1 hshape, rfl⟩]
        simpa using Reads.named opening t h hactions hcounts
      · exact (blame_ne_ok hread).elim
  | named opening name h hactions hcounts =>
      simp only [Reader.read, Reader.takeDice] at hread
      split at hread
      · next hshape =>
          cases hread
          rw [lexeme_eq_word_iff.2 ⟨hshape, rfl⟩]
          simpa using Reads.inside opening name t h hactions hcounts .nil
      · exact (blame_ne_ok hread).elim
  | inside opening name dice h hactions hcounts hwords =>
      exact reads_of_readInside h hactions hcounts hwords hread

/-- All tokens that have been read make up the beginning of a plan. -/
theorem Reads.run {ts : List Token} (h : Reads limits lexemes r)
    (hread : ts.foldlM (Reader.read limits) r = .ok r') :
    Reads limits (lexemes ++ ts.map Token.lexeme) r' := by
  induction ts generalizing lexemes r with
  | nil =>
      cases hread
      simpa using h
  | cons t rest ih =>
      rw [List.foldlM_cons] at hread
      obtain ⟨next, hnext, hrest⟩ := bind_eq_ok_iff.1 hread
      have hmore := ih (h.step hnext) hrest
      rwa [List.append_assoc] at hmore

end Steps

/-! ## All texts of the grammar -/

section Completeness

variable {limits : Limits} {p : Plan} {t : Token} {r : Request} {a : Action} {word : Text}
  {ts : List Token}

theorem read_action (hcounts : ¬p.counts) (ht : t.lexeme = .word word) (ha : ReadsAction word a) :
    Reader.read limits ⟨p, .outside⟩ t = .ok ⟨p.addAction a, .outside⟩ := by
  obtain ⟨hshape, rfl⟩ := lexeme_eq_word_iff.1 ht
  simp only [Reader.read, Reader.readOutside, Reader.readWord, hshape, if_neg hcounts,
    if_neg (ne_countWord_of_writesAction ha), if_pos (beginsLikeAction_of_writesAction ha),
    readAction_eq_ok_iff.2 ha, ok_bind]
  rfl

theorem read_dice (hactions : p.actions = []) (hcounts : ¬p.counts) (ht : t.lexeme = .word word)
    (hrolls : ReadsRolls limits word r) (hidentifier : r.identifier = none)
    (hown : r.actions = []) :
    Reader.read limits ⟨p, .outside⟩ t = .ok ⟨p.addRequest r, .outside⟩ := by
  obtain ⟨hshape, rfl⟩ := lexeme_eq_word_iff.1 ht
  simp only [Reader.read, Reader.readOutside, Reader.readWord, hshape, if_neg hcounts,
    if_neg (ne_countWord_of_writesDice hrolls.1),
    if_neg (not_beginsLikeAction_of_writesDice hrolls.1), if_neg (not_not.2 hactions),
    readRequest_eq_ok_iff.2 ⟨hrolls, hidentifier, hown⟩, ok_bind]
  rfl

theorem read_count (hcounts : ¬p.counts) (ht : t.lexeme = .word countWord) :
    Reader.read limits ⟨p, .outside⟩ t = .ok ⟨{ p with counts := true }, .outside⟩ := by
  obtain ⟨hshape, htext⟩ := lexeme_eq_word_iff.1 ht
  simp only [Reader.read, Reader.readOutside, Reader.readWord, hshape, if_neg hcounts, htext,
    if_true]
  rfl

theorem read_opening (hactions : p.actions = []) (hcounts : ¬p.counts)
    (ht : t.lexeme = .opening) :
    Reader.read limits ⟨p, .outside⟩ t = .ok ⟨p, .opened t⟩ := by
  have hshape := lexeme_eq_opening_iff.1 ht
  simp only [Reader.read, Reader.readOutside, hshape, if_neg hcounts, if_neg (not_not.2 hactions)]
  rfl

theorem read_name (opening : Token) (ht : t.lexeme = .word word) (hword : isIdentifier word) :
    Reader.read limits ⟨p, .opened opening⟩ t = .ok ⟨p, .named opening t⟩ := by
  obtain ⟨hshape, rfl⟩ := lexeme_eq_word_iff.1 ht
  simp only [Reader.read, Reader.readName, hshape, hword, if_true]
  rfl

theorem read_group_dice (opening name : Token) (ht : t.lexeme = .word word) :
    Reader.read limits ⟨p, .named opening name⟩ t = .ok ⟨p, .inside opening name t []⟩ := by
  obtain ⟨hshape, rfl⟩ := lexeme_eq_word_iff.1 ht
  simp only [Reader.read, Reader.takeDice, hshape, if_true]
  rfl

theorem read_own_action {actions : List Action} (opening name dice : Token)
    (ht : t.lexeme = .word word) (ha : ReadsAction word a) :
    Reader.read limits ⟨p, .inside opening name dice actions⟩ t =
      .ok ⟨p, .inside opening name dice (actions ++ [a])⟩ := by
  obtain ⟨hshape, rfl⟩ := lexeme_eq_word_iff.1 ht
  simp only [Reader.read, Reader.readInside, hshape, if_neg (ne_countWord_of_writesAction ha),
    readAction_eq_ok_iff.2 ha, ok_bind]
  rfl

theorem read_closing {name dice : Token} (opening : Token) (ht : t.lexeme = .closing)
    (hrolls : ReadsRolls limits dice.text r) (hidentifier : r.identifier = some name.text) :
    Reader.read limits ⟨p, .inside opening name dice r.actions⟩ t =
      .ok ⟨p.addRequest r, .outside⟩ := by
  have hshape := lexeme_eq_closing_iff.1 ht
  simp only [Reader.read, Reader.readInside, hshape,
    readRequest_eq_ok_iff.2 ⟨hrolls, hidentifier, rfl⟩, ok_bind]
  rfl

theorem foldlM_read_own_actions {words : List Text} {actions more : List Action}
    (opening name dice : Token) (hts : ts.map Token.lexeme = words.map .word)
    (hwords : Forall₂ ReadsAction words more) :
    ts.foldlM (Reader.read limits) ⟨p, .inside opening name dice actions⟩ =
      .ok ⟨p, .inside opening name dice (actions ++ more)⟩ := by
  induction hwords generalizing ts actions with
  | nil =>
      rw [List.map_eq_nil_iff.1 hts, List.append_nil]
      rfl
  | @cons word a words more ha _ ih =>
      obtain ⟨t, rest, rfl, ht, hrest⟩ := List.map_eq_cons_iff.1 hts
      rw [List.foldlM_cons, read_own_action opening name dice ht ha, ok_bind, ih hrest]
      simp

theorem foldlM_read_request {part : List Lexeme} (hactions : p.actions = [])
    (hcounts : ¬p.counts) (hts : ts.map Token.lexeme = part)
    (hr : WritesRequest (ReadsRolls limits) ReadsAction part r) :
    ts.foldlM (Reader.read limits) ⟨p, .outside⟩ = .ok ⟨p.addRequest r, .outside⟩ := by
  cases hr with
  | plain hrolls hidentifier hown =>
      obtain ⟨t, rest, rfl, ht, hrest⟩ := List.map_eq_cons_iff.1 hts
      rw [List.map_eq_nil_iff.1 hrest, List.foldlM_cons,
        read_dice hactions hcounts ht hrolls hidentifier hown]
      rfl
  | group hrolls hidentifier hown =>
      obtain ⟨opening, rest, rfl, hopening, hts⟩ := List.map_eq_cons_iff.1 hts
      obtain ⟨name, rest, rfl, hname, hts⟩ := List.map_eq_cons_iff.1 hts
      obtain ⟨dice, rest, rfl, hdice, hts⟩ := List.map_eq_cons_iff.1 hts
      obtain ⟨own, last, rfl, hown', hlast⟩ := List.map_eq_append_iff.1 hts
      obtain ⟨closing, rest, rfl, hclosing, hrest⟩ := List.map_eq_cons_iff.1 hlast
      have hvalid := r.identifier_valid _ hidentifier
      have hdiceText := (lexeme_eq_word_iff.1 hdice).2
      have hnameText := (lexeme_eq_word_iff.1 hname).2
      rw [List.map_eq_nil_iff.1 hrest, List.foldlM_cons, read_opening hactions hcounts hopening,
        ok_bind, List.foldlM_cons, read_name opening hname hvalid, ok_bind, List.foldlM_cons,
        read_group_dice opening name hdice, ok_bind, List.foldlM_append,
        foldlM_read_own_actions opening name dice hown' hown, ok_bind, List.nil_append,
        List.foldlM_cons, read_closing opening hclosing (hdiceText ▸ hrolls)
          (hnameText ▸ hidentifier)]
      rfl

theorem foldlM_read_requests {parts : List (List Lexeme)} {requests : List Request}
    (hactions : p.actions = []) (hcounts : ¬p.counts)
    (hts : ts.map Token.lexeme = parts.flatten)
    (hrequests : Forall₂ (WritesRequest (ReadsRolls limits) ReadsAction) parts requests) :
    ts.foldlM (Reader.read limits) ⟨p, .outside⟩ =
      .ok ⟨requests.foldl Plan.addRequest p, .outside⟩ := by
  induction hrequests generalizing ts p with
  | nil =>
      rw [List.map_eq_nil_iff.1 hts]
      rfl
  | cons hr _ ih =>
      obtain ⟨first, rest, rfl, hfirst, hrest⟩ := List.map_eq_append_iff.1 hts
      rw [List.foldlM_append, foldlM_read_request hactions hcounts hfirst hr, ok_bind,
        ih (by rwa [actions_addRequest]) (by rwa [counts_addRequest]) hrest]
      rfl

theorem foldlM_read_actions {words : List Text} {actions : List Action} (hcounts : ¬p.counts)
    (hts : ts.map Token.lexeme = words.map .word) (hwords : Forall₂ ReadsAction words actions) :
    ts.foldlM (Reader.read limits) ⟨p, .outside⟩ =
      .ok ⟨{ p with actions := p.actions ++ actions }, .outside⟩ := by
  induction hwords generalizing ts p with
  | nil =>
      rw [List.map_eq_nil_iff.1 hts, List.append_nil]
      rfl
  | @cons word a words actions ha _ ih =>
      obtain ⟨t, rest, rfl, ht, hrest⟩ := List.map_eq_cons_iff.1 hts
      have hmore := ih (p := p.addAction a) hcounts hrest
      rw [List.foldlM_cons, read_action hcounts ht ha, ok_bind, hmore]
      simp [Plan.addAction]

theorem foldl_addRequest (p : Plan) (requests : List Request) :
    requests.foldl Plan.addRequest p =
      ⟨p.numeric ++ requests.filter (·.kind = .numeric),
        p.fudge ++ requests.filter (·.kind = .fudge), p.actions, p.counts⟩ := by
  induction requests generalizing p with
  | nil => simp
  | cons r rest ih =>
      rw [List.foldl_cons, ih, numeric_addRequest, fudge_addRequest, actions_addRequest,
        counts_addRequest, List.append_assoc, List.append_assoc, ← List.filter_append,
        ← List.filter_append, List.singleton_append]

/-- The reader gets to the end of every text of the grammar. -/
theorem foldlM_read_of_writesPlan {lexemes : List Lexeme} (hts : ts.map Token.lexeme = lexemes)
    (h : WritesPlan (ReadsRolls limits) ReadsAction lexemes p) :
    ts.foldlM (Reader.read limits) ⟨Plan.empty, .outside⟩ = .ok ⟨p, .outside⟩ := by
  obtain ⟨parts, words, requests, rfl, hrequests, hactions, hnumeric, hfudge⟩ := h
  obtain ⟨front, last, rfl, hfront, hlast⟩ := List.map_eq_append_iff.1 hts
  obtain ⟨first, second, rfl, hfirst, hsecond⟩ := List.map_eq_append_iff.1 hfront
  obtain ⟨numeric, fudge, actions, counts⟩ := p
  simp only at hactions hnumeric hfudge hlast
  rw [List.foldlM_append, List.foldlM_append,
    foldlM_read_requests rfl (by simp [Plan.empty]) hfirst hrequests, ok_bind, foldl_addRequest,
    foldlM_read_actions (by simp [Plan.empty]) hsecond hactions, ok_bind, hnumeric, hfudge]
  cases counts with
  | false =>
      rw [if_neg Bool.false_ne_true, List.map_eq_nil_iff] at hlast
      rw [hlast]
      rfl
  | true =>
      obtain ⟨t, rest, rfl, ht, hrest⟩ := List.map_eq_cons_iff.1 hlast
      rw [List.map_eq_nil_iff.1 hrest, List.foldlM_cons, read_count (by simp [Plan.empty]) ht]
      rfl

end Completeness

/-! ## Reading a text -/

variable {limits : Limits} {text : Text} {p : Plan}

theorem finish_eq_ok_iff {r : Reader} :
    r.finish text = .ok p ↔ r = ⟨p, .outside⟩ ∧ p.requests ≠ [] := by
  obtain ⟨q, place⟩ := r
  cases place with
  | outside =>
      simp only [Reader.finish]
      split
      · next h =>
          constructor
          · intro hblame
            exact (blame_ne_ok hblame).elim
          · rintro ⟨heq, hne⟩
            cases heq
            exact (hne h).elim
      · next h =>
          constructor
          · intro heq
            cases heq
            exact ⟨rfl, h⟩
          · rintro ⟨heq, _⟩
            cases heq
            rfl
  | _ =>
      constructor
      · intro hblame
        exact (blame_ne_ok hblame).elim
      · rintro ⟨heq, _⟩
        cases heq

/-- A text is read as a plan if it is written for the plan, in words that can be read. -/
theorem readPlan_eq_ok_iff :
    readPlan limits text = .ok p ↔ ∃ lexemes, Lexed text lexemes ∧
      WritesPlan (ReadsRolls limits) ReadsAction lexemes p ∧ p.requests ≠ [] := by
  constructor
  · intro h
    obtain ⟨r, hrun, hfinish⟩ := bind_eq_ok_iff.1 h
    obtain ⟨rfl, hne⟩ := finish_eq_ok_iff.1 hfinish
    have hstart : Reads limits [] ⟨Plan.empty, .outside⟩ := .outside writesPlan_empty
    have hreads := hstart.run hrun
    refine ⟨_, lexed_tokensFrom 0 text, ?_, hne⟩
    generalize hlexemes : (tokensFrom 0 text).map Token.lexeme = lexemes
    rw [tokens, hlexemes, List.nil_append] at hreads
    cases hreads with
    | outside hwrites => exact hwrites
  · rintro ⟨lexemes, hlexed, hwrites, hne⟩
    rw [readPlan, foldlM_read_of_writesPlan (lexed_iff.1 hlexed) hwrites, ok_bind]
    exact finish_eq_ok_iff.2 ⟨rfl, hne⟩

end TabletopDice.Notation
