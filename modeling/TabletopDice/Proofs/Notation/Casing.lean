import TabletopDice.Proofs.Notation.DicePlaces
import TabletopDice.Proofs.RelatedLists

/-!
# The case of a marker

Whether the `D` or `F` in a dice word is a capital letter makes no difference to what is read.
-/

namespace TabletopDice.Notation

open List (Forall₂)

/-- The letter in lower case if it may be the marker of a dice word, and otherwise as it is. -/
def lowered : Char → Char
  | 'D' => 'd'
  | 'F' => 'f'
  | c => c

variable {text other word : Text} {t u : Token}

/-! ## Tokens in lower case -/

theorem apply_lowered {β : Type} {f : Char → β} (hd : f 'd' = f 'D') (hf : f 'f' = f 'F')
    (c : Char) : f (lowered c) = f c := by
  unfold lowered
  split
  · exact hd
  · exact hf
  · rfl

theorem isParenthesis_lowered : ∀ c, isParenthesis (lowered c) = isParenthesis c :=
  apply_lowered (by decide) (by decide)

theorem isBlank_lowered : ∀ c, isBlank (lowered c) = isBlank c :=
  apply_lowered (by decide) (by decide)

theorem isWordChar_lowered : ∀ c, isWordChar (lowered c) = isWordChar c :=
  apply_lowered (by decide) (by decide)

theorem isDigit_lowered : ∀ c, isDigit (lowered c) = isDigit c :=
  apply_lowered (by decide) (by decide)

theorem lowered_eq_iff {c k : Char} (h : k ∉ ['d', 'D', 'f', 'F']) : lowered c = k ↔ c = k := by
  simp only [List.mem_cons, List.not_mem_nil, or_false, not_or] at h
  unfold lowered
  split
  · exact iff_of_false (Ne.symm h.1) (Ne.symm h.2.1)
  · exact iff_of_false (Ne.symm h.2.2.1) (Ne.symm h.2.2.2)
  · rfl

theorem takeWhile_map_lowered {p : Char → Bool} (h : ∀ c, p (lowered c) = p c) (text : Text) :
    (text.map lowered).takeWhile p = (text.takeWhile p).map lowered := by
  have hcomp : p ∘ lowered = p := funext h
  rw [List.takeWhile_map, hcomp]

theorem dropWhile_map_lowered {p : Char → Bool} (h : ∀ c, p (lowered c) = p c) (text : Text) :
    (text.map lowered).dropWhile p = (text.dropWhile p).map lowered := by
  have hcomp : p ∘ lowered = p := funext h
  rw [List.dropWhile_map, hcomp]

theorem isPart_map_lowered {part : Text} : IsPart (part.map lowered) ↔ IsPart part := by
  have hopening {c : Char} : lowered c = '(' ↔ c = '(' := lowered_eq_iff (by decide)
  have hclosing {c : Char} : lowered c = ')' ↔ c = ')' := lowered_eq_iff (by decide)
  constructor
  · rintro ⟨inner, hpart, hinner⟩
    obtain ⟨c, rest, rfl, hc, hrest⟩ := List.map_eq_cons_iff.1 hpart
    obtain ⟨body, last, rfl, rfl, hlast⟩ := List.map_eq_append_iff.1 hrest
    obtain ⟨d, none, rfl, hd, hnone⟩ := List.map_eq_cons_iff.1 hlast
    rw [hopening.1 hc, hclosing.1 hd, List.map_eq_nil_iff.1 hnone]
    refine ⟨body, rfl, fun e he ↦ ?_⟩
    rw [← isParenthesis_lowered]
    exact hinner _ (List.mem_map_of_mem he)
  · rintro ⟨inner, rfl, hinner⟩
    refine ⟨inner.map lowered, by simp [lowered], fun e he ↦ ?_⟩
    obtain ⟨c, hc, rfl⟩ := List.mem_map.1 he
    rw [isParenthesis_lowered]
    exact hinner c hc

theorem splitArguments_map_lowered (text : Text) :
    splitArguments (text.map lowered) =
      ((splitArguments text).1.map lowered, (splitArguments text).2.map lowered) := by
  by_cases hpart : ∃ part after, IsPart part ∧ text = part ++ after
  · obtain ⟨part, after, hpart, rfl⟩ := hpart
    rw [List.map_append, splitArguments_of_isPart hpart,
      splitArguments_of_isPart (isPart_map_lowered.2 hpart)]
  · rw [splitArguments_of_no_part fun part after h heq ↦ hpart ⟨part, after, h, heq⟩,
      splitArguments_of_no_part, List.map_nil]
    intro part after h heq
    obtain ⟨front, back, rfl, rfl, rfl⟩ := List.map_eq_append_iff.1 heq
    exact hpart ⟨front, back, isPart_map_lowered.1 h, rfl⟩

theorem splitWord_map_lowered (text : Text) :
    splitWord (text.map lowered) =
      ((splitWord text).1.map lowered, (splitWord text).2.map lowered) := by
  simp only [splitWord, takeWhile_map_lowered isWordChar_lowered,
    dropWhile_map_lowered isWordChar_lowered, splitArguments_map_lowered, List.map_append]

/-- The token with its text in lower case. -/
def Token.lowered (t : Token) : Token := { t with text := t.text.map Notation.lowered }

theorem tokensFrom_map_lowered (position : Nat) (text : Text) :
    tokensFrom position (text.map lowered) = (tokensFrom position text).map Token.lowered := by
  -- The cases are those of the tokens: no text, a word, either parenthesis, a blank.
  fun_induction tokensFrom position text with
  | case1 => simp [tokensFrom]
  | case2 position c rest h word ih =>
      have hword : isWordChar (Notation.lowered c) := by rwa [isWordChar_lowered]
      have hsplit := splitWord_map_lowered (c :: rest)
      rw [List.map_cons] at hsplit ⊢
      simp only [tokensFrom, dif_pos hword, hsplit, List.length_map]
      rw [List.map_cons, ← ih]
      rfl
  | case3 position rest h ih => exact (tokensFrom_opening position).trans (congrArg _ ih)
  | case4 position rest h h' ih => exact (tokensFrom_closing position).trans (congrArg _ ih)
  | case5 position c rest h hopening hclosing ih =>
      have hblank : isBlank (Notation.lowered c) := by
        rw [isBlank_lowered]
        have hclass := @isWordChar_or c
        tauto
      rw [List.map_cons, tokensFrom_of_isBlank hblank, ih]

/-! ## Dice words of either case -/

theorem lowered_of_isDigit {c : Char} (h : isDigit c) : lowered c = c := by
  unfold lowered
  split
  · exact absurd h (by decide)
  · exact absurd h (by decide)
  · rfl

theorem map_lowered_of_isDigit {digits : Text} (h : ∀ c ∈ digits, isDigit c) :
    digits.map lowered = digits :=
  (List.map_congr_left fun c hc ↦ lowered_of_isDigit (h c hc)).trans (List.map_id' digits)

/-- Digits have no case. -/
theorem eq_of_map_lowered_eq {digits : Text} (h : other.map lowered = digits.map lowered)
    (hdigits : ∀ c ∈ digits, isDigit c) : other = digits := by
  rw [map_lowered_of_isDigit hdigits] at h
  have hother : ∀ c ∈ other, isDigit c := by
    intro c hc
    rw [← isDigit_lowered]
    exact hdigits _ (h ▸ List.mem_map_of_mem hc)
  rwa [map_lowered_of_isDigit hother] at h

theorem lowered_eq_d_iff {c : Char} : lowered c = 'd' ↔ c = 'd' ∨ c = 'D' := by
  unfold lowered
  split <;> simp_all

theorem lowered_eq_f_iff {c : Char} : lowered c = 'f' ↔ c = 'f' ∨ c = 'F' := by
  unfold lowered
  split <;> simp_all

theorem DiceWord.Spelled.recased {w : DiceWord} (h : DiceWord.Spelled word w)
    (hcase : other.map lowered = word.map lowered) : DiceWord.Spelled other w := by
  cases h with
  | numbered hcount hmarker hsides =>
      rw [List.map_append] at hcase
      obtain ⟨count, rest, rfl, hcount', hrest⟩ := List.map_eq_append_iff.1 hcase
      obtain ⟨marker, sides, rfl, hmarker', hsides'⟩ := List.map_eq_cons_iff.1 hrest
      rw [eq_of_map_lowered_eq hcount' hcount,
        eq_of_map_lowered_eq hsides' (isDigitRun_iff.1 hsides).2]
      rw [lowered_eq_d_iff.2 hmarker] at hmarker'
      exact .numbered hcount (lowered_eq_d_iff.1 hmarker') hsides
  | constant hvalue =>
      obtain ⟨plus, value, rfl, hplus, hvalue'⟩ := List.map_eq_cons_iff.1 hcase
      rw [eq_of_map_lowered_eq hvalue' (isDigitRun_iff.1 hvalue).2,
        (lowered_eq_iff (by decide)).1 hplus]
      exact .constant hvalue
  | fudge hcount hmarker =>
      rw [List.map_append] at hcase
      obtain ⟨count, rest, rfl, hcount', hrest⟩ := List.map_eq_append_iff.1 hcase
      obtain ⟨marker, none, rfl, hmarker', hnone⟩ := List.map_eq_cons_iff.1 hrest
      rw [eq_of_map_lowered_eq hcount' hcount, List.map_eq_nil_iff.1 hnone]
      rw [lowered_eq_f_iff.2 hmarker] at hmarker'
      exact .fudge hcount (lowered_eq_f_iff.1 hmarker')

theorem withoutFinalBreak_map_lowered (word : Text) :
    withoutFinalBreak (word.map lowered) = (withoutFinalBreak word).map lowered := by
  have hbreak : (word.map lowered).getLast? = some '\n' ↔ word.getLast? = some '\n' := by
    rw [List.getLast?_map, Option.map_eq_some_iff]
    simp [lowered_eq_iff]
  unfold withoutFinalBreak
  by_cases h : word.getLast? = some '\n'
  · rw [if_pos h, if_pos (hbreak.2 h), List.map_dropLast]
  · rw [if_neg h, if_neg (mt hbreak.1 h)]

theorem ofText?_recased (hcase : other.map lowered = word.map lowered) :
    DiceWord.ofText? other = DiceWord.ofText? word := by
  have hword : (withoutFinalBreak other).map lowered = (withoutFinalBreak word).map lowered := by
    rw [← withoutFinalBreak_map_lowered, hcase, withoutFinalBreak_map_lowered]
  refine Option.ext fun w ↦ ?_
  rw [DiceWord.ofText?_eq_some_iff, DiceWord.ofText?_eq_some_iff]
  exact ⟨fun h ↦ h.recased hword.symm, fun h ↦ h.recased hword⟩

/-! ## Reading dice of either case -/

variable {limits : Limits} {r r' s : Reader} {ts us : List Token} {position : Option Int}

/-- A dice that is read depends on the form of the word only. -/
theorem readDice_congr {d : Nat × Dice} (hform : DiceWord.ofText? other = DiceWord.ofText? word)
    (h : readDice limits word position = .ok d) (position' : Option Int) :
    readDice limits other position' = .ok d := by
  unfold readDice at h ⊢
  rw [hform]
  cases hword : DiceWord.ofText? word with
  | none =>
      simp only [hword] at h
      exact (blame_ne_ok h).elim
  | some w =>
      cases w with
      | constant value | fudge count =>
          simp only [hword] at h
          exact h
      | numbered count sides =>
          simp only [hword] at h
          obtain ⟨n, hn, h⟩ := bind_eq_ok_iff.1 h
          obtain ⟨m, hm, h⟩ := bind_eq_ok_iff.1 h
          simp only [hn, hm, ok_bind]
          split at h
          · exact (blame_ne_ok h).elim
          · next hmost =>
              split at h
              · next hpos => rw [if_neg hmost, dif_pos hpos, ← h]
              · exact (blame_ne_ok h).elim

theorem readRequest_congr {identifier : Option Text} {actions : List Action} {q : Request}
    (hform : DiceWord.ofText? other = DiceWord.ofText? word)
    (h : readRequest limits word position identifier actions = .ok q) (position' : Option Int) :
    readRequest limits other position' identifier actions = .ok q := by
  obtain ⟨⟨n, d⟩, hdice, h⟩ := bind_eq_ok_iff.1 h
  rw [readRequest, readDice_congr hform hdice position', ok_bind]
  simp only at h ⊢
  split at h
  · exact h
  · exact (blame_ne_ok h).elim

/-- Readers that differ at most in the case of the dice of the open group. -/
inductive Alike : Reader → Reader → Prop where
  | same (r : Reader) : Alike r r
  | inside {p : Plan} {opening name dice dice' : Token} {actions : List Action}
      (hform : DiceWord.ofText? dice'.text = DiceWord.ofText? dice.text) :
      Alike ⟨p, .inside opening name dice actions⟩ ⟨p, .inside opening name dice' actions⟩

theorem alike_of_takesDice (hshape : t.shape = .word) (hshape' : u.shape = .word)
    (hform : DiceWord.ofText? u.text = DiceWord.ofText? t.text)
    (htakes : r.place.takesDice t.text) (h : r.read limits t = .ok r') :
    ∃ s', r.read limits u = .ok s' ∧ Alike r' s' := by
  obtain ⟨p, place⟩ := r
  cases place with
  | outside =>
      obtain ⟨hactions, hcounts, q, hq, rfl⟩ := exists_request_of_takesDice hshape htakes h
      obtain ⟨hrolls, hidentifier, hown⟩ :=
        readRequest_eq_ok_iff.1 (readRequest_congr hform hq none)
      have hlexeme : u.lexeme = .word u.text := lexeme_eq_word_iff.2 ⟨hshape', rfl⟩
      exact ⟨_, read_dice hactions hcounts hlexeme hrolls hidentifier hown, .same _⟩
  | opened opening => cases htakes
  | named opening name =>
      simp only [Reader.read, Reader.takeDice, if_pos hshape] at h
      simp only [Reader.read, Reader.takeDice, if_pos hshape']
      cases h
      exact ⟨_, rfl, .inside hform⟩
  | inside opening name dice actions => cases htakes

theorem Alike.read (hr : Alike r s) (hshape : u.shape = t.shape)
    (hform : DiceWord.ofText? u.text = DiceWord.ofText? t.text)
    (hsame : ¬(t.shape = .word ∧ r.place.takesDice t.text) → u = t)
    (h : r.read limits t = .ok r') : ∃ s', s.read limits u = .ok s' ∧ Alike r' s' := by
  cases hr with
  | same =>
      by_cases htakes : t.shape = .word ∧ r.place.takesDice t.text
      · exact alike_of_takesDice htakes.1 (hshape.trans htakes.1) hform htakes.2 h
      · rw [hsame htakes]
        exact ⟨r', h, .same r'⟩
  | @inside p opening name dice dice' actions hdice =>
      rw [hsame (by simp [Place.takesDice])]
      simp only [Reader.read, Reader.readInside] at h ⊢
      split at h
      · obtain ⟨q, hq, heq⟩ := bind_eq_ok_iff.1 h
        cases heq
        simp only [readRequest_congr hdice hq (some dice'.position)]
        exact ⟨_, rfl, .same _⟩
      · exact (blame_ne_ok h).elim
      · split at h
        · exact (blame_ne_ok h).elim
        · next hcount =>
            obtain ⟨a, ha, heq⟩ := bind_eq_ok_iff.1 h
            cases heq
            simp only [if_neg hcount, ha]
            exact ⟨_, rfl, .inside hdice⟩

theorem Token.lowered_eq_iff : u.lowered = t.lowered ↔ u.shape = t.shape ∧
    u.text.map Notation.lowered = t.text.map Notation.lowered ∧ u.position = t.position := by
  simp [Token.lowered]

/-- What one reader gets through, the other does as well, if the tokens differ at most in the case
of the dice among them. -/
theorem Alike.run (hr : Alike r s) (hnodup : ts.Nodup)
    (hwords : Forall₂ (fun t u ↦ u.lowered = t.lowered ∧ (t ∉ diceWords limits r ts → u = t)) ts us)
    (h : ts.foldlM (Reader.read limits) r = .ok r') :
    ∃ s', us.foldlM (Reader.read limits) s = .ok s' ∧ Alike r' s' := by
  induction ts generalizing r s us with
  | nil =>
      cases hwords
      cases h
      exact ⟨s, rfl, hr⟩
  | cons t rest ih =>
      obtain ⟨hmem, hrest⟩ := List.nodup_cons.1 hnodup
      rw [List.foldlM_cons] at h
      obtain ⟨next, hnext, h⟩ := bind_eq_ok_iff.1 h
      -- A token is found once only, so that it is no dice further on if it is none here.
      have hhead : ¬(t.shape = .word ∧ r.place.takesDice t.text) →
          t ∉ diceWords limits r (t :: rest) := by
        rw [mem_diceWords_cons hnext]
        rintro hnot (⟨_, htakes⟩ | hin)
        · exact hnot htakes
        · exact hmem ((diceWords_sublist next rest).subset hin)
      have htail : ∀ v ∈ rest, v ∉ diceWords limits next rest →
          v ∉ diceWords limits r (t :: rest) := by
        intro v hv hnot
        rw [mem_diceWords_cons hnext]
        rintro (⟨rfl, _⟩ | hin)
        · exact hmem hv
        · exact hnot hin
      cases hwords with
      | @cons _ u _ others hword hwords =>
          obtain ⟨hlowered, hsame⟩ := hword
          obtain ⟨hshape, htext, _⟩ := Token.lowered_eq_iff.1 hlowered
          obtain ⟨s', hs', halike⟩ :=
            hr.read hshape (ofText?_recased htext) (fun hnot ↦ hsame (hhead hnot)) hnext
          rw [List.foldlM_cons, hs', ok_bind]
          refine ih halike hrest ?_ h
          exact related_imp hwords fun v hv _ _ hvw ↦ ⟨hvw.1, fun hnot ↦ hvw.2 (htail v hv hnot)⟩

/-! ## Texts of either case -/

/-- The other text differs from this one at most in the case of the markers of dice words.  A
character that is no `D` or `F` has no other case here. -/
structure Recased (limits : Limits) (text other : Text) : Prop where
  lowered_eq : other.map lowered = text.map lowered
  differs : ∀ i, other[i]? ≠ text[i]? → ∃ t ∈ diceWordsOf limits text, t.Covers i

theorem Recased.eq_of_not_mem (h : Recased limits text other) (ht : t ∈ tokens text)
    (hu : u ∈ tokens other) (hlowered : u.lowered = t.lowered)
    (hnot : t ∉ diceWordsOf limits text) : u = t := by
  obtain ⟨hshape, hmap, hposition⟩ := Token.lowered_eq_iff.1 hlowered
  have hlength : u.text.length = t.text.length := by
    have hlengths := congrArg List.length hmap
    rwa [List.length_map, List.length_map] at hlengths
  have htext : u.text = t.text := by
    refine List.ext_getElem? fun i ↦ ?_
    by_cases hi : i < t.text.length
    · rw [← (liesIn_of_mem_tokens ht).getElem?_add hi,
        ← (liesIn_of_mem_tokens hu).getElem?_add (hlength ▸ hi), hposition]
      by_contra hne
      obtain ⟨v, hv, hcovers⟩ := h.differs _ hne
      have hmem := (diceWords_sublist _ _).subset hv
      have hself : t.Covers (t.position + i) :=
        ⟨Nat.le_add_right _ _, Nat.add_lt_add_left hi _⟩
      exact hnot ((ordered_tokens text).eq_of_covers ht hmem hself hcovers ▸ hv)
    · rw [List.getElem?_eq_none (Nat.le_of_not_lt hi),
        List.getElem?_eq_none (hlength ▸ Nat.le_of_not_lt hi)]
  obtain ⟨shape, word, position⟩ := t
  obtain ⟨shape', word', position'⟩ := u
  cases hshape
  cases hposition
  cases htext
  rfl

/-- A plan does not depend on the case of the markers. -/
theorem readPlan_recased {p : Plan} (h : readPlan limits text = .ok p)
    (hcase : Recased limits text other) : readPlan limits other = .ok p := by
  obtain ⟨r, hrun, hfinish⟩ := bind_eq_ok_iff.1 h
  have hlowered : Forall₂ (fun t u ↦ u.lowered = t.lowered) (tokens text) (tokens other) := by
    have hmap := congrArg (tokensFrom 0) hcase.lowered_eq
    rw [tokensFrom_map_lowered, tokensFrom_map_lowered] at hmap
    exact (related_iff_map_eq_map.2 hmap.symm).imp fun _ _ ↦ Eq.symm
  have hwords := related_imp hlowered fun t ht u hu htu ↦
    And.intro htu fun hnot ↦ hcase.eq_of_not_mem ht hu htu hnot
  obtain ⟨s, hs, halike⟩ := (Alike.same _).run (ordered_tokens text).nodup hwords hrun
  obtain ⟨rfl, hne⟩ := finish_eq_ok_iff.1 hfinish
  cases halike
  rw [readPlan, hs, ok_bind]
  exact finish_eq_ok_iff.2 ⟨rfl, hne⟩

end TabletopDice.Notation
