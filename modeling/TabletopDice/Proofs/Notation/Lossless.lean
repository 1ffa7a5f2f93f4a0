import Mathlib.Data.List.Perm.Basic
import TabletopDice.Proofs.Notation.Location

/-!
# Nothing of a text is lost

The tokens of a text are pieces of it, one behind the other, and whatever lies between them is
blank.  A word goes as far as it can, and takes along the part in parentheses that begins where its
run ends.  No other list of tokens is like that.
-/

namespace TabletopDice.Notation

variable {text run part rest before after : Text} {t u : Token} {ts us : List Token}

/-! ## Tokens that are not cut short -/

/-- A word between the text in front of it and that behind it.  Its run goes on neither backwards
nor forwards, and a part in parentheses that begins where the run ends belongs to the word. -/
structure IsWholeWord (before run part after : Text) : Prop where
  isRun : IsRun run
  stops_before : Stops isWordChar before.reverse
  stops_behind : Stops isWordChar (part ++ after)
  nil_or_isPart : part = [] ∨ IsPart part
  takes_part : ∀ next rest, IsPart next → part ++ after = next ++ rest → part = next

/-- The token is one parenthesis, or else a word that is not cut short. -/
def Token.IsWhole (t : Token) (before after : Text) : Prop :=
  match t.shape with
  | .opening => t.text = ['(']
  | .closing => t.text = [')']
  | .word => ∃ run part, t.text = run ++ part ∧ IsWholeWord before run part after

/-- The token is what stands in the text at its position, and it is not cut short there. -/
def Token.IsCutFrom (t : Token) (text : Text) : Prop :=
  ∃ before after, text = before ++ t.text ++ after ∧ t.position = before.length ∧
    t.IsWhole before after

theorem IsPart.ne_nil (h : IsPart part) : part ≠ [] := by
  obtain ⟨inner, rfl, _⟩ := h
  exact List.cons_ne_nil _ _

theorem IsWholeWord.of_ends (h : IsRun run) (hbefore : Stops isWordChar before.reverse)
    (ends : Ends after) : IsWholeWord before run [] after :=
  ⟨h, hbefore, ends.stops, .inl rfl,
    fun next rest hnext heq ↦ (ends.no_part next rest hnext heq).elim⟩

theorem IsWholeWord.of_isPart (h : IsRun run) (hbefore : Stops isWordChar before.reverse)
    (hpart : IsPart part) : IsWholeWord before run part after := by
  refine ⟨h, hbefore, stops_of_isPart hpart, .inr hpart, fun next rest hnext heq ↦ ?_⟩
  have hsplit : splitArguments (part ++ after) = (part, after) := splitArguments_of_isPart hpart
  rw [heq, splitArguments_of_isPart hnext] at hsplit
  exact (Prod.mk.inj hsplit).1.symm

theorem IsWholeWord.ends (h : IsWholeWord before run [] after) : Ends after :=
  ⟨h.stops_behind, fun part rest hpart heq ↦ hpart.ne_nil (h.takes_part part rest hpart heq).symm⟩

/-- What is not cut short is the first token of the text that begins with it. -/
theorem Token.IsWhole.tokensFrom_append (h : t.IsWhole before after) :
    tokensFrom t.position (t.text ++ after) =
      t :: tokensFrom (t.position + t.text.length) after := by
  obtain ⟨shape, word, position⟩ := t
  cases shape with
  | opening =>
      obtain rfl : word = ['('] := h
      exact tokensFrom_opening position
  | closing =>
      obtain rfl : word = [')'] := h
      exact tokensFrom_closing position
  | word =>
      obtain ⟨run, part, rfl, hwhole⟩ := h
      rcases hwhole.nil_or_isPart with rfl | hpart
      · rw [List.append_nil]
        exact tokensFrom_run hwhole.isRun hwhole.ends position
      · exact tokensFrom_call hwhole.isRun hpart position

theorem Token.IsWhole.exists_cons (h : t.IsWhole before after) :
    ∃ c others, t.text = c :: others ∧ ¬isBlank c := by
  obtain ⟨shape, word, position⟩ := t
  cases shape with
  | opening => exact ⟨'(', [], h, by decide⟩
  | closing => exact ⟨')', [], h, by decide⟩
  | word =>
      obtain ⟨run, part, rfl, hwhole⟩ := h
      obtain ⟨c, others, rfl⟩ := List.exists_cons_of_ne_nil hwhole.isRun.1
      have hc := hwhole.isRun.2 c List.mem_cons_self
      simp only [isWordChar, Bool.and_eq_true, Bool.not_eq_true'] at hc
      exact ⟨c, others ++ part, rfl, by simp [hc.1]⟩

theorem Token.IsCutFrom.liesIn (h : t.IsCutFrom text) : t.LiesIn text := by
  obtain ⟨before, after, htext, hposition, _⟩ := h
  exact ⟨before, after, htext, hposition⟩

/-- A token begins at its position, and with something else than a blank. -/
theorem Token.IsCutFrom.covers_position (h : t.IsCutFrom text) :
    t.Covers t.position ∧ ∃ c, text[t.position]? = some c ∧ ¬isBlank c := by
  have hlies := h.liesIn
  obtain ⟨before, after, _, _, hwhole⟩ := h
  obtain ⟨c, others, hcons, hc⟩ := hwhole.exists_cons
  have hpos : 0 < t.text.length := by simp [hcons]
  refine ⟨⟨le_rfl, Nat.lt_add_of_pos_right hpos⟩, c, ?_, hc⟩
  simpa [hcons] using hlies.getElem?_add hpos

/-- There is one token at most that can be cut from a text at a position. -/
theorem Token.IsCutFrom.eq_of_position_eq (ht : t.IsCutFrom text) (hu : u.IsCutFrom text)
    (h : t.position = u.position) : t = u := by
  obtain ⟨before, after, htext, hposition, htwhole⟩ := ht
  obtain ⟨before', after', htext', hposition', huwhole⟩ := hu
  rw [htext, List.append_assoc, List.append_assoc] at htext'
  obtain ⟨_, hrest⟩ := List.append_inj htext' (by rw [← hposition, h, hposition'])
  have hfirst := htwhole.tokensFrom_append
  rw [hrest, h, huwhole.tokensFrom_append] at hfirst
  exact (List.cons.inj hfirst).1.symm

/-! ## The tokens of a text are not cut short -/

/-- The text behind does not begin in the middle of a run. -/
def Border (before rest : Text) : Prop :=
  Stops isWordChar before.reverse ∨ Stops isWordChar rest

theorem border_concat {c : Char} (h : ¬isWordChar c) : Border (before ++ [c]) rest := by
  rw [Border, List.reverse_concat]
  exact .inl (stops_cons.2 h)

theorem border_of_isPart (h : IsPart part) : Border (before ++ part) rest := by
  obtain ⟨inner, rfl, _⟩ := h
  rw [← List.append_assoc]
  exact border_concat (by decide)

theorem Border.stops_before (h : Border before (run ++ rest)) (hrun : IsRun run) :
    Stops isWordChar before.reverse := by
  refine h.resolve_right fun hstops ↦ ?_
  obtain ⟨c, others, rfl⟩ := List.exists_cons_of_ne_nil hrun.1
  exact stops_cons.1 hstops (hrun.2 c List.mem_cons_self)

/-- The tokens of a text are cut from it, whatever stands in front. -/
def CutFrom (text : Text) : Prop :=
  ∀ before : Text, Border before text →
    ∀ t ∈ tokensFrom before.length text, t.IsCutFrom (before ++ text)

theorem CutFrom.behind (h : CutFrom rest) (piece before : Text)
    (hborder : Border (before ++ piece) rest) :
    ∀ t ∈ tokensFrom (before.length + piece.length) rest,
      t.IsCutFrom (before ++ (piece ++ rest)) := by
  intro t ht
  rw [← List.append_assoc]
  exact h (before ++ piece) hborder t (by rwa [List.length_append])

theorem Lexed.cutFrom {lexemes : List Lexeme} (h : Lexed text lexemes) : CutFrom text := by
  -- There is a border behind each token, since a word without a part stops where its run does.
  induction h with
  | nil => simp [CutFrom, tokensFrom]
  | @blank c rest _ hblank _ ih =>
      intro before _
      rw [tokensFrom_of_isBlank hblank]
      exact ih.behind [c] before (border_concat (by simp [isWordChar, hblank]))
  | @opening rest _ _ ih =>
      intro before _
      rw [tokensFrom_opening, List.forall_mem_cons]
      exact ⟨⟨before, rest, by simp, rfl, rfl⟩,
        ih.behind ['('] before (border_concat (by decide))⟩
  | @closing rest _ _ ih =>
      intro before _
      rw [tokensFrom_closing, List.forall_mem_cons]
      exact ⟨⟨before, rest, by simp, rfl, rfl⟩,
        ih.behind [')'] before (border_concat (by decide))⟩
  | @run run rest _ hrun ends _ ih =>
      intro before hborder
      rw [tokensFrom_run hrun ends, List.forall_mem_cons]
      have hwhole := IsWholeWord.of_ends hrun (hborder.stops_before hrun) ends
      exact ⟨⟨before, rest, by simp, rfl, run, [], by simp, hwhole⟩,
        ih.behind run before (.inr ends.stops)⟩
  | @call run part rest _ hrun hpart _ ih =>
      intro before hborder
      rw [tokensFrom_call hrun hpart, List.forall_mem_cons]
      rw [List.append_assoc] at hborder
      have hwhole : IsWholeWord before run part rest :=
        .of_isPart hrun (hborder.stops_before hrun) hpart
      have hrest : Border (before ++ (run ++ part)) rest := by
        rw [← List.append_assoc]
        exact border_of_isPart hpart
      exact ⟨⟨before, rest, by simp, rfl, run, part, rfl, hwhole⟩,
        ih.behind (run ++ part) before hrest⟩

/-! ## Between the tokens -/

/-- Whatever is not blank in a text that begins at the position belongs to one of the tokens. -/
def TakenUp (position : Nat) (text : Text) (ts : List Token) : Prop :=
  ∀ i c, text[i]? = some c → ¬isBlank c → ∃ t ∈ ts, t.Covers (position + i)

variable {position : Nat}

theorem TakenUp.blank {c : Char} (hblank : isBlank c) (h : TakenUp (position + 1) rest ts) :
    TakenUp position (c :: rest) ts := by
  intro i d hd hnot
  cases i with
  | zero =>
      cases hd
      exact (hnot hblank).elim
  | succ i =>
      have hcovered := h i d hd hnot
      rwa [Nat.add_assoc, Nat.add_comm 1] at hcovered

theorem TakenUp.cons {shape : Token.Shape} (word : Text)
    (h : TakenUp (position + word.length) rest ts) :
    TakenUp position (word ++ rest) (⟨shape, word, position⟩ :: ts) := by
  intro i d hd hnot
  rcases Nat.lt_or_ge i word.length with hlt | hge
  · exact ⟨_, List.mem_cons_self, Nat.le_add_right _ _, Nat.add_lt_add_left hlt position⟩
  · rw [List.getElem?_append_right hge] at hd
    obtain ⟨t, ht, hcovers⟩ := h _ d hd hnot
    rw [Nat.add_assoc, Nat.add_sub_cancel' hge] at hcovers
    exact ⟨t, List.mem_cons_of_mem _ ht, hcovers⟩

theorem Lexed.takenUp {lexemes : List Lexeme} (h : Lexed text lexemes) (position : Nat) :
    TakenUp position text (tokensFrom position text) := by
  induction h generalizing position with
  | nil => simp [TakenUp]
  | blank hblank _ ih =>
      rw [tokensFrom_of_isBlank hblank]
      exact .blank hblank (ih _)
  | opening _ ih =>
      rw [tokensFrom_opening]
      exact .cons ['('] (ih _)
  | closing _ ih =>
      rw [tokensFrom_closing]
      exact .cons [')'] (ih _)
  | run hrun ends _ ih =>
      rw [tokensFrom_run hrun ends]
      exact .cons _ (ih _)
  | call hrun hpart _ ih =>
      rw [tokensFrom_call hrun hpart]
      exact .cons _ (ih _)

/-! ## Lossless tokens -/

/-- The tokens are pieces of the text that are not cut short, one behind the other, and each
character that belongs to none of them is blank. -/
structure Lossless (text : Text) (ts : List Token) : Prop where
  ordered : Ordered 0 ts
  cut : ∀ t ∈ ts, t.IsCutFrom text
  blank_between : ∀ i c, text[i]? = some c → (∀ t ∈ ts, ¬t.Covers i) → isBlank c

theorem lossless_tokens (text : Text) : Lossless text (tokens text) := by
  have hlexed := lexed_tokensFrom 0 text
  refine ⟨ordered_tokens text, hlexed.cutFrom [] (.inl stops_nil), fun i c hc hnone ↦ ?_⟩
  by_contra hblank
  obtain ⟨t, ht, hcovers⟩ := hlexed.takenUp 0 i c hc hblank
  rw [Nat.zero_add] at hcovers
  exact hnone t ht hcovers

/-- The first character of a token belongs to a token of the other list.  That one begins there too,
for otherwise it would be a token of the first list as well, by induction on the position. -/
theorem Lossless.mem_of_mem (hts : Lossless text ts) (hus : Lossless text us) (ht : t ∈ ts) :
    t ∈ us := by
  induction hn : t.position using Nat.strongRecOn generalizing t ts us with
  | ind n ih =>
    subst hn
    obtain ⟨hself, c, hc, hblank⟩ := (hts.cut t ht).covers_position
    obtain ⟨u, hu, hcovers⟩ : ∃ u ∈ us, u.Covers t.position := by
      by_contra hnone
      exact hblank (hus.blank_between _ c hc fun u hu hcovers ↦ hnone ⟨u, hu, hcovers⟩)
    rcases Nat.lt_or_eq_of_le hcovers.1 with hlt | heq
    · have hother : u ∈ ts := ih u.position hlt hus hts hu rfl
      rw [hts.ordered.eq_of_covers ht hother hself hcovers] at hlt
      exact (Nat.lt_irrefl _ hlt).elim
    · rwa [(hts.cut t ht).eq_of_position_eq (hus.cut u hu) heq.symm]

theorem Lossless.unique (hts : Lossless text ts) (hus : Lossless text us) : ts = us := by
  have hperm : ts.Perm us :=
    (List.perm_ext_iff_of_nodup hts.ordered.nodup hus.ordered.nodup).2 fun _ ↦
      ⟨hts.mem_of_mem hus, hus.mem_of_mem hts⟩
  refine hperm.eq_of_pairwise (fun t u ht _ htu hut ↦ ?_) hts.ordered.pairwise
    hus.ordered.pairwise
  have hpos := List.length_pos_iff.2 (hts.ordered.ne_nil t ht)
  rw [Token.Precedes] at htu hut
  omega

/-- Nothing of a text is lost in its tokens, which no other list of tokens achieves. -/
theorem lossless_iff_eq_tokens : Lossless text ts ↔ ts = tokens text := by
  constructor
  · exact fun h ↦ h.unique (lossless_tokens text)
  · rintro rfl
    exact lossless_tokens text

/-- A part in parentheses that holds further ones does not belong to the word in front of it, and
behind its part a word does not go on. -/
theorem lossless_of_open_parenthesis :
    Lossless "ab( (1 \n2) c(3 4)d".toList
      [⟨.word, "ab".toList, 0⟩, ⟨.opening, "(".toList, 2⟩, ⟨.opening, "(".toList, 4⟩,
        ⟨.word, "1".toList, 5⟩, ⟨.word, "2".toList, 8⟩, ⟨.closing, ")".toList, 9⟩,
        ⟨.word, "c(3 4)".toList, 11⟩, ⟨.word, "d".toList, 17⟩] :=
  lossless_iff_eq_tokens.2 (by decide +kernel)

end TabletopDice.Notation
