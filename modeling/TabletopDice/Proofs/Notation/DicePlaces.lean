import TabletopDice.Proofs.Notation.Rejection

/-!
# Words in the place of a dice

Outside of groups a dice is read as soon as it is met, and the dice of a group where the group ends.
So a fault is the first one as far as dice are concerned, but for the dice of a group that is still
open where the fault lies.
-/

namespace TabletopDice.Notation

/-! ## Dice places -/

/-- Whether the word is taken for a dice here.  Behind the identifier of a group any word is. -/
def Place.takesDice (word : Text) : Place → Bool
  | outside => word ≠ countWord && !beginsLikeAction word
  | named _ _ => true
  | opened _ | inside _ _ _ _ => false

/-- The words in the place of a dice among the tokens, as far as they are read. -/
def diceWords (limits : Limits) : Reader → List Token → List Token
  | _, [] => []
  | r, t :: ts =>
      let more := match r.read limits t with
        | .ok next => diceWords limits next ts
        | .error _ => []
      if t.shape = .word ∧ r.place.takesDice t.text then t :: more else more

/-- The words in the place of a dice in a text. -/
def diceWordsOf (limits : Limits) (text : Text) : List Token :=
  diceWords limits ⟨Plan.empty, .outside⟩ (tokens text)

/-- The word is a dice, and it may be rolled that often. -/
def IsDice (limits : Limits) (word : Text) : Prop :=
  ∃ n d, (∀ position, readDice limits word position = .ok (n, d)) ∧ 1 ≤ n ∧
    (n : Int) ≤ limits.count

variable {limits : Limits} {text word : Text} {t u : Token} {r r' : Reader} {ts front : List Token}

theorem diceWords_cons_of_ok (h : r.read limits t = .ok r') :
    diceWords limits r (t :: ts) =
      if t.shape = .word ∧ r.place.takesDice t.text then t :: diceWords limits r' ts
      else diceWords limits r' ts := by
  simp only [diceWords, h]

theorem mem_diceWords_cons (h : r.read limits t = .ok r') :
    u ∈ diceWords limits r (t :: ts) ↔
      (u = t ∧ t.shape = .word ∧ r.place.takesDice t.text) ∨ u ∈ diceWords limits r' ts := by
  rw [diceWords_cons_of_ok h]
  split
  · next htakes => simp [htakes]
  · next htakes => simp [htakes]

theorem diceWords_append (h : front.foldlM (Reader.read limits) r = .ok r') (ts : List Token) :
    diceWords limits r (front ++ ts) = diceWords limits r front ++ diceWords limits r' ts := by
  induction front generalizing r with
  | nil =>
      cases h
      rfl
  | cons t rest ih =>
      rw [List.foldlM_cons] at h
      obtain ⟨next, hnext, hrest⟩ := bind_eq_ok_iff.1 h
      rw [List.cons_append, diceWords_cons_of_ok hnext, diceWords_cons_of_ok hnext, ih hrest]
      split <;> rfl

theorem diceWords_cons_of_error {f : Failure} (h : r.read limits t = .error f) :
    diceWords limits r (t :: ts) =
      if t.shape = .word ∧ r.place.takesDice t.text then [t] else [] := by
  simp only [diceWords, h]

theorem diceWords_sublist (r : Reader) (ts : List Token) :
    (diceWords limits r ts).Sublist ts := by
  induction ts generalizing r with
  | nil => exact .slnil
  | cons t rest ih =>
      cases hread : r.read limits t with
      | ok next =>
          rw [diceWords_cons_of_ok hread]
          split
          · exact (ih next).cons_cons t
          · exact (ih next).cons t
      | error f =>
          rw [diceWords_cons_of_error hread]
          split
          · exact (List.nil_sublist rest).cons_cons t
          · exact List.nil_sublist (t :: rest)

/-! ## Dice that have been read -/

theorem isDice_of_readRequest {position : Option Int} {identifier : Option Text}
    {actions : List Action} {q : Request}
    (h : readRequest limits word position identifier actions = .ok q) : IsDice limits word := by
  obtain ⟨⟨hdice, hcount⟩, _⟩ := readRequest_eq_ok_iff.1 h
  exact ⟨q.number, q.dice, fun _ ↦ readDice_eq_ok_iff.2 hdice, q.one_le_number, hcount⟩

/-- A dice outside of groups is read at once. -/
theorem exists_request_of_takesDice {p : Plan} (hshape : t.shape = .word)
    (htakes : Place.outside.takesDice t.text) (h : Reader.readOutside limits p t = .ok r') :
    p.actions = [] ∧ ¬p.counts ∧
      ∃ q, readRequest limits t.text (some t.position) none [] = .ok q ∧
        r' = ⟨p.addRequest q, .outside⟩ := by
  simp only [Place.takesDice, Bool.and_eq_true, Bool.not_eq_true', decide_eq_true_eq] at htakes
  simp only [Reader.readOutside, hshape] at h
  split at h
  · exact (blame_ne_ok h).elim
  next hcounts =>
  rw [Reader.readWord, if_neg htakes.1, htakes.2, if_neg Bool.false_ne_true] at h
  split at h
  · exact (blame_ne_ok h).elim
  · next hactions =>
      obtain ⟨q, hq, heq⟩ := bind_eq_ok_iff.1 h
      exact ⟨not_not.1 hactions, hcounts, q, hq, (Except.ok.inj heq).symm⟩

/-- The word that was met in the place of a dice is one, unless it belongs to the open group. -/
def Settled (limits : Limits) (t : Token) (r : Reader) : Prop :=
  IsDice limits t.text ∨ ∃ p opening name actions, r = ⟨p, .inside opening name t actions⟩

theorem settled_of_read (hshape : t.shape = .word) (htakes : r.place.takesDice t.text)
    (h : r.read limits t = .ok r') : Settled limits t r' := by
  obtain ⟨p, place⟩ := r
  cases place with
  | outside =>
      obtain ⟨_, _, q, hq, _⟩ := exists_request_of_takesDice hshape htakes h
      exact .inl (isDice_of_readRequest hq)
  | opened opening => cases htakes
  | named opening name =>
      simp only [Reader.read, Reader.takeDice, if_pos hshape] at h
      cases h
      exact .inr ⟨p, opening, name, [], rfl⟩
  | inside opening name dice actions => cases htakes

/-- A group that ends has a dice. -/
theorem Settled.step (hr : Settled limits t r) (h : r.read limits u = .ok r') :
    Settled limits t r' := by
  rcases hr with hdice | ⟨p, opening, name, actions, rfl⟩
  · exact .inl hdice
  · simp only [Reader.read, Reader.readInside] at h
    split at h
    · obtain ⟨q, hq, _⟩ := bind_eq_ok_iff.1 h
      exact .inl (isDice_of_readRequest hq)
    · exact (blame_ne_ok h).elim
    · split at h
      · exact (blame_ne_ok h).elim
      · obtain ⟨a, _, heq⟩ := bind_eq_ok_iff.1 h
        cases heq
        exact .inr ⟨p, opening, name, actions ++ [a], rfl⟩

theorem settled_of_mem_diceWords (h : ts.foldlM (Reader.read limits) r = .ok r')
    (ht : t ∈ diceWords limits r ts) : Settled limits t r' := by
  induction ts generalizing r with
  | nil => cases ht
  | cons u rest ih =>
      rw [List.foldlM_cons] at h
      obtain ⟨next, hnext, hrest⟩ := bind_eq_ok_iff.1 h
      rcases (mem_diceWords_cons hnext).1 ht with ⟨rfl, hshape, htakes⟩ | ht
      · have hstep : ∀ u ∈ rest, ∀ q q' : Reader, Settled limits t q →
            q.read limits u = .ok q' → Settled limits t q' := fun _ _ _ _ hq ↦ hq.step
        exact foldlM_keeps hstep (settled_of_read hshape htakes hnext) hrest
      · exact ih hrest ht

/-! ## Where the reader stops -/

variable {cause : Cause} {fragment : Text} {p : Int}

theorem Token.Blamed.position_eq
    (h : t.Blamed limits (.unreadable ⟨cause, fragment, some p⟩)) : p = t.position := by
  cases h
  rfl

theorem position_of_takesDice (hshape : t.shape = .word) (htakes : r.place.takesDice t.text)
    (h : r.read limits t = .error (.unreadable ⟨cause, fragment, some p⟩)) : p = t.position := by
  obtain ⟨plan, place⟩ := r
  cases place with
  | outside => exact (blamed_of_readOutside h).position_eq
  | named opening name =>
      simp only [Reader.read, Reader.takeDice, if_pos hshape] at h
      cases h
  | opened opening | inside opening name dice actions => cases htakes

/-- The group of the dice is still open at a token here, which does not end it. -/
def IsOpenAt (limits : Limits) (text : Text) (dice : Token) (position : Int) : Prop :=
  ∃ front t back p opening name actions, tokens text = front ++ t :: back ∧
    front.foldlM (Reader.read limits) ⟨Plan.empty, .outside⟩ =
      .ok ⟨p, .inside opening name dice actions⟩ ∧
    t.shape ≠ .closing ∧ position = t.position

theorem opening_lt_dice {opening name dice : Token} {plan : Plan} {actions : List Action}
    {back : List Token} (htokens : tokens text = front ++ back)
    (h : front.foldlM (Reader.read limits) ⟨Plan.empty, .outside⟩ =
      .ok ⟨plan, .inside opening name dice actions⟩) : opening.position < dice.position := by
  have hordered := ordered_tokens text
  have hplace : [opening, name, dice].Sublist (tokens text) := by
    rw [htokens]
    exact (place_of_run h).trans (List.sublist_append_left front back)
  have hpairwise := hordered.pairwise.sublist hplace
  have hne := List.length_pos_iff.2 (hordered.ne_nil opening (hplace.subset (by simp)))
  have hprecedes : opening.Precedes dice := (List.pairwise_cons.1 hpairwise).1 dice (by simp)
  rw [Token.Precedes] at hprecedes
  omega

/-- No dice in front of a fault is passed over, except for that of a group that is still open
there. -/
theorem dice_in_front_of_fault
    (h : readPlan limits text = .error (.unreadable ⟨cause, fragment, some p⟩))
    (ht : t ∈ diceWordsOf limits text) (hlt : t.position < p) :
    IsDice limits t.text ∨ IsOpenAt limits text t p := by
  -- The reader stops at a token `u`, or else at the end of the text.
  rcases bind_eq_error_iff.1 h with h | ⟨r, hrun, h⟩
  · obtain ⟨front, u, back, r, htokens, hrun, h⟩ := exists_append_of_foldlM_eq_error h
    rw [diceWordsOf, htokens, diceWords_append hrun, diceWords_cons_of_error h] at ht
    rcases List.mem_append.1 ht with ht | ht
    · rcases settled_of_mem_diceWords hrun ht with hdice | ⟨plan, opening, name, actions, rfl⟩
      · exact .inl hdice
      · rcases blamed_of_readInside h with ⟨_, hblamed⟩ | ⟨hshape, hblamed⟩
        · have hp := hblamed.position_eq
          omega
        · exact .inr ⟨front, u, back, plan, opening, name, actions, htokens, hrun, hshape,
            hblamed.position_eq⟩
    · split at ht
      · next htakes =>
          rw [List.mem_singleton.1 ht, position_of_takesDice htakes.1 htakes.2 h] at hlt
          exact (Int.lt_irrefl _ hlt).elim
      · cases ht
  · rcases settled_of_mem_diceWords hrun ht with hdice | ⟨plan, opening, name, actions, rfl⟩
    · exact .inl hdice
    · have hlies := opening_lt_dice (List.append_nil _).symm hrun
      have hblamed : opening.Blamed limits _ := blamed_of_blame rfl h
      have hp := hblamed.position_eq
      omega

theorem dice_in_front_of_fault_of_group :
    readPlan {} "(AB 3D6) foo".toList =
        .error (.unreadable ⟨.unknownAction "foo".toList, "foo".toList, some 9⟩) ∧
      ⟨.word, "3D6".toList, 4⟩ ∈ diceWordsOf {} "(AB 3D6) foo".toList ∧
      (IsDice {} "3D6".toList ∨
        IsOpenAt {} "(AB 3D6) foo".toList ⟨.word, "3D6".toList, 4⟩ 9) := by
  have hread : readPlan {} "(AB 3D6) foo".toList =
      .error (.unreadable ⟨.unknownAction "foo".toList, "foo".toList, some 9⟩) := by
    decide +kernel
  have hmem : ⟨.word, "3D6".toList, 4⟩ ∈ diceWordsOf {} "(AB 3D6) foo".toList := by
    decide +kernel
  exact ⟨hread, hmem, dice_in_front_of_fault hread hmem (by decide)⟩

/-- What is wrong with an action of a group is reported before what is wrong with its dice. -/
theorem dice_passed_over_in_group :
    readPlan {} "(AB 3X6 foo)".toList =
        .error (.unreadable ⟨.unknownAction "foo".toList, "foo".toList, some 8⟩) ∧
      ∃ t ∈ diceWordsOf {} "(AB 3X6 foo)".toList, (t.position : Int) < 8 ∧ ¬IsDice {} t.text := by
  have hmem : ⟨.word, "3X6".toList, 4⟩ ∈ diceWordsOf {} "(AB 3X6 foo)".toList := by
    decide +kernel
  refine ⟨by decide +kernel, _, hmem, by decide, ?_⟩
  rintro ⟨n, d, hread, _⟩
  have hfails : readDice {} "3X6".toList none =
      .error (.unreadable ⟨.notDice "3X6".toList, "3X6".toList, none⟩) := by
    decide +kernel
  rw [hread none] at hfails
  cases hfails

end TabletopDice.Notation
