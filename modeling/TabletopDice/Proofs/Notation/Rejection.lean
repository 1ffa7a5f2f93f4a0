import TabletopDice.Proofs.Notation.Location
import TabletopDice.Proofs.Notation.RoundTrip
import TabletopDice.Proofs.Rolling.Kinds

/-!
# The texts that are rejected

A text is rejected for a fault of one of its tokens, or because it asks for no dice.  Apart from
that the reading only fails on a number with too many digits: one that is to be read, or one that
the message about a fault would have to write.
-/

namespace TabletopDice.Notation

open scoped List

variable {limits : Limits} {word text : Text} {position : Option Int} {f : Failure}

/-! ## Words -/

/-- The bounds on a request, and this position, can be written in a message. -/
structure Statable (limits : Limits) (position : Option Int) : Prop where
  count : Writable limits.count
  sides : Writable limits.sides
  position : ∀ p ∈ position, Writable p

/-- How the reading of a word can fail. -/
inductive Refuses (limits : Limits) (word : Text) (position : Option Int) : Failure → Prop where
  | fault (cause : Cause) : Refuses limits word position (.unreadable ⟨cause, word, position⟩)
  | tooLong {run : Text} (hpiece : run <:+: word) (hrun : isDigitRun run)
      (hlong : digitLimit < run.length) :
      Refuses limits word position (.numberTooLong (some run.length))
  | unwritable (h : ¬Statable limits position) : Refuses limits word position (.numberTooLong none)

theorem refuses_of_blame {α : Type} {cause : Cause}
    (hcause : Statable limits position → ∀ n ∈ cause.numbers, Writable n)
    (h : (blame cause word position : Except Failure α) = .error f) :
    Refuses limits word position f := by
  cases h
  by_cases hstat : Statable limits position
  · rw [Failure.raised_of_writable]
    · exact .fault cause
    · intro n hn
      rcases List.mem_append.1 hn with hn | hn
      · exact hcause hstat n hn
      · exact hstat.position n (Option.mem_toList.1 hn)
  · unfold Failure.raised
    split
    · exact .fault cause
    · exact .unwritable hstat

theorem refuses_of_readDigits {digits : Text} (hpiece : digits <:+: word)
    (hrun : isDigitRun digits) (h : readDigits digits = .error f) :
    Refuses limits word position f := by
  unfold readDigits at h
  split at h
  · cases h
  · next hlong =>
      cases h
      exact .tooLong hpiece hrun (Nat.lt_of_not_le hlong)

theorem isInfix_of_withoutFinalBreak {piece : Text} (h : piece <:+: withoutFinalBreak word) :
    piece <:+: word := by
  unfold withoutFinalBreak at h
  split at h
  · exact h.trans (List.dropLast_prefix word).isInfix
  · exact h

/-! ## Dice words -/

theorem refuses_of_readCount {count : Text} (hpiece : count <:+: word)
    (hcount : ∀ c ∈ count, isDigit c) (h : DiceWord.readCount count = .error f) :
    Refuses limits word position f := by
  cases count with
  | nil => cases h
  | cons c others =>
      exact refuses_of_readDigits hpiece (isDigitRun_iff.2 ⟨List.cons_ne_nil _ _, hcount⟩) h

theorem refuses_of_readDice (h : readDice limits word position = .error f) :
    Refuses limits word position f := by
  unfold readDice at h
  split at h
  · exact refuses_of_blame (by simp [Cause.numbers]) h
  · next value hform =>
      have hspelled := DiceWord.ofText?_eq_some_iff.1 hform
      generalize hword : withoutFinalBreak word = spelling at hspelled
      cases hspelled with
      | constant hrun =>
          have hpiece := isInfix_of_withoutFinalBreak (hword ▸ (List.suffix_cons '+' value).isInfix)
          rcases bind_eq_error_iff.1 h with h | ⟨_, _, h⟩
          · exact refuses_of_readDigits hpiece hrun h
          · cases h
  · next count hform =>
      have hspelled := DiceWord.ofText?_eq_some_iff.1 hform
      generalize hword : withoutFinalBreak word = spelling at hspelled
      cases hspelled with
      | fudge hcount hmarker =>
          have hpiece := isInfix_of_withoutFinalBreak (hword ▸ (List.prefix_append count _).isInfix)
          rcases bind_eq_error_iff.1 h with h | ⟨_, _, h⟩
          · exact refuses_of_readCount hpiece hcount h
          · cases h
  · next count sides hform =>
      have hspelled := DiceWord.ofText?_eq_some_iff.1 hform
      generalize hword : withoutFinalBreak word = spelling at hspelled
      cases hspelled with
      | @numbered _ _ marker hcount hmarker hsides =>
          have hleft := isInfix_of_withoutFinalBreak (hword ▸ (List.prefix_append count _).isInfix)
          have hright := isInfix_of_withoutFinalBreak
            (hword ▸ ((List.suffix_cons marker sides).trans (List.suffix_append count _)).isInfix)
          rcases bind_eq_error_iff.1 h with h | ⟨_, _, h⟩
          · exact refuses_of_readCount hleft hcount h
          rcases bind_eq_error_iff.1 h with h | ⟨s, hs, h⟩
          · exact refuses_of_readDigits hright hsides h
          have hwritable := (readable_iff.2 ⟨hsides, hs⟩).writable
          split at h
          · refine refuses_of_blame (fun hstat ↦ ?_) h
            simpa [Cause.numbers] using ⟨hwritable, hstat.sides⟩
          · split at h
            · cases h
            · refine refuses_of_blame (fun _ ↦ ?_) h
              simpa [Cause.numbers, DiceFault.numbers, Candidate.numbers, Value.numbers] using
                hwritable

theorem WritesCount.writable {count : Text} {n : Nat} (h : WritesCount Readable count n) :
    Writable n := by
  cases h with
  | omitted => exact writable_one
  | given h => exact h.writable

theorem WritesDice.writable {n : Nat} {d : Dice} (h : WritesDice Readable limits word n d) :
    Writable n := by
  cases h with
  | numbered hcount => exact hcount.writable
  | constant => exact writable_one
  | fudge hcount => exact hcount.writable

theorem writable_of_check {n : Nat} {d : Dice} {identifier : Option Text} {actions : List Action}
    {fault : DiceFault} (hn : Writable n) (hcount : Writable limits.count)
    (h : Request.check limits (.value (.number n)) d identifier actions = .error fault) :
    ∀ m ∈ fault.numbers, Writable m := by
  simp only [Request.check, Candidate.number?, Value.number?] at h
  split at h
  · split at h
    · cases h
    · split at h
      · cases h
      · cases h
        simp [DiceFault.numbers]
  · cases h
    simpa [DiceFault.numbers] using ⟨hcount, hn⟩

theorem refuses_of_readRequest {identifier : Option Text} {actions : List Action}
    (h : readRequest limits word position identifier actions = .error f) :
    Refuses limits word position f := by
  rcases bind_eq_error_iff.1 h with h | ⟨⟨n, d⟩, hdice, h⟩
  · exact refuses_of_readDice h
  simp only at h
  split at h
  · cases h
  · next fault hcheck =>
      refine refuses_of_blame (fun hstat ↦ ?_) h
      exact writable_of_check (readDice_eq_ok_iff.1 hdice).writable hstat.count hcheck

/-! ## Action words -/

theorem isInfix_of_mem_items {arguments item : Text}
    (h : item ∈ (arguments.splitOn ',').map stripped) : item <:+: arguments := by
  obtain ⟨piece, hpiece, rfl⟩ := List.mem_map.1 h
  have hin := isInfix_intercalate [','] hpiece
  rw [List.intercalate_splitOn] at hin
  exact (isInfix_of_padded (padded_stripped piece)).trans hin

theorem refuses_of_readTriggers {keyword arguments : Text} (hpiece : arguments <:+: word)
    (h : readTriggers keyword arguments word position = .error f) :
    Refuses limits word position f := by
  simp only [readTriggers] at h
  split at h
  · exact refuses_of_blame (by simp [Cause.numbers]) h
  split at h
  · next hruns =>
      rcases bind_eq_error_iff.1 h with h | ⟨_, _, h⟩
      · obtain ⟨item, hitem, h⟩ := exists_of_mapM_eq_error h
        exact refuses_of_readDigits ((isInfix_of_mem_items hitem).trans hpiece)
          (List.all_eq_true.1 hruns item hitem) h
      · cases h
  split at h
  · cases h
  split at h
  · exact refuses_of_blame (by simp [Cause.numbers]) h
  · exact refuses_of_blame (by simp [Cause.numbers]) h

theorem ActionWord.isInfix_arguments {w : ActionWord} {arguments : Text}
    (h : ActionWord.ofText? word = some w) (harguments : w.arguments = some arguments) :
    arguments <:+: word := by
  apply isInfix_of_withoutFinalBreak
  rw [ActionWord.ofText?_eq_some h, harguments]
  exact ⟨w.keyword ++ ['('], [')'], by simp⟩

variable {w : ActionWord}

theorem refuses_of_readPlainAction {a : Action}
    (h : readPlainAction a w word position = .error f) : Refuses limits word position f := by
  unfold readPlainAction at h
  split at h
  · cases h
  · exact refuses_of_blame (by simp [Cause.numbers]) h

theorem refuses_of_readTriggerAction {make : Kind → ValueSet → Action}
    (hw : ActionWord.ofText? word = some w)
    (h : readTriggerAction make w word position = .error f) :
    Refuses limits word position f := by
  unfold readTriggerAction at h
  split at h
  · exact refuses_of_blame (by simp [Cause.numbers]) h
  next arguments harguments =>
  split at h
  · exact refuses_of_blame (by simp [Cause.numbers]) h
  · rcases bind_eq_error_iff.1 h with h | ⟨_, _, h⟩
    · exact refuses_of_readTriggers (ActionWord.isInfix_arguments hw harguments) h
    · cases h

theorem refuses_of_readNumberAction {make : Int → Action} (hw : ActionWord.ofText? word = some w)
    (h : readNumberAction make w word position = .error f) : Refuses limits word position f := by
  unfold readNumberAction at h
  split at h
  · exact refuses_of_blame (by simp [Cause.numbers]) h
  next argument hargument =>
  obtain ⟨arguments, harguments, rfl⟩ := Option.map_eq_some_iff.1 hargument
  split at h
  · next hrun =>
      have hpiece := (isInfix_of_padded (padded_stripped arguments)).trans
        (ActionWord.isInfix_arguments hw harguments)
      rcases bind_eq_error_iff.1 h with h | ⟨_, _, h⟩
      · exact refuses_of_readDigits hpiece hrun h
      · cases h
  · exact refuses_of_blame (by simp [Cause.numbers]) h

theorem refuses_of_readAction (h : readAction word position = .error f) :
    Refuses limits word position f := by
  unfold readAction at h
  split at h
  · next factor hfactor =>
      obtain ⟨hword, hrun⟩ := factorOf?_eq_some_iff.1 hfactor
      have hpiece := isInfix_of_withoutFinalBreak (hword ▸ (List.suffix_cons 'x' factor).isInfix)
      rcases bind_eq_error_iff.1 h with h | ⟨_, _, h⟩
      · exact refuses_of_readDigits hpiece hrun h
      · cases h
  split at h
  · exact refuses_of_blame (by simp [Cause.numbers]) h
  next w hw =>
  split at h
  · exact refuses_of_blame (by simp [Cause.numbers]) h
  · exact refuses_of_readPlainAction h
  · exact refuses_of_readPlainAction h
  · exact refuses_of_readPlainAction h
  · exact refuses_of_readTriggerAction hw h
  · exact refuses_of_readTriggerAction hw h
  · exact refuses_of_readNumberAction hw h
  · exact refuses_of_readNumberAction hw h

/-! ## Tokens -/

/-- How the reading of a text can fail. -/
inductive Rejects (limits : Limits) (text : Text) : Failure → Prop where
  | fault {t : Token} (ht : t ∈ tokens text) (cause : Cause) :
      Rejects limits text (.unreadable ⟨cause, t.text, some t.position⟩)
  | noDice : Rejects limits text (.unreadable ⟨.noDice, stripped text, some 0⟩)
  | tooLong {run : Text} (hpiece : run <:+: text) (hrun : isDigitRun run)
      (hlong : digitLimit < run.length) :
      Rejects limits text (.numberTooLong (some run.length))
  | unwritable (h : ¬Statable limits (some text.length)) :
      Rejects limits text (.numberTooLong none)

variable {t : Token}

/-- The tokens that the reader will come back to. -/
def Place.tokens : Place → List Token
  | outside => []
  | opened opening => [opening]
  | named opening name => [opening, name]
  | inside opening name dice _ => [opening, name, dice]

/-- The reading fails with this token to blame. -/
def Token.Blamed (limits : Limits) (t : Token) (f : Failure) : Prop :=
  Refuses limits t.text (some t.position) f

variable {r r' : Reader} {p : Plan}

theorem blamed_of_blame {α : Type} {cause : Cause} (hcause : cause.numbers = [])
    (h : (t.blame cause : Except Failure α) = .error f) : t.Blamed limits f :=
  refuses_of_blame (by simp [hcause]) h

/-- Outside of groups the token that is met is to blame. -/
theorem blamed_of_readOutside (h : Reader.readOutside limits p t = .error f) :
    t.Blamed limits f := by
  unfold Reader.readOutside at h
  split at h
  · exact blamed_of_blame rfl h
  split at h
  · exact blamed_of_blame rfl h
  · split at h
    · exact blamed_of_blame rfl h
    · cases h
  unfold Reader.readWord at h
  split at h
  · cases h
  split at h
  · rcases bind_eq_error_iff.1 h with h | ⟨_, _, h⟩
    · exact refuses_of_readAction h
    · cases h
  split at h
  · exact blamed_of_blame rfl h
  · rcases bind_eq_error_iff.1 h with h | ⟨_, _, h⟩
    · exact refuses_of_readRequest h
    · cases h

/-- In a group its dice is to blame at the end, and before that the token that is met. -/
theorem blamed_of_readInside {opening name dice : Token} {actions : List Action}
    (h : Reader.readInside limits p opening name dice actions t = .error f) :
    t.shape = .closing ∧ dice.Blamed limits f ∨ t.shape ≠ .closing ∧ t.Blamed limits f := by
  unfold Reader.readInside at h
  split at h
  · next hshape =>
      rcases bind_eq_error_iff.1 h with h | ⟨_, _, h⟩
      · exact .inl ⟨hshape, refuses_of_readRequest h⟩
      · cases h
  · next hshape => exact .inr ⟨by simp [hshape], blamed_of_blame rfl h⟩
  · next hshape =>
      refine .inr ⟨by simp [hshape], ?_⟩
      split at h
      · exact blamed_of_blame rfl h
      · rcases bind_eq_error_iff.1 h with h | ⟨_, _, h⟩
        · exact refuses_of_readAction h
        · cases h

theorem blamed_of_read (h : r.read limits t = .error f) :
    ∃ u ∈ r.place.tokens ++ [t], u.Blamed limits f := by
  obtain ⟨p, place⟩ := r
  cases place with
  | outside => exact ⟨t, by simp, blamed_of_readOutside h⟩
  | opened opening =>
      simp only [Reader.read, Reader.readName] at h
      split at h
      · exact ⟨opening, by simp [Place.tokens], blamed_of_blame rfl h⟩
      split at h
      · cases h
      · exact ⟨t, by simp, blamed_of_blame rfl h⟩
  | named opening name =>
      simp only [Reader.read, Reader.takeDice] at h
      split at h
      · cases h
      · exact ⟨name, by simp [Place.tokens], blamed_of_blame rfl h⟩
  | inside opening name dice actions =>
      rcases blamed_of_readInside h with ⟨_, hdice⟩ | ⟨_, ht⟩
      · exact ⟨dice, by simp [Place.tokens], hdice⟩
      · exact ⟨t, by simp, ht⟩

theorem place_of_readOutside (h : Reader.readOutside limits p t = .ok r') :
    r'.place = .outside ∨ r'.place = .opened t := by
  unfold Reader.readOutside at h
  split at h
  · exact (blame_ne_ok h).elim
  split at h
  · exact (blame_ne_ok h).elim
  · split at h
    · exact (blame_ne_ok h).elim
    · cases h
      exact .inr rfl
  unfold Reader.readWord at h
  split at h
  · cases h
    exact .inl rfl
  split at h
  · obtain ⟨_, _, h⟩ := bind_eq_ok_iff.1 h
    cases h
    exact .inl rfl
  split at h
  · exact (blame_ne_ok h).elim
  · obtain ⟨_, _, h⟩ := bind_eq_ok_iff.1 h
    cases h
    exact .inl rfl

theorem place_of_readInside {opening name dice : Token} {actions : List Action}
    (h : Reader.readInside limits p opening name dice actions t = .ok r') :
    r'.place = .outside ∨ ∃ more, r'.place = .inside opening name dice more := by
  unfold Reader.readInside at h
  split at h
  · obtain ⟨_, _, h⟩ := bind_eq_ok_iff.1 h
    cases h
    exact .inl rfl
  · exact (blame_ne_ok h).elim
  · split at h
    · exact (blame_ne_ok h).elim
    · obtain ⟨_, _, h⟩ := bind_eq_ok_iff.1 h
      cases h
      exact .inr ⟨_, rfl⟩

/-- The reader comes back to no tokens but those it has met, in the order it has met them. -/
theorem place_of_read (h : r.read limits t = .ok r') :
    r'.place.tokens <+ r.place.tokens ++ [t] := by
  obtain ⟨p, place⟩ := r
  cases place with
  | outside =>
      rcases place_of_readOutside h with hplace | hplace
      · simp [hplace, Place.tokens]
      · simp [hplace, Place.tokens]
  | opened opening =>
      simp only [Reader.read, Reader.readName] at h
      split at h
      · exact (blame_ne_ok h).elim
      split at h
      · cases h
        simp [Place.tokens]
      · exact (blame_ne_ok h).elim
  | named opening name =>
      simp only [Reader.read, Reader.takeDice] at h
      split at h
      · cases h
        simp [Place.tokens]
      · exact (blame_ne_ok h).elim
  | inside opening name dice actions =>
      rcases place_of_readInside h with hplace | ⟨more, hplace⟩
      · simp [hplace, Place.tokens]
      · simp [hplace, Place.tokens]

theorem place_of_run {ts : List Token} (h : ts.foldlM (Reader.read limits) r = .ok r') :
    r'.place.tokens <+ r.place.tokens ++ ts := by
  induction ts generalizing r with
  | nil =>
      cases h
      rw [List.append_nil]
  | cons t rest ih =>
      rw [List.foldlM_cons] at h
      obtain ⟨next, hnext, h⟩ := bind_eq_ok_iff.1 h
      have hmore := (ih h).trans ((place_of_read hnext).append_right rest)
      rwa [List.append_assoc] at hmore

/-! ## Texts -/

theorem rejects_of_blamed (ht : t ∈ tokens text)
    (h : t.Blamed limits f) : Rejects limits text f := by
  have hlies := liesIn_of_mem_tokens ht
  cases h with
  | fault cause => exact .fault ht cause
  | tooLong hpiece hrun hlong => exact .tooLong (hpiece.trans hlies.isInfix) hrun hlong
  | unwritable hstat =>
      refine .unwritable fun hwhole ↦ hstat ⟨hwhole.count, hwhole.sides, fun p hp ↦ ?_⟩
      obtain rfl := Option.some.inj hp
      exact (hwhole.position _ rfl).of_le (by simpa using hlies.position_le)

theorem rejects_of_finish (hplace : ∀ u ∈ r.place.tokens, u ∈ tokens text)
    (h : r.finish text = .error f) : Rejects limits text f := by
  obtain ⟨p, place⟩ := r
  cases place with
  | outside =>
      simp only [Reader.finish] at h
      split at h
      · cases h
        rw [Failure.raised_of_writable]
        · exact .noDice
        · intro n hn
          rw [List.mem_singleton.1 hn]
          decide
      · cases h
  | opened opening =>
      exact rejects_of_blamed (hplace opening (by simp [Place.tokens])) (blamed_of_blame rfl h)
  | named opening name =>
      exact rejects_of_blamed (hplace name (by simp [Place.tokens])) (blamed_of_blame rfl h)
  | inside opening name dice actions =>
      exact rejects_of_blamed (hplace opening (by simp [Place.tokens])) (blamed_of_blame rfl h)

theorem rejects_of_readPlan (h : readPlan limits text = .error f) : Rejects limits text f := by
  rcases bind_eq_error_iff.1 h with h | ⟨r, hrun, h⟩
  · obtain ⟨front, t, back, r, htokens, hrun, h⟩ := exists_append_of_foldlM_eq_error h
    obtain ⟨u, hu, hblamed⟩ := blamed_of_read h
    have hmet : r.place.tokens ++ [t] <+ front ++ [t] := (place_of_run hrun).append_right [t]
    refine rejects_of_blamed ?_ hblamed
    rw [htokens, List.append_cons]
    exact List.mem_append_left back (hmet.subset hu)
  · exact rejects_of_finish (fun u hu ↦ (place_of_run hrun).subset hu) h

/-- A text is read as a plan or refused for a fault in it, unless a run of digits is too long to be
read, or a number too long to be written. -/
theorem plan_or_fault (limits : Limits) (text : Text) :
    (∃ p, readPlan limits text = .ok p) ∨
      (∃ fault, readPlan limits text = .error (.unreadable fault)) ∨
      (∃ run, run <:+: text ∧ isDigitRun run ∧ digitLimit < run.length ∧
        readPlan limits text = .error (.numberTooLong (some run.length))) ∨
      ¬Statable limits (some text.length) ∧
        readPlan limits text = .error (.numberTooLong none) := by
  cases hread : readPlan limits text with
  | ok p => exact .inl ⟨p, rfl⟩
  | error f =>
      right
      cases rejects_of_readPlan hread with
      | fault ht cause => exact .inl ⟨_, rfl⟩
      | noDice => exact .inl ⟨_, rfl⟩
      | tooLong hpiece hrun hlong => exact .inr (.inl ⟨_, hpiece, hrun, hlong, rfl⟩)
      | unwritable h => exact .inr (.inr ⟨h, rfl⟩)

/-- A dice with too many digits in the number of its sides is no fault of the text. -/
theorem readPlan_of_long_sides {run : Text} (hrun : isDigitRun run)
    (hlong : digitLimit < run.length) :
    readPlan limits ('D' :: run) = .error (.numberTooLong (some run.length)) := by
  have hisRun : IsRun ('D' :: run) := by
    refine ⟨List.cons_ne_nil _ _, List.forall_mem_cons.2 ⟨by decide, fun c hc ↦ ?_⟩⟩
    exact isWordChar_of_isDigit ((isDigitRun_iff.1 hrun).2 c hc)
  have htokens : tokens ('D' :: run) = [⟨.word, 'D' :: run, 0⟩] := by
    have h := tokensFrom_of_isRun hisRun stops_nil 0
    rw [List.append_nil] at h
    rw [tokens, h]
    simp [splitArguments, tokensFrom]
  have hform : DiceWord.ofText? ('D' :: run) = some (.numbered [] run) := by
    rw [DiceWord.ofText?_eq_some_iff, IsWord.withoutFinalBreak_eq (.inl hisRun)]
    exact @DiceWord.Spelled.numbered [] run 'D' (by simp) (.inr rfl) hrun
  have hcount : 'D' :: run ≠ countWord := by
    intro h
    cases h
  have hdigits : readDigits run = .error (.numberTooLong (some run.length)) :=
    if_neg (Nat.not_le_of_lt hlong)
  have hdice : readDice limits ('D' :: run) (some 0) =
      .error (.numberTooLong (some run.length)) := by
    simp only [readDice, hform, hdigits]
    rfl
  have hread : Reader.read limits ⟨Plan.empty, .outside⟩ ⟨.word, 'D' :: run, 0⟩ =
      .error (.numberTooLong (some run.length)) := by
    simp only [Reader.read, Reader.readOutside, Reader.readWord, if_neg hcount]
    rw [if_neg (by simp [Plan.empty]), if_neg (by simp [beginsLikeAction, hform]),
      if_neg (by simp [Plan.empty])]
    simp only [readRequest]
    rw [show ((0 : Nat) : Int) = 0 from rfl, hdice]
    rfl
  rw [readPlan, htokens, List.foldlM_cons, hread]
  rfl

/-- Six sides, with zeros in front of the six. -/
theorem no_fault_of_padded_sides :
    readPlan {} ('D' :: (List.replicate 4300 '0' ++ ['6'])) =
        .error (.numberTooLong (some 4301)) ∧
      ¬∃ fault, readPlan {} ('D' :: (List.replicate 4300 '0' ++ ['6'])) =
        .error (.unreadable fault) := by
  have hdigits : ∀ c ∈ List.replicate 4300 '0' ++ ['6'], isDigit c := by
    intro c hc
    rcases List.mem_append.1 hc with hc | hc
    · rw [List.eq_of_mem_replicate hc]
      decide
    · rw [List.mem_singleton.1 hc]
      decide
  have hlength : (List.replicate 4300 '0' ++ ['6']).length = 4301 := by
    rw [List.length_append, List.length_replicate, List.length_singleton]
  have hrun := isDigitRun_iff.2 ⟨List.append_ne_nil_of_right_ne_nil _ (by simp), hdigits⟩
  have hread := @readPlan_of_long_sides {} _ hrun (by rw [hlength]; decide)
  rw [hlength] at hread
  refine ⟨hread, ?_⟩
  rintro ⟨fault, hfault⟩
  cases hread.symm.trans hfault

end TabletopDice.Notation
