import TabletopDice.Notation.ActionWord
import TabletopDice.Proofs.Notation.DiceWords
import TabletopDice.Proofs.Text.Items

/-!
# The action words of the notation

What an action word is, given what a number is, and that the words that are read are those whose
numbers can be read.
-/

namespace TabletopDice.Notation

open List (Forall₂)

section Words

variable (number : Text → Nat → Prop)

/-- The text is a list of triggers of one kind: numbers, or words for faces. -/
inductive WritesTriggers : Text → Kind → ValueSet → Prop where
  | numbers {text : Text} {numbers : List Nat} (h : WritesItems number text numbers) :
      WritesTriggers text .numeric (ValueSet.ofList (numbers.map fun n : Nat ↦ .number n))
  | faces {text : Text} {faces : List Face}
      (h : WritesItems (fun core f ↦ core = Face.word f) text faces) :
      WritesTriggers text .fudge (ValueSet.ofList (faces.map .face))

/-- The text is one number. -/
def WritesArgument (text : Text) (n : Nat) : Prop := ∃ core, Padded core text ∧ number core n

inductive WritesAction : Text → Action → Prop where
  | multiply {digits : Text} {n : Nat} (h : number digits n) :
      WritesAction ('x' :: digits) (.multiply n)
  | flip : WritesAction Keyword.flip.text .flip
  | sum : WritesAction Keyword.sum.text .sum
  | total : WritesAction Keyword.total.text .total
  | reroll {text : Text} {kind : Kind} {triggers : ValueSet}
      (h : WritesTriggers number text kind triggers) :
      WritesAction (Keyword.reroll.call text) (.reroll kind triggers)
  | explode {text : Text} {kind : Kind} {triggers : ValueSet}
      (h : WritesTriggers number text kind triggers) :
      WritesAction (Keyword.explode.call text) (.explode kind triggers)
  | keep {text : Text} {n : Nat} (which : Extreme) (h : WritesArgument number text n) :
      WritesAction ((Keyword.keep which).call text) (.keep which n)
  | rerollExtreme {text : Text} {n : Nat} (which : Extreme) (h : WritesArgument number text n) :
      WritesAction ((Keyword.rerollExtreme which).call text) (.rerollExtreme which n)

end Words

section Weakening

variable {number number' : Text → Nat → Prop} {text : Text}

theorem WritesTriggers.imp {kind : Kind} {triggers : ValueSet}
    (h : WritesTriggers number text kind triggers)
    (himp : ∀ digits m, digits <:+: text → number digits m → number' digits m) :
    WritesTriggers number' text kind triggers := by
  cases h with
  | numbers h => exact .numbers (h.imp himp)
  | faces h => exact .faces h

theorem WritesArgument.imp {n : Nat} (h : WritesArgument number text n)
    (himp : ∀ digits m, digits <:+: text → number digits m → number' digits m) :
    WritesArgument number' text n := by
  obtain ⟨core, hpadded, hcore⟩ := h
  exact ⟨core, hpadded, himp core n (isInfix_of_padded hpadded) hcore⟩

theorem isInfix_call (k : Keyword) (text : Text) : text <:+: k.call text :=
  ⟨k.text ++ ['('], [')'], by simp [Keyword.call]⟩

/-- What a number is matters for the pieces of the word only. -/
theorem WritesAction.imp {a : Action} (h : WritesAction number text a)
    (himp : ∀ digits m, digits <:+: text → number digits m → number' digits m) :
    WritesAction number' text a := by
  have hcall {k : Keyword} {arguments : Text} (hword : text = k.call arguments) (digits : Text)
      (m : Nat) (hpiece : digits <:+: arguments) : number digits m → number' digits m :=
    himp digits m (hpiece.trans (hword ▸ isInfix_call k arguments))
  cases h with
  | multiply h => exact .multiply (himp _ _ (List.suffix_cons _ _).isInfix h)
  | flip => exact .flip
  | sum => exact .sum
  | total => exact .total
  | reroll h => exact .reroll (h.imp (hcall rfl))
  | explode h => exact .explode (h.imp (hcall rfl))
  | keep which h => exact .keep which (h.imp (hcall rfl))
  | rerollExtreme which h => exact .rerollExtreme which (h.imp (hcall rfl))

end Weakening

/-! ## Keywords -/

theorem keyword_ofText?_eq_some_iff {word : Text} {k : Keyword} :
    Keyword.ofText? word = some k ↔ k.text = word := by
  constructor
  · intro h
    simpa using List.find?_some h
  · rintro rfl
    rcases k with _ | _ | _ | _ | _ | ⟨_ | _⟩ | ⟨_ | _⟩ <;> decide

theorem isKeywordChar_of_mem_text (k : Keyword) : ∀ c ∈ k.text, isKeywordChar c := by
  apply List.all_eq_true.1
  rcases k with _ | _ | _ | _ | _ | ⟨_ | _⟩ | ⟨_ | _⟩ <;> decide

theorem isAsciiLowercase_head_text (k : Keyword) : k.text.head?.any isAsciiLowercase := by
  rcases k with _ | _ | _ | _ | _ | ⟨_ | _⟩ | ⟨_ | _⟩ <;> decide

/-! ## The form of an action word -/

theorem factorOf?_eq_some_iff {word factor : Text} :
    factorOf? word = some factor ↔ withoutFinalBreak word = 'x' :: factor ∧ isDigitRun factor := by
  unfold factorOf?
  split
  · next rest heq =>
      rw [heq]
      split
      · next hrun => grind
      · next hrun => grind
  · next hne => grind

theorem factorOf?_of_keyword {word rest : Text} {k : Keyword}
    (h : withoutFinalBreak word = k.text ++ rest) : factorOf? word = none := by
  unfold factorOf?
  rw [h]
  rcases k with _ | _ | _ | _ | _ | ⟨_ | _⟩ | ⟨_ | _⟩ <;> rfl

theorem argumentsOf?_eq_some {text arguments : Text} (h : argumentsOf? text = some arguments) :
    text = '(' :: arguments ++ [')'] := by
  unfold argumentsOf? at h
  split at h
  · next rest =>
      split at h
      · next hdrop =>
          cases h
          have hsplit := List.takeWhile_append_dropWhile
            (p := fun c ↦ !isParenthesis c) (l := rest)
          rw [hdrop] at hsplit
          rw [List.cons_append, hsplit]
      · cases h
  · cases h

theorem argumentsOf?_of_forall {arguments : Text} (h : ∀ c ∈ arguments, ¬isParenthesis c) :
    argumentsOf? ('(' :: arguments ++ [')']) = some arguments := by
  have hin : ∀ c ∈ arguments, !isParenthesis c := fun c hc ↦ by simpa using h c hc
  have hstop : Stops (fun c ↦ !isParenthesis c) [')'] := stops_cons.2 (by decide)
  rw [List.cons_append, argumentsOf?, dropWhile_span hin hstop, takeWhile_span hin hstop]
  rfl

namespace ActionWord

variable {word : Text}

theorem ofText?_eq_some {w : ActionWord} (h : ofText? word = some w) :
    withoutFinalBreak word =
      w.keyword ++ w.arguments.elim [] fun arguments ↦ '(' :: arguments ++ [')'] := by
  have hsplit := List.takeWhile_append_dropWhile
    (p := isKeywordChar) (l := withoutFinalBreak word)
  simp only [ofText?] at h
  split at h
  · split at h
    · next hdrop =>
        cases h
        rw [hdrop] at hsplit
        exact hsplit.symm
    · obtain ⟨arguments, hargs, rfl⟩ := Option.map_eq_some_iff.1 h
      rw [argumentsOf?_eq_some hargs] at hsplit
      exact hsplit.symm
  · cases h

theorem ofText?_of_text {k : Keyword} (h : withoutFinalBreak word = k.text) :
    ofText? word = some ⟨k.text, none⟩ := by
  have htake := takeWhile_span (isKeywordChar_of_mem_text k) stops_nil
  have hdrop := dropWhile_span (isKeywordChar_of_mem_text k) stops_nil
  rw [List.append_nil] at htake hdrop
  simp only [ofText?, h, htake, hdrop, isAsciiLowercase_head_text k, if_true]

theorem ofText?_of_call {k : Keyword} {arguments : Text}
    (h : withoutFinalBreak word = k.call arguments) (hin : ∀ c ∈ arguments, ¬isParenthesis c) :
    ofText? word = some ⟨k.text, some arguments⟩ := by
  have hstop : Stops isKeywordChar ('(' :: arguments ++ [')']) := stops_cons.2 (by decide)
  have htake := takeWhile_span (isKeywordChar_of_mem_text k) hstop
  have hdrop := dropWhile_span (isKeywordChar_of_mem_text k) hstop
  rw [Keyword.call] at h
  simp only [List.cons_append, List.append_assoc] at h htake hdrop
  have hargs := argumentsOf?_of_forall hin
  rw [List.cons_append] at hargs
  simp only [ofText?, h, htake, hdrop, isAsciiLowercase_head_text k, if_true, hargs,
    Option.map_some]

end ActionWord

/-! ## Reading triggers -/

theorem delimited_readable : Delimited Readable := by
  intro core n h
  obtain ⟨hne, hdigits⟩ := isDigitRun_iff.1 h.1.1
  refine ⟨hne, fun c hc ↦ ⟨not_isBlank_of_isDigit (hdigits c hc), ?_⟩⟩
  rintro rfl
  exact absurd (hdigits _ hc) (by decide)

theorem delimited_face : Delimited fun core f ↦ core = Face.word f := by
  rintro core f rfl
  have hchars : f.word.all fun c ↦ !isBlank c && c != ',' := by
    cases f <;> decide
  refine ⟨?_, fun c hc ↦ by simpa using List.all_eq_true.1 hchars c hc⟩
  cases f <;> decide

theorem faceOf?_eq_some_iff {word : Text} {f : Face} : faceOf? word = some f ↔ word = f.word := by
  constructor
  · intro h
    have hword := List.find?_some h
    simp only [decide_eq_true_eq] at hword
    exact hword.symm
  · rintro rfl
    cases f <;> decide

theorem not_isDigitRun_of_face {core : Text} {f : Face} (h : core = f.word) :
    ¬isDigitRun core := by
  subst h
  cases f <;> decide

variable {keyword arguments word : Text} {position : Option Int}

theorem writesTriggers_of_read {kind : Kind} {triggers : ValueSet}
    (h : readTriggers keyword arguments word position = .ok (kind, triggers)) :
    WritesTriggers Readable arguments kind triggers := by
  simp only [readTriggers] at h
  split at h
  · exact (blame_ne_ok h).elim
  split at h
  · next hruns =>
      obtain ⟨numbers, hnumbers, heq⟩ := bind_eq_ok_iff.1 h
      cases heq
      refine .numbers ((writesItems_iff delimited_readable).2 ?_)
      apply related_imp (mapM_eq_ok_iff.1 hnumbers)
      intro item hitem n _ hread
      exact readable_iff.2 ⟨List.all_eq_true.1 hruns item hitem, hread⟩
  split at h
  · next hfaces =>
      cases h
      refine .faces ((writesItems_iff delimited_face).2 ?_)
      refine (related_filterMap (List.all_eq_true.1 hfaces)).imp fun item f hf ↦ ?_
      exact faceOf?_eq_some_iff.1 hf
  split at h
  · exact (blame_ne_ok h).elim
  · exact (blame_ne_ok h).elim

theorem readTriggers_of_writes {kind : Kind} {triggers : ValueSet}
    (h : WritesTriggers Readable arguments kind triggers) :
    readTriggers keyword arguments word position = .ok (kind, triggers) := by
  generalize hitems : (arguments.splitOn ',').map stripped = items
  cases h with
  | @numbers numbers h =>
      have hrelated := (writesItems_iff delimited_readable).1 h
      rw [hitems] at hrelated
      have hrun : ∀ item ∈ items, isDigitRun item := fun item hitem ↦ by
        obtain ⟨n, _, hn⟩ := exists_right_of_mem hrelated hitem
        exact hn.1.1
      have hempty := not_any_isEmpty delimited_readable hrelated
      have hmapM : items.mapM readDigits = .ok numbers :=
        mapM_eq_ok_iff.2 (hrelated.imp fun item n hn ↦ (readable_iff.1 hn).2)
      simp only [readTriggers, hitems]
      rw [if_neg hempty, if_pos (List.all_eq_true.2 hrun), hmapM]
      rfl
  | @faces faces h =>
      have hrelated := (writesItems_iff delimited_face).1 h
      rw [hitems] at hrelated
      have hempty := not_any_isEmpty delimited_face hrelated
      have hruns : ¬items.all isDigitRun := by
        obtain ⟨item, rest, rfl⟩ : ∃ item rest, items = item :: rest :=
          List.exists_cons_of_ne_nil (by simp [← hitems, List.splitOn_ne_nil])
        obtain ⟨f, _, hf⟩ := exists_right_of_mem hrelated List.mem_cons_self
        simp [not_isDigitRun_of_face hf]
      have hfaces : items.all fun item ↦ (faceOf? item).isSome := by
        apply List.all_eq_true.2
        intro item hitem
        obtain ⟨f, _, hf⟩ := exists_right_of_mem hrelated hitem
        simp [faceOf?_eq_some_iff.2 hf]
      have hfilterMap : items.filterMap faceOf? = faces :=
        filterMap_eq_of_related (hrelated.imp fun item f hf ↦ faceOf?_eq_some_iff.2 hf)
      simp only [readTriggers, hitems]
      rw [if_neg hempty, if_neg hruns, if_pos hfaces, hfilterMap]
      rfl

/-! ## Reading action words -/

theorem writesArgument_iff {n : Nat} :
    WritesArgument Readable arguments n ↔ Readable (stripped arguments) n := by
  constructor
  · rintro ⟨core, hpadded, hcore⟩
    obtain ⟨hne, hchars⟩ := delimited_readable core n hcore
    rwa [stripped_of_padded (bare_of_forall fun c hc ↦ (hchars c hc).1) hne hpadded]
  · intro h
    exact ⟨stripped arguments, padded_stripped arguments, h⟩

theorem WritesTriggers.stripped_ne_nil {kind : Kind} {triggers : ValueSet}
    (h : WritesTriggers Readable arguments kind triggers) : stripped arguments ≠ [] := by
  cases h with
  | numbers h => exact h.stripped_ne_nil delimited_readable
  | faces h => exact h.stripped_ne_nil delimited_face

variable {w : ActionWord} {a : Action}

theorem readPlainAction_eq_ok_iff {b : Action} :
    readPlainAction b w word position = .ok a ↔ w.arguments = none ∧ b = a := by
  unfold readPlainAction
  split
  · next h => simp [Option.isNone_iff_eq_none.1 h]
  · next h => simpa [blame_ne_ok] using fun hnone ↦ (h (by simp [hnone])).elim

theorem readTriggerAction_eq_ok_iff {make : Kind → ValueSet → Action} :
    readTriggerAction make w word position = .ok a ↔ ∃ arguments kind triggers,
      w.arguments = some arguments ∧ WritesTriggers Readable arguments kind triggers ∧
        make kind triggers = a := by
  constructor
  · intro h
    unfold readTriggerAction at h
    split at h
    · exact (blame_ne_ok h).elim
    · next arguments harguments =>
        split at h
        · exact (blame_ne_ok h).elim
        · obtain ⟨⟨kind, triggers⟩, hread, heq⟩ := bind_eq_ok_iff.1 h
          cases heq
          exact ⟨arguments, kind, triggers, harguments, writesTriggers_of_read hread, rfl⟩
  · rintro ⟨arguments, kind, triggers, harguments, hwrites, rfl⟩
    have hne := hwrites.stripped_ne_nil
    simp only [readTriggerAction, harguments]
    rw [if_neg (by simpa using hne), readTriggers_of_writes hwrites]
    rfl

theorem readNumberAction_eq_ok_iff {make : Int → Action} :
    readNumberAction make w word position = .ok a ↔ ∃ arguments, ∃ n : Nat,
      w.arguments = some arguments ∧ WritesArgument Readable arguments n ∧ make n = a := by
  constructor
  · intro h
    unfold readNumberAction at h
    split at h
    · exact (blame_ne_ok h).elim
    · next argument hargument =>
        obtain ⟨arguments, harguments, rfl⟩ := Option.map_eq_some_iff.1 hargument
        split at h
        · next hrun =>
            obtain ⟨n, hn, heq⟩ := bind_eq_ok_iff.1 h
            cases heq
            have hreadable := readable_iff.2 ⟨hrun, hn⟩
            exact ⟨arguments, n, harguments, writesArgument_iff.2 hreadable, rfl⟩
        · exact (blame_ne_ok h).elim
  · rintro ⟨arguments, n, harguments, hwrites, rfl⟩
    have hreadable := writesArgument_iff.1 hwrites
    simp only [readNumberAction, harguments, Option.map_some]
    rw [if_pos hreadable.1.1, (readable_iff.1 hreadable).2]
    rfl

theorem not_isParenthesis_of {p : Char → Bool} (hopening : ¬p '(') (hclosing : ¬p ')') {c : Char}
    (h : p c) : ¬isParenthesis c := by
  intro hparen
  rcases Bool.or_eq_true_iff.1 hparen with heq | heq
  · exact hopening (beq_iff_eq.1 heq ▸ h)
  · exact hclosing (beq_iff_eq.1 heq ▸ h)

theorem not_isParenthesis_of_isBlank {c : Char} (h : isBlank c) : ¬isParenthesis c :=
  not_isParenthesis_of (by decide) (by decide) h

theorem not_isParenthesis_of_isDigit {c : Char} (h : isDigit c) : ¬isParenthesis c :=
  not_isParenthesis_of (by decide) (by decide) h

/-- Triggers can stand between parentheses. -/
theorem WritesTriggers.not_isParenthesis {kind : Kind} {triggers : ValueSet}
    (h : WritesTriggers Readable arguments kind triggers) :
    ∀ c ∈ arguments, ¬isParenthesis c := by
  cases h with
  | numbers h =>
      apply h.forall_mem (by decide) (fun _ ↦ not_isParenthesis_of_isBlank)
      intro core n hcore c hc
      exact not_isParenthesis_of_isDigit ((isDigitRun_iff.1 hcore.1.1).2 c hc)
  | faces h =>
      apply h.forall_mem (by decide) (fun _ ↦ not_isParenthesis_of_isBlank)
      rintro core f rfl c hc
      have hchars : f.word.all fun c ↦ !isParenthesis c := by
        cases f <;> decide
      simpa using List.all_eq_true.1 hchars c hc

theorem WritesArgument.not_isParenthesis {n : Nat} (h : WritesArgument Readable arguments n) :
    ∀ c ∈ arguments, ¬isParenthesis c := by
  obtain ⟨core, ⟨before, after, rfl, hbefore, hafter⟩, hcore⟩ := h
  intro c hc
  rw [List.mem_append, List.mem_append] at hc
  rcases hc with (hc | hc) | hc
  · exact not_isParenthesis_of_isBlank (hbefore c hc)
  · exact not_isParenthesis_of_isDigit ((isDigitRun_iff.1 hcore.1.1).2 c hc)
  · exact not_isParenthesis_of_isBlank (hafter c hc)

theorem writesAction_of_readAction (h : readAction word position = .ok a) :
    WritesAction Readable (withoutFinalBreak word) a := by
  unfold readAction at h
  split at h
  · next factor hfactor =>
      obtain ⟨hword, hrun⟩ := factorOf?_eq_some_iff.1 hfactor
      obtain ⟨n, hn, heq⟩ := bind_eq_ok_iff.1 h
      cases heq
      rw [hword]
      exact .multiply (readable_iff.2 ⟨hrun, hn⟩)
  split at h
  · exact (blame_ne_ok h).elim
  · next w hform =>
      have hword := ActionWord.ofText?_eq_some hform
      have hplain {k : Keyword} (hk : Keyword.ofText? w.keyword = some k)
          (harguments : w.arguments = none) : withoutFinalBreak word = k.text := by
        rw [hword, harguments, keyword_ofText?_eq_some_iff.1 hk, Option.elim_none, List.append_nil]
      have hcall {k : Keyword} {arguments : Text} (hk : Keyword.ofText? w.keyword = some k)
          (harguments : w.arguments = some arguments) :
          withoutFinalBreak word = k.call arguments := by
        rw [hword, harguments, ← keyword_ofText?_eq_some_iff.1 hk, Keyword.call, Option.elim_some,
          List.cons_append, List.append_assoc, List.cons_append]
      split at h
      · exact (blame_ne_ok h).elim
      · next hk =>
          obtain ⟨harguments, rfl⟩ := readPlainAction_eq_ok_iff.1 h
          rw [hplain hk harguments]
          exact .flip
      · next hk =>
          obtain ⟨harguments, rfl⟩ := readPlainAction_eq_ok_iff.1 h
          rw [hplain hk harguments]
          exact .sum
      · next hk =>
          obtain ⟨harguments, rfl⟩ := readPlainAction_eq_ok_iff.1 h
          rw [hplain hk harguments]
          exact .total
      · next hk =>
          obtain ⟨_, _, _, harguments, hwrites, rfl⟩ := readTriggerAction_eq_ok_iff.1 h
          rw [hcall hk harguments]
          exact .reroll hwrites
      · next hk =>
          obtain ⟨_, _, _, harguments, hwrites, rfl⟩ := readTriggerAction_eq_ok_iff.1 h
          rw [hcall hk harguments]
          exact .explode hwrites
      · next which hk =>
          obtain ⟨_, _, harguments, hwrites, rfl⟩ := readNumberAction_eq_ok_iff.1 h
          rw [hcall hk harguments]
          exact .keep which hwrites
      · next which hk =>
          obtain ⟨_, _, harguments, hwrites, rfl⟩ := readNumberAction_eq_ok_iff.1 h
          rw [hcall hk harguments]
          exact .rerollExtreme which hwrites

/-- A keyword leads to its own way of reading the arguments. -/
theorem readAction_of_form {k : Keyword} {rest : Text} {arguments : Option Text}
    (hword : withoutFinalBreak word = k.text ++ rest)
    (hform : ActionWord.ofText? word = some ⟨k.text, arguments⟩) :
    readAction word position = match k with
      | .flip => readPlainAction .flip ⟨k.text, arguments⟩ word position
      | .sum => readPlainAction .sum ⟨k.text, arguments⟩ word position
      | .total => readPlainAction .total ⟨k.text, arguments⟩ word position
      | .reroll => readTriggerAction .reroll ⟨k.text, arguments⟩ word position
      | .explode => readTriggerAction .explode ⟨k.text, arguments⟩ word position
      | .keep which => readNumberAction (.keep which) ⟨k.text, arguments⟩ word position
      | .rerollExtreme which =>
          readNumberAction (.rerollExtreme which) ⟨k.text, arguments⟩ word position := by
  unfold readAction
  simp only [factorOf?_of_keyword hword, hform, keyword_ofText?_eq_some_iff.2 rfl]
  cases k <;> rfl

theorem readAction_of_writesAction (h : WritesAction Readable (withoutFinalBreak word) a) :
    readAction word position = .ok a := by
  generalize hword : withoutFinalBreak word = text at h
  have hplain {k : Keyword} (h : withoutFinalBreak word = k.text) :
      withoutFinalBreak word = k.text ++ [] := by
    rw [h, List.append_nil]
  have hcall {k : Keyword} {arguments : Text} (h : withoutFinalBreak word = k.call arguments) :
      withoutFinalBreak word = k.text ++ ('(' :: arguments ++ [')']) := by
    rw [h, Keyword.call, List.append_assoc]
  cases h with
  | multiply h =>
      simp only [readAction, factorOf?_eq_some_iff.2 ⟨hword, h.1.1⟩, (readable_iff.1 h).2]
      rfl
  | flip =>
      rw [readAction_of_form (hplain hword) (ActionWord.ofText?_of_text hword)]
      exact readPlainAction_eq_ok_iff.2 ⟨rfl, rfl⟩
  | sum =>
      rw [readAction_of_form (hplain hword) (ActionWord.ofText?_of_text hword)]
      exact readPlainAction_eq_ok_iff.2 ⟨rfl, rfl⟩
  | total =>
      rw [readAction_of_form (hplain hword) (ActionWord.ofText?_of_text hword)]
      exact readPlainAction_eq_ok_iff.2 ⟨rfl, rfl⟩
  | reroll h =>
      rw [readAction_of_form (hcall hword)
        (ActionWord.ofText?_of_call hword h.not_isParenthesis)]
      exact readTriggerAction_eq_ok_iff.2 ⟨_, _, _, rfl, h, rfl⟩
  | explode h =>
      rw [readAction_of_form (hcall hword)
        (ActionWord.ofText?_of_call hword h.not_isParenthesis)]
      exact readTriggerAction_eq_ok_iff.2 ⟨_, _, _, rfl, h, rfl⟩
  | keep which h =>
      rw [readAction_of_form (hcall hword)
        (ActionWord.ofText?_of_call hword h.not_isParenthesis)]
      exact readNumberAction_eq_ok_iff.2 ⟨_, _, rfl, h, rfl⟩
  | rerollExtreme which h =>
      rw [readAction_of_form (hcall hword)
        (ActionWord.ofText?_of_call hword h.not_isParenthesis)]
      exact readNumberAction_eq_ok_iff.2 ⟨_, _, rfl, h, rfl⟩

theorem readAction_eq_ok_iff :
    readAction word position = .ok a ↔ WritesAction Readable (withoutFinalBreak word) a :=
  ⟨writesAction_of_readAction, readAction_of_writesAction⟩

end TabletopDice.Notation
