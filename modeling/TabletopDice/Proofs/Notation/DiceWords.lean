import TabletopDice.Notation.DiceWord
import TabletopDice.Proofs.Except
import TabletopDice.Proofs.Text.Numeral

/-!
# The dice words of the notation

What a dice word is, given what a number is, and that the words that are read are those whose
numbers can be read.
-/

namespace TabletopDice.Notation

section Words

variable (number : Text → Nat → Prop)

inductive WritesCount : Text → Nat → Prop where
  | omitted : WritesCount [] 1
  | given {digits : Text} {n : Nat} (h : number digits n) : WritesCount digits n

/-- The word asks for this many rolls of the dice. -/
inductive WritesDice (limits : Limits) : Text → Nat → Dice → Prop where
  | numbered {count sides : Text} {marker : Char} {n s : Nat} (hcount : WritesCount number count n)
      (hmarker : marker = 'd' ∨ marker = 'D') (hsides : number sides s) (pos : 0 < s)
      (hmost : (s : Int) ≤ limits.sides) :
      WritesDice limits (count ++ marker :: sides) n (.numbered s pos)
  | constant {digits : Text} {n : Nat} (h : number digits n) :
      WritesDice limits ('+' :: digits) 1 (.const (.number n))
  | fudge {count : Text} {marker : Char} {n : Nat} (hcount : WritesCount number count n)
      (hmarker : marker = 'f' ∨ marker = 'F') : WritesDice limits (count ++ [marker]) n .fudge

/-- The word asks for the rolls of the request, and for no more than may be rolled. -/
def WritesRolls (limits : Limits) (word : Text) (r : Request) : Prop :=
  WritesDice number limits word r.number r.dice ∧ (r.number : Int) ≤ limits.count

end Words

section Weakening

variable {number number' : Text → Nat → Prop} {word : Text} {n : Nat}

theorem WritesCount.imp (h : WritesCount number word n)
    (himp : number word n → number' word n) : WritesCount number' word n := by
  cases h with
  | omitted => exact .omitted
  | given h => exact .given (himp h)

/-- What a number is matters for the pieces of the word only. -/
theorem WritesDice.imp {limits : Limits} {d : Dice} (h : WritesDice number limits word n d)
    (himp : ∀ digits m, digits <:+: word → number digits m → number' digits m) :
    WritesDice number' limits word n d := by
  cases h with
  | @numbered count sides marker n s hcount hmarker hsides hpos hmost =>
      have hleft : count <:+: count ++ marker :: sides := (List.prefix_append _ _).isInfix
      have hright : sides <:+: count ++ marker :: sides :=
        ((List.suffix_cons marker sides).trans (List.suffix_append _ _)).isInfix
      exact .numbered (hcount.imp (himp _ _ hleft)) hmarker (himp _ _ hright hsides) hpos hmost
  | constant h => exact .constant (himp _ _ (List.suffix_cons _ _).isInfix h)
  | fudge hcount hmarker =>
      exact .fudge (hcount.imp (himp _ _ (List.prefix_append _ _).isInfix)) hmarker

end Weakening

theorem blame_ne_ok {α : Type} {cause : Cause} {fragment : Text} {position : Option Int} {a : α} :
    blame cause fragment position ≠ .ok a := by
  intro h
  cases h

/-! ## The form of a dice word -/

namespace DiceWord

/-- The text has the form of the dice word. -/
inductive Spelled : Text → DiceWord → Prop where
  | numbered {count sides : Text} {marker : Char} (hcount : ∀ c ∈ count, isDigit c)
      (hmarker : marker = 'd' ∨ marker = 'D') (hsides : isDigitRun sides) :
      Spelled (count ++ marker :: sides) (numbered count sides)
  | constant {value : Text} (h : isDigitRun value) : Spelled ('+' :: value) (constant value)
  | fudge {count : Text} {marker : Char} (hcount : ∀ c ∈ count, isDigit c)
      (hmarker : marker = 'f' ∨ marker = 'F') : Spelled (count ++ [marker]) (fudge count)

variable {text count : Text} {w : DiceWord}

theorem ofMarker?_eq_some {rest : Text} (h : ofMarker? count rest = some w)
    (hcount : ∀ c ∈ count, isDigit c) : Spelled (count ++ rest) w := by
  unfold ofMarker? at h
  split at h
  · cases h
  · split at h
    · next hnumbered =>
        cases h
        exact .numbered hcount hnumbered.1 hnumbered.2
    · split at h
      · next hfudge =>
          cases h
          rw [hfudge.2]
          exact .fudge hcount hfudge.1
      · cases h

theorem isDigit_marker {marker : Char}
    (h : marker = 'd' ∨ marker = 'D' ∨ marker = 'f' ∨ marker = 'F' ∨ marker = '+') :
    ¬isDigit marker := by
  rcases h with rfl | rfl | rfl | rfl | rfl <;> decide

theorem ofText?_of_marker {marker : Char} {rest : Text} (hcount : ∀ c ∈ count, isDigit c)
    (hmarker : marker = 'd' ∨ marker = 'D' ∨ marker = 'f' ∨ marker = 'F')
    (h : withoutFinalBreak text = count ++ marker :: rest) :
    ofText? text = ofMarker? count (marker :: rest) := by
  have hstop : Stops isDigit (marker :: rest) := stops_cons.2 (isDigit_marker (by tauto))
  have hplus : ∀ value, withoutFinalBreak text ≠ '+' :: value := by
    intro value heq
    rw [h] at heq
    cases count with
    | nil =>
        rw [List.nil_append, List.cons.injEq] at heq
        rw [heq.1] at hmarker
        revert hmarker
        decide
    | cons c others =>
        rw [List.cons_append, List.cons.injEq] at heq
        have hdigit := hcount c List.mem_cons_self
        rw [heq.1] at hdigit
        exact isDigit_marker (by tauto) hdigit
  unfold ofText?
  split
  · next value heq => exact (hplus value heq).elim
  · rw [h, takeWhile_span hcount hstop, dropWhile_span hcount hstop]

theorem ofText?_of_spelled {word : Text} (hword : withoutFinalBreak text = word)
    (h : Spelled word w) : ofText? text = some w := by
  cases h with
  | numbered hcount hmarker hsides =>
      rw [ofText?_of_marker hcount (by tauto) hword, ofMarker?, if_pos ⟨hmarker, hsides⟩]
  | constant hvalue => simp [ofText?, hword, hvalue]
  | @fudge count marker hcount hmarker =>
      have hother : ¬((marker = 'd' ∨ marker = 'D') ∧ isDigitRun []) := by simp [isDigitRun]
      rw [ofText?_of_marker hcount (by tauto) hword, ofMarker?, if_neg hother,
        if_pos ⟨hmarker, rfl⟩]

theorem ofText?_eq_some_iff : ofText? text = some w ↔ Spelled (withoutFinalBreak text) w := by
  constructor
  · intro h
    unfold ofText? at h
    split at h
    · next value heq =>
        split at h
        · next hrun =>
            cases h
            rw [heq]
            exact .constant hrun
        · cases h
    · have hspelled := ofMarker?_eq_some h fun c hc ↦ List.mem_takeWhile_imp hc
      rwa [List.takeWhile_append_dropWhile] at hspelled
  · intro h
    exact ofText?_of_spelled rfl h

theorem readCount_eq_ok_iff {n : Nat} (hcount : ∀ c ∈ count, isDigit c) :
    readCount count = .ok n ↔ WritesCount Readable count n := by
  cases count with
  | nil =>
      constructor
      · intro h
        cases h
        exact .omitted
      · intro h
        generalize hnil : ([] : Text) = digits at h
        cases h with
        | omitted => rfl
        | given h => cases hnil; exact ((isDigitRun_iff.1 h.1.1).1 rfl).elim
  | cons c others =>
      have hrun : isDigitRun (c :: others) := isDigitRun_iff.2 ⟨List.cons_ne_nil _ _, hcount⟩
      constructor
      · intro h
        exact .given (readable_iff.2 ⟨hrun, h⟩)
      · intro h
        cases h with
        | given h => exact (readable_iff.1 h).2

end DiceWord

/-! ## Reading dice words -/

variable {limits : Limits} {word : Text} {position : Option Int} {n : Nat} {d : Dice}

theorem WritesCount.isDigit {count : Text} (h : WritesCount Readable count n) :
    ∀ c ∈ count, isDigit c := by
  cases h with
  | omitted => simp
  | given h => exact (isDigitRun_iff.1 h.1.1).2

theorem readDice_eq_ok_iff :
    readDice limits word position = .ok (n, d) ↔
      WritesDice Readable limits (withoutFinalBreak word) n d := by
  constructor
  · intro h
    unfold readDice at h
    split at h
    · exact (blame_ne_ok h).elim
    · next value hform =>
        have hspelled := DiceWord.ofText?_eq_some_iff.1 hform
        generalize withoutFinalBreak word = text at hspelled ⊢
        cases hspelled with
        | constant hrun =>
            obtain ⟨m, hm, heq⟩ := bind_eq_ok_iff.1 h
            cases heq
            exact .constant (readable_iff.2 ⟨hrun, hm⟩)
    · next count hform =>
        have hspelled := DiceWord.ofText?_eq_some_iff.1 hform
        generalize withoutFinalBreak word = text at hspelled ⊢
        cases hspelled with
        | fudge hcount hmarker =>
            obtain ⟨m, hm, heq⟩ := bind_eq_ok_iff.1 h
            cases heq
            exact .fudge ((DiceWord.readCount_eq_ok_iff hcount).1 hm) hmarker
    · next count sides hform =>
        have hspelled := DiceWord.ofText?_eq_some_iff.1 hform
        generalize withoutFinalBreak word = text at hspelled ⊢
        cases hspelled with
        | numbered hcount hmarker hsides =>
            obtain ⟨m, hm, h⟩ := bind_eq_ok_iff.1 h
            obtain ⟨s, hs, h⟩ := bind_eq_ok_iff.1 h
            split at h
            · exact (blame_ne_ok h).elim
            · next hmost =>
                split at h
                · next hpos =>
                    cases h
                    have hs := readable_iff.2 ⟨hsides, hs⟩
                    have hm := (DiceWord.readCount_eq_ok_iff hcount).1 hm
                    exact .numbered hm hmarker hs hpos (by omega)
                · exact (blame_ne_ok h).elim
  · intro h
    generalize hword : withoutFinalBreak word = text at h
    cases h with
    | numbered hcount hmarker hsides hpos hmost =>
        have hform : DiceWord.ofText? word = some (.numbered _ _) :=
          DiceWord.ofText?_of_spelled hword (.numbered hcount.isDigit hmarker hsides.1.1)
        have hread := (DiceWord.readCount_eq_ok_iff hcount.isDigit).2 hcount
        simp only [readDice, hform, hread, (readable_iff.1 hsides).2, ok_bind]
        rw [if_neg (by omega), dif_pos hpos]
        rfl
    | constant hvalue =>
        have hform : DiceWord.ofText? word = some (.constant _) :=
          DiceWord.ofText?_of_spelled hword (.constant hvalue.1.1)
        simp only [readDice, hform, (readable_iff.1 hvalue).2, ok_bind]
        rfl
    | fudge hcount hmarker =>
        have hform : DiceWord.ofText? word = some (.fudge _) :=
          DiceWord.ofText?_of_spelled hword (.fudge hcount.isDigit hmarker)
        have hread := (DiceWord.readCount_eq_ok_iff hcount.isDigit).2 hcount
        simp only [readDice, hform, hread, ok_bind]
        rfl

theorem check_eq_ok_iff {identifier : Option Text} {actions : List Action} {r : Request} :
    Request.check limits (.value (.number n)) d identifier actions = .ok r ↔
      (r.number = n ∧ r.dice = d ∧ r.identifier = identifier ∧ r.actions = actions) ∧
        (n : Int) ≤ limits.count := by
  constructor
  · intro h
    simp only [Request.check, Candidate.number?, Value.number?, Int.toNat_natCast] at h
    split at h
    · next hbounds =>
        split at h
        · cases h
          exact ⟨⟨rfl, rfl, rfl, rfl⟩, hbounds.2⟩
        · split at h
          · cases h
            exact ⟨⟨rfl, rfl, rfl, rfl⟩, hbounds.2⟩
          · cases h
    · cases h
  · rintro ⟨⟨rfl, rfl, rfl, rfl⟩, hcount⟩
    obtain ⟨number, dice, identifier, actions, hnumber, hidentifier⟩ := r
    simp only [Request.check, Candidate.number?, Value.number?, Int.toNat_natCast]
    rw [dif_pos ⟨hnumber, hcount⟩]
    cases identifier with
    | none => rfl
    | some name => simp [hidentifier name rfl]

theorem readRequest_eq_ok_iff {identifier : Option Text} {actions : List Action} {r : Request} :
    readRequest limits word position identifier actions = .ok r ↔
      WritesRolls Readable limits (withoutFinalBreak word) r ∧
        r.identifier = identifier ∧ r.actions = actions := by
  constructor
  · intro h
    obtain ⟨⟨m, e⟩, hdice, h⟩ := bind_eq_ok_iff.1 h
    simp only at h
    split at h
    · next q hcheck =>
        cases h
        obtain ⟨⟨rfl, rfl, hidentifier, hactions⟩, hcount⟩ := check_eq_ok_iff.1 hcheck
        exact ⟨⟨readDice_eq_ok_iff.1 hdice, hcount⟩, hidentifier, hactions⟩
    · exact (blame_ne_ok h).elim
  · rintro ⟨⟨hdice, hcount⟩, hidentifier, hactions⟩
    have hcheck := check_eq_ok_iff.2 ⟨⟨rfl, rfl, hidentifier, hactions⟩, hcount⟩
    rw [readRequest, readDice_eq_ok_iff.2 hdice, ok_bind]
    simp only [hcheck]
    rfl

end TabletopDice.Notation
