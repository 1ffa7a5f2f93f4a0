import TabletopDice.Notation.Reader
import TabletopDice.Proofs.Except
import TabletopDice.Proofs.Text.Numeral

/-!
# Tokens and faults at another place

The reader looks at the position of a token only when it reports a fault there.  If all tokens stand
further back, what is read is the same, and the fault stands further back as well.
-/

namespace TabletopDice

variable {n : Nat}

/-- The failure of a text that gets `n` characters in front.  A text that asks for no dice is blamed
from its first character on, and every other fault moves along with its token, as long as the new
position can be written. -/
def Failure.moved (n : Nat) : Failure → Failure
  | unreadable ⟨cause, fragment, some position⟩ =>
      if cause = .noDice then unreadable ⟨cause, fragment, some position⟩
      else (unreadable ⟨cause, fragment, some (position + n)⟩).raised
  | f => f

namespace Notation

/-! ## Results that move along -/

section Moves

variable {α β γ δ : Type} {R : α → β → Prop} {S : γ → δ → Prop}

/-- Two results are related, or else failures, of which the second is the first moved along. -/
inductive Moves (n : Nat) (R : α → β → Prop) : Except Failure α → Except Failure β → Prop where
  | ok {a : α} {b : β} (h : R a b) : Moves n R (.ok a) (.ok b)
  | error (f : Failure) : Moves n R (.error f) (.error (f.moved n))

theorem Moves.bind {e : Except Failure α} {e' : Except Failure β} {next : α → Except Failure γ}
    {next' : β → Except Failure δ} (h : Moves n R e e')
    (hnext : ∀ a b, R a b → Moves n S (next a) (next' b)) :
    Moves n S (e >>= next) (e' >>= next') := by
  cases h with
  | ok h => exact hnext _ _ h
  | error f => exact .error f

theorem Moves.ok_iff {e e' : Except Failure α} {a : α} (h : Moves n Eq e e') :
    e = .ok a ↔ e' = .ok a := by
  cases h with
  | ok h => rw [h]
  | error f => exact iff_of_false (fun heq ↦ by cases heq) fun heq ↦ by cases heq

theorem Moves.error_of {e : Except Failure α} {e' : Except Failure β} {f : Failure}
    (h : Moves n R e e') (he : e = .error f) : e' = .error (f.moved n) := by
  cases h with
  | ok h => cases he
  | error f =>
      cases he
      rfl

theorem Moves.foldlM {step : α → γ → Except Failure α} {step' : β → δ → Except Failure β}
    {l : List γ} {g : γ → δ} {a : α} {b : β} (h : R a b)
    (hstep : ∀ c, ∀ a b, R a b → Moves n R (step a c) (step' b (g c))) :
    Moves n R (l.foldlM step a) ((l.map g).foldlM step' b) := by
  induction l generalizing a b with
  | nil => exact .ok h
  | cons c rest ih =>
      rw [List.map_cons, List.foldlM_cons, List.foldlM_cons]
      exact (hstep c a b h).bind fun _ _ hnext ↦ ih hnext

theorem Moves.ite {c d : Prop} [Decidable c] [Decidable d] {e₁ e₂ : Except Failure α}
    {e₁' e₂' : Except Failure β} (hcd : c ↔ d) (h₁ : Moves n R e₁ e₁') (h₂ : Moves n R e₂ e₂') :
    Moves n R (if c then e₁ else e₂) (if d then e₁' else e₂') := by
  by_cases hc : c
  · rwa [if_pos hc, if_pos (hcd.1 hc)]
  · rwa [if_neg hc, if_neg (mt hcd.2 hc)]

/-- A result that does not depend on any position. -/
theorem moves_self {e : Except Failure α} (h : ∀ f, e = .error f → f.moved n = f) :
    Moves n Eq e e := by
  cases e with
  | ok a => exact .ok rfl
  | error f =>
      have herror := Moves.error (R := @Eq α) (n := n) f
      rwa [h f rfl] at herror

variable {limits : Limits} {cause : Cause} {fragment word : Text} {position : Nat}

theorem moved_raised (hcause : cause ≠ .noDice) :
    (Failure.unreadable ⟨cause, fragment, some position⟩).raised.moved n =
      (Failure.unreadable ⟨cause, fragment, some (position + n : Nat)⟩).raised := by
  by_cases hwritable : ∀ m ∈ (Failure.unreadable ⟨cause, fragment, some position⟩).numbers,
      Writable m
  · rw [Failure.raised, if_pos hwritable, Failure.moved, if_neg hcause, Int.natCast_add]
  · rw [Failure.raised, if_neg hwritable, Failure.raised, if_neg]
    · rfl
    · intro hmoved
      refine hwritable fun m hm ↦ ?_
      rcases List.mem_append.1 hm with hm | hm
      · exact hmoved m (List.mem_append_left _ hm)
      · have hlast := hmoved (position + n : Nat) (List.mem_append_right _ List.mem_cons_self)
        rw [List.mem_singleton.1 hm]
        exact hlast.of_le (by omega)

/-! ## Words at another place -/

theorem moves_blame (hcause : cause ≠ .noDice) :
    Moves n R (blame cause fragment (some position))
      (blame cause fragment (some (position + n : Nat))) := by
  rw [blame, blame, ← moved_raised hcause]
  exact .error _

theorem moved_of_readDigits {digits : Text} {f : Failure} (h : readDigits digits = .error f) :
    f.moved n = f := by
  unfold readDigits at h
  split at h
  · cases h
  · cases h
    rfl

theorem moves_readDigits (digits : Text) : Moves n Eq (readDigits digits) (readDigits digits) :=
  moves_self fun _ ↦ moved_of_readDigits

theorem moves_readCount (count : Text) :
    Moves n Eq (DiceWord.readCount count) (DiceWord.readCount count) := by
  unfold DiceWord.readCount
  split
  · exact .ok rfl
  · exact moves_readDigits count

theorem moves_readDice :
    Moves n Eq (readDice limits word (some position))
      (readDice limits word (some (position + n : Nat))) := by
  unfold readDice
  split
  · exact moves_blame (by simp)
  · refine (moves_readDigits _).bind ?_
    rintro value _ rfl
    exact .ok rfl
  · refine (moves_readCount _).bind ?_
    rintro count _ rfl
    exact .ok rfl
  · refine (moves_readCount _).bind ?_
    rintro count _ rfl
    refine (moves_readDigits _).bind ?_
    rintro sides _ rfl
    split
    · exact moves_blame (by simp)
    split
    · exact .ok rfl
    · exact moves_blame (by simp)

theorem moves_readRequest {identifier : Option Text} {actions : List Action} :
    Moves n Eq (readRequest limits word (some position) identifier actions)
      (readRequest limits word (some (position + n : Nat)) identifier actions) := by
  refine moves_readDice.bind ?_
  rintro ⟨count, dice⟩ _ rfl
  simp only
  split
  · exact .ok rfl
  · exact moves_blame (by simp)

theorem moves_mapM_readDigits (items : List Text) :
    Moves n Eq (items.mapM readDigits) (items.mapM readDigits) := by
  refine moves_self fun f h ↦ ?_
  obtain ⟨digits, _, hdigits⟩ := exists_of_mapM_eq_error h
  exact moved_of_readDigits hdigits

theorem moves_readTriggers {keyword arguments : Text} :
    Moves n Eq (readTriggers keyword arguments word (some position))
      (readTriggers keyword arguments word (some (position + n : Nat))) := by
  simp only [readTriggers]
  split
  · exact moves_blame (by simp)
  split
  · refine (moves_mapM_readDigits _).bind ?_
    rintro numbers _ rfl
    exact .ok rfl
  split
  · exact .ok rfl
  split
  · exact moves_blame (by simp)
  · exact moves_blame (by simp)

theorem moves_readTriggerAction {make : Kind → ValueSet → Action} {w : ActionWord} :
    Moves n Eq (readTriggerAction make w word (some position))
      (readTriggerAction make w word (some (position + n : Nat))) := by
  unfold readTriggerAction
  split
  · exact moves_blame (by simp)
  split
  · exact moves_blame (by simp)
  · refine moves_readTriggers.bind ?_
    rintro triggers _ rfl
    exact .ok rfl

theorem moves_readNumberAction {make : Int → Action} {w : ActionWord} :
    Moves n Eq (readNumberAction make w word (some position))
      (readNumberAction make w word (some (position + n : Nat))) := by
  unfold readNumberAction
  split
  · exact moves_blame (by simp)
  split
  · refine (moves_readDigits _).bind ?_
    rintro number _ rfl
    exact .ok rfl
  · exact moves_blame (by simp)

theorem moves_readPlainAction {a : Action} {w : ActionWord} :
    Moves n Eq (readPlainAction a w word (some position))
      (readPlainAction a w word (some (position + n : Nat))) := by
  unfold readPlainAction
  split
  · exact .ok rfl
  · exact moves_blame (by simp)

theorem moves_readAction :
    Moves n Eq (readAction word (some position)) (readAction word (some (position + n : Nat))) := by
  unfold readAction
  split
  · refine (moves_readDigits _).bind ?_
    rintro factor _ rfl
    exact .ok rfl
  split
  · exact moves_blame (by simp)
  split
  · exact moves_blame (by simp)
  · exact moves_readPlainAction
  · exact moves_readPlainAction
  · exact moves_readPlainAction
  · exact moves_readTriggerAction
  · exact moves_readTriggerAction
  · exact moves_readNumberAction
  · exact moves_readNumberAction

end Moves

/-! ## Tokens at another place -/

/-- The token with `n` characters more in front. -/
def Token.moved (n : Nat) (t : Token) : Token := { t with position := t.position + n }

def Place.moved (n : Nat) : Place → Place
  | outside => outside
  | opened opening => opened (opening.moved n)
  | named opening name => named (opening.moved n) (name.moved n)
  | inside opening name dice actions =>
      inside (opening.moved n) (name.moved n) (dice.moved n) actions

def Reader.moved (n : Nat) (r : Reader) : Reader := { r with place := r.place.moved n }

section Reading

variable {limits : Limits} {p : Plan} {t : Token}

theorem Token.moved_shape (n : Nat) (t : Token) : (t.moved n).shape = t.shape := rfl

theorem Token.moves_blame {α β : Type} {R : α → β → Prop} {cause : Cause}
    (hcause : cause ≠ .noDice) : Moves n R (t.blame cause) ((t.moved n).blame cause) :=
  Notation.moves_blame hcause

theorem moves_readWord :
    Moves n (fun r r' ↦ r' = r.moved n) (Reader.readWord limits p t)
      (Reader.readWord limits p (t.moved n)) := by
  unfold Reader.readWord
  refine .ite Iff.rfl (.ok rfl) (.ite Iff.rfl ?_ (.ite Iff.rfl (Token.moves_blame (by simp)) ?_))
  · refine moves_readAction.bind ?_
    rintro a _ rfl
    exact .ok rfl
  · refine moves_readRequest.bind ?_
    rintro request _ rfl
    exact .ok rfl

theorem moves_readOutside :
    Moves n (fun r r' ↦ r' = r.moved n) (Reader.readOutside limits p t)
      (Reader.readOutside limits p (t.moved n)) := by
  refine .ite Iff.rfl (Token.moves_blame (by simp)) ?_
  rw [Token.moved_shape]
  split
  · exact Token.moves_blame (by simp)
  · exact .ite Iff.rfl (Token.moves_blame (by simp)) (.ok rfl)
  · exact moves_readWord

theorem moves_readName {opening : Token} :
    Moves n (fun r r' ↦ r' = r.moved n) (Reader.readName p opening t)
      (Reader.readName p (opening.moved n) (t.moved n)) :=
  .ite Iff.rfl (Token.moves_blame (by simp))
    (.ite Iff.rfl (.ok rfl) (Token.moves_blame (by simp)))

theorem moves_takeDice {opening name : Token} :
    Moves n (fun r r' ↦ r' = r.moved n) (Reader.takeDice p opening name t)
      (Reader.takeDice p (opening.moved n) (name.moved n) (t.moved n)) :=
  .ite Iff.rfl (.ok rfl) (Token.moves_blame (by simp))

theorem moves_readInside {opening name dice : Token} {actions : List Action} :
    Moves n (fun r r' ↦ r' = r.moved n) (Reader.readInside limits p opening name dice actions t)
      (Reader.readInside limits p (opening.moved n) (name.moved n) (dice.moved n) actions
        (t.moved n)) := by
  unfold Reader.readInside
  rw [Token.moved_shape]
  split
  · refine moves_readRequest.bind ?_
    rintro request _ rfl
    exact .ok rfl
  · exact Token.moves_blame (by simp)
  · refine .ite Iff.rfl (Token.moves_blame (by simp)) (moves_readAction.bind ?_)
    rintro a _ rfl
    exact .ok rfl

theorem moves_read (r : Reader) :
    Moves n (fun r r' ↦ r' = r.moved n) (r.read limits t)
      ((r.moved n).read limits (t.moved n)) := by
  obtain ⟨p, place⟩ := r
  cases place with
  | outside => exact moves_readOutside
  | opened opening => exact moves_readName
  | named opening name => exact moves_takeDice
  | inside opening name dice actions => exact moves_readInside

theorem moves_finish {r : Reader} {text other : Text} (h : stripped other = stripped text) :
    Moves n Eq (r.finish text) ((r.moved n).finish other) := by
  obtain ⟨p, place⟩ := r
  cases place with
  | outside =>
      simp only [Reader.finish, Reader.moved, Place.moved, h]
      split
      · refine moves_self fun f hf ↦ ?_
        cases hf
        rfl
      · exact .ok rfl
  | opened opening => exact Token.moves_blame (by simp)
  | named opening name => exact Token.moves_blame (by simp)
  | inside opening name dice actions => exact Token.moves_blame (by simp)

end Reading

end Notation
end TabletopDice
