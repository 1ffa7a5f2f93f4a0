import TabletopDice.Proofs.Rolling.Batches

/-!
# Explosions by recursion

What an explosion comes to can be told by recursion: the values, and behind them whatever comes of
rolling once for each trigger among them.  The loop instead carries along all values that it has
come to.  It rolls the same batches as the recursion, takes the same draws, and comes to the same
end; where the recursion does not end, neither does the loop.
-/

namespace TabletopDice.ValueSet

/-- The ending with values put in front of its result. -/
def putBefore (values : List Value) :
    EStateM.Result Failure Draws (List Value) → EStateM.Result Failure Draws (List Value)
  | .ok rest left => .ok (values ++ rest) left
  | .error f left => .error f left

/-- What comes of a batch, and after how many further ones: the batch itself if there is no trigger
in it, and otherwise the batch followed by what comes of as many rolls as it has triggers. -/
inductive Unfolds (triggers : ValueSet) (dice : Dice) :
    Nat → List Value → Draws → EStateM.Result Failure Draws (List Value) → Prop where
  | done {batch : List Value} {draws : Draws} (hnone : triggers.countIn batch = 0) :
      Unfolds triggers dice 0 batch draws (.ok batch draws)
  | stuck {batch : List Value} {draws left : Draws} {f : Failure}
      (hsome : triggers.countIn batch ≠ 0)
      (hroll : (dice.roll (triggers.countIn batch)).run draws = .error f left) :
      Unfolds triggers dice 0 batch draws (.error f left)
  | batch {n : Nat} {batch next : List Value} {draws mid : Draws}
      {rest : EStateM.Result Failure Draws (List Value)} (hsome : triggers.countIn batch ≠ 0)
      (hroll : (dice.roll (triggers.countIn batch)).run draws = .ok next mid)
      (hrest : Unfolds triggers dice n next mid rest) :
      Unfolds triggers dice (n + 1) batch draws (putBefore batch rest)

variable {triggers : ValueSet} {dice : Dice} {n : Nat} {values batch : List Value} {draws : Draws}
  {ending : EStateM.Result Failure Draws (List Value)}

theorem putBefore_nil (ending : EStateM.Result Failure Draws (List Value)) :
    putBefore [] ending = ending := by
  cases ending <;> rfl

theorem putBefore_append (l u : List Value) (ending : EStateM.Result Failure Draws (List Value)) :
    putBefore (l ++ u) ending = putBefore l (putBefore u ending) := by
  cases ending with
  | ok rest left => exact congrArg (EStateM.Result.ok · left) (List.append_assoc l u rest)
  | error f left => rfl

/-- The loop may have come to other values before the batch. -/
theorem Unfolds.ends (h : Unfolds triggers dice n batch draws ending) (before : List Value) :
    Ends triggers dice n (before ++ batch) batch draws (putBefore before ending) := by
  induction h generalizing before with
  | done hnone => exact .done hnone
  | stuck hsome hroll => exact .stuck hsome hroll
  | batch hsome hroll _ ih =>
      rw [← putBefore_append]
      exact .batch hsome hroll (ih _)

/-- The batch is at the end of the values, and what stands before it stays there. -/
theorem Ends.unfolds (h : Ends triggers dice n values batch draws ending) {before : List Value}
    (hvalues : values = before ++ batch) :
    ∃ rest, Unfolds triggers dice n batch draws rest ∧ ending = putBefore before rest := by
  induction h generalizing before with
  | done hnone =>
      subst hvalues
      exact ⟨_, .done hnone, rfl⟩
  | stuck hsome hroll => exact ⟨_, .stuck hsome hroll, rfl⟩
  | batch hsome hroll _ ih =>
      subst hvalues
      obtain ⟨rest, hrest, rfl⟩ := ih rfl
      exact ⟨_, .batch hsome hroll hrest, putBefore_append _ _ rest⟩

theorem unfolds_iff_ends :
    Unfolds triggers dice n values draws ending ↔
      Ends triggers dice n values values draws ending := by
  constructor
  · intro h
    have hends := h.ends []
    rwa [putBefore_nil] at hends
  · intro h
    obtain ⟨rest, hrest, rfl⟩ := h.unfolds (List.nil_append values).symm
    rwa [putBefore_nil]

/-- The explosion computes the recursion: where that ends, in a result or for lack of draws, the
loop ends in the same way, after equally many batches and with the same draws left; and where the
recursion has no end, the explosion has none either. -/
theorem explode_unfolds (triggers : ValueSet) (dice : Dice) (values : List Value) (draws : Draws) :
    (∀ ending, (∃ n, Unfolds triggers dice n values draws ending) ↔
      (triggers.explode dice values).run draws = ending ∧
        ∀ left, ending ≠ .error .endlessExplosion left) ∧
    (∀ n ending, Unfolds triggers dice n values draws ending ↔
      Ends triggers dice n values values draws ending) ∧
    ∀ n f left, Unfolds triggers dice n values draws (.error f left) →
      f = .noDrawLeft ∧ left = [] := by
  refine ⟨fun ending ↦ ?_, fun n ending ↦ unfolds_iff_ends, fun n f left h ↦ ?_⟩
  · rw [exists_congr fun n ↦ unfolds_iff_ends]
    exact exists_ends_iff
  · exact (unfolds_iff_ends.1 h).eq_noDrawLeft

/-- Six and two, then one further six, then another six, then a one; and the same with a lack of
draws after the first two of these. -/
theorem explode_unfolds_of_sixes :
    ∃ (triggers : ValueSet) (dice : Dice) (values : List Value),
      (triggers.explode dice values).run [5, 5, 0, 3] =
          .ok (values ++ ([.number 6] ++ ([.number 6] ++ [.number 1]))) [3] ∧
        (triggers.explode dice values).run [5, 5] = .error .noDrawLeft [] := by
  have hresult : Unfolds (.ofList [.number 6]) (.numbered 6 (by decide)) 3
      [.number 6, .number 2] [5, 5, 0, 3] (.ok _ [3]) :=
    .batch (by decide) rfl (.batch (by decide) rfl (.batch (by decide) rfl (.done (by decide))))
  have hfailure : Unfolds (.ofList [.number 6]) (.numbered 6 (by decide)) 2
      [.number 6, .number 2] [5, 5] (.error _ []) :=
    .batch (by decide) rfl (.batch (by decide) rfl (.stuck (by decide) rfl))
  exact ⟨_, _, _, (((explode_unfolds _ _ _ _).1 _).1 ⟨3, hresult⟩).1,
    (((explode_unfolds _ _ _ _).1 _).1 ⟨2, hfailure⟩).1⟩

end TabletopDice.ValueSet
