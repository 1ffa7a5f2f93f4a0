import TabletopDice.Proofs.Rolling.Application
import TabletopDice.Proofs.Rolling.Batches
import TabletopDice.Proofs.Rolling.Sizes
import TabletopDice.Proofs.Rolling.Taking

/-!
# What an explosion adds

The values of an explosion stay where they are, and behind them comes one further value for each
trigger among old and new ones.  The last value added is no trigger.  On a dice that takes draws the
added values are those that it shows for the draws taken.  So rolls to which nothing but explosions
has been applied hold what is shown for all draws that were taken for them.
-/

namespace TabletopDice

namespace ValueSet

/-- What is added after a batch, and the draws that are taken for it. -/
structure Adds (triggers : ValueSet) (dice : Dice) (batch added : List Value) (used : Draws) :
    Prop where
  length_eq : added.length = triggers.countIn (batch ++ added)
  last : ∀ v ∈ added.getLast?, v ∉ triggers
  shown : ∀ shows ∈ dice.shows?, added = used.map shows

variable {triggers : ValueSet} {dice : Dice} {batch next added : List Value} {used more : Draws}

theorem adds_nil (hnone : triggers.countIn batch = 0) : Adds triggers dice batch [] [] where
  length_eq := by rw [List.append_nil, hnone, List.length_nil]
  last := by simp
  shown := fun _ _ ↦ rfl

/-- The next batch holds one value for each trigger in this one. -/
theorem Adds.cons (h : Adds triggers dice next added more)
    (hlength : next.length = triggers.countIn batch)
    (hshown : ∀ shows ∈ dice.shows?, next = used.map shows) :
    Adds triggers dice batch (next ++ added) (used ++ more) where
  length_eq := by rw [List.length_append, hlength, h.length_eq, countIn_append triggers batch]
  last := by
    intro v hv
    by_cases hadded : added = []
    · -- Nothing comes behind the next batch, so there is no trigger in it.
      have hnone : triggers.countIn next = 0 := by
        have hlength := h.length_eq
        rwa [hadded, List.append_nil, List.length_nil, eq_comm] at hlength
      rw [hadded, List.append_nil] at hv
      exact countIn_eq_zero_iff.1 hnone v (List.mem_of_mem_getLast? hv)
    · rw [List.getLast?_append_of_ne_nil _ hadded] at hv
      exact h.last v hv
  shown := by
    intro shows hshows
    rw [List.map_append, hshown shows hshows, h.shown shows hshows]

theorem burst_takes (triggers : ValueSet) (dice : Dice) (bound : Nat) (values batch : List Value) :
    (triggers.burst dice bound values batch).Takes fun used result ↦
      ∃ added, result = values ++ added ∧ Adds triggers dice batch added used := by
  fun_induction triggers.burst dice bound values batch with
  | case1 _ _ _ hnone =>
      exact Rolling.takes_pure ⟨[], (List.append_nil _).symm, adds_nil hnone⟩
  | case2 => exact Rolling.takes_throw
  | case3 values batch _ _ ih =>
      refine (dice.roll_takes _).bind fun used next hnext ↦ (ih next).imp fun more result ↦ ?_
      rintro ⟨added, rfl, hadds⟩
      exact ⟨next ++ added, List.append_assoc _ _ _, hadds.cons hnext.1 hnext.2⟩

theorem explode_takes (triggers : ValueSet) (dice : Dice) (values : List Value) :
    (triggers.explode dice values).Takes fun used result ↦
      ∃ added, result = values ++ added ∧ Adds triggers dice values added used :=
  fun draws ↦ triggers.burst_takes dice (draws.length + triggers.countIn values) values values draws

end ValueSet

/-! ## Draws for the rolls of a request -/

/-- If nothing but explosions has been applied to the rolls, then their values are those that the
dice shows for the draws. -/
def Rolls.Shows (used : Draws) (r : Rolls) : Prop :=
  ∀ q ∈ r.origin, (∀ a ∈ q.actions, a.explodes) → ∀ shows ∈ q.dice.shows?,
    r.values = used.map shows

namespace Action

variable {r : Rolls} {used : Draws}

/-- Any action takes the next draws, and an explosion adds what is shown for them. -/
theorem transform_takes (a : Action) (r : Rolls) :
    (a.transform r).Takes fun used values ↦ a.explodes → ∀ q ∈ r.origin,
      ∀ shows ∈ q.dice.shows?, values = r.values ++ used.map shows := by
  cases a with
  | reroll kind triggers =>
      refine Rolling.takes_lift_bind fun dice _ ↦ ?_
      exact (triggers.reroll_takes dice r.values).imp fun _ _ _ hexplodes ↦ nomatch hexplodes
  | explode kind triggers =>
      refine Rolling.takes_lift_bind fun dice hdice ↦ ?_
      refine (triggers.explode_takes dice r.values).imp fun used values hvalues ↦ ?_
      obtain ⟨added, rfl, hadds⟩ := hvalues
      intro _ q hq shows hshows
      rw [diceFor_eq hq] at hdice
      cases hdice
      rw [hadds.shown shows hshows]
  | multiply | flip | sum | total =>
      exact Rolling.takes_lift_bind fun _ _ ↦ Rolling.takes_pure fun hexplodes ↦ nomatch hexplodes
  | keep which n =>
      refine Rolling.takes_lift_bind fun _ _ ↦ Rolling.takes_lift_bind fun _ _ ↦ ?_
      exact Rolling.takes_pure fun hexplodes ↦ nomatch hexplodes
  | rerollExtreme which n =>
      refine Rolling.takes_lift_bind fun dice _ ↦ Rolling.takes_lift_bind fun _ _ ↦ ?_
      refine Rolling.takes_lift_bind fun _ _ ↦ (dice.roll_takes n.toNat).bind fun _ _ _ ↦ ?_
      exact Rolling.takes_pure fun hexplodes ↦ nomatch hexplodes

/-- The action need only be an explosion if everything before it was one. -/
theorem apply_takes {a : Action} (h : r.Shows used)
    (ha : ∀ q ∈ r.origin, (∀ b ∈ q.actions, b.explodes) → a.explodes) :
    (a.apply r).Takes fun more t ↦ t.origin = r.origin ∧ t.Shows (used ++ more) := by
  by_cases hkind : a.kind = r.kind
  · rw [apply_of_kind_eq hkind]
    refine (a.transform_takes r).bind fun more values hvalues ↦ ?_
    refine Rolling.takes_lift_bind fun _ _ ↦ Rolling.takes_pure ⟨rfl, ?_⟩
    intro q hq hown shows hshows
    rw [List.append_nil, List.map_append, ← h q hq hown shows hshows]
    exact hvalues (ha q hq hown) q hq shows hshows
  · rw [apply_of_kind_ne hkind]
    exact Rolling.takes_throw

end Action

end TabletopDice
