import TabletopDice.Proofs.Rolling.Shown
import TabletopDice.Rolling.Triggers

/-!
# Batches of an explosion

An explosion rolls batch after batch as long as the last one holds triggers.  `Ends` follows this
loop without any bound, so an explosion that goes on for ever has no ending.  The bound with which
explosions are computed is high enough: whatever ends at all ends within it.
-/

namespace TabletopDice.ValueSet

variable {triggers : ValueSet} {dice : Dice} {shows : Int → Value} {v : Value} {n bound : Nat}
  {values batch next : List Value} {draws mid left : Draws}
  {ending : EStateM.Result Failure Draws (List Value)}

/-! ## Triggers in a batch -/

theorem countIn_append (triggers : ValueSet) (l u : List Value) :
    triggers.countIn (l ++ u) = triggers.countIn l + triggers.countIn u :=
  List.countP_append

theorem countIn_le_length (triggers : ValueSet) (l : List Value) :
    triggers.countIn l ≤ l.length :=
  List.countP_le_length

theorem countIn_eq_zero_iff {l : List Value} : triggers.countIn l = 0 ↔ ∀ v ∈ l, v ∉ triggers := by
  simp [countIn]

/-! ## The loop without a bound -/

/-- How the loop ends, and after how many batches.  It has come to `values`, of which `batch` have
been rolled last. -/
inductive Ends (triggers : ValueSet) (dice : Dice) :
    Nat → List Value → List Value → Draws → EStateM.Result Failure Draws (List Value) → Prop where
  | done {values batch : List Value} {draws : Draws} (hnone : triggers.countIn batch = 0) :
      Ends triggers dice 0 values batch draws (.ok values draws)
  | stuck {values batch : List Value} {draws left : Draws} {f : Failure}
      (hsome : triggers.countIn batch ≠ 0)
      (hroll : (dice.roll (triggers.countIn batch)).run draws = .error f left) :
      Ends triggers dice 0 values batch draws (.error f left)
  | batch {n : Nat} {values batch next : List Value} {draws mid : Draws}
      {ending : EStateM.Result Failure Draws (List Value)} (hsome : triggers.countIn batch ≠ 0)
      (hroll : (dice.roll (triggers.countIn batch)).run draws = .ok next mid)
      (hrest : Ends triggers dice n (values ++ next) next mid ending) :
      Ends triggers dice (n + 1) values batch draws ending

/-- The explosion of the values comes to an end. -/
def Stops (triggers : ValueSet) (dice : Dice) (values : List Value) (draws : Draws) : Prop :=
  ∃ n ending, Ends triggers dice n values values draws ending

/-- Only a lack of draws can break the loop. -/
theorem Ends.eq_noDrawLeft {f : Failure}
    (h : Ends triggers dice n values batch draws (.error f left)) :
    f = .noDrawLeft ∧ left = [] := by
  generalize hending : EStateM.Result.error f left = ending at h
  induction h with
  | done hnone => cases hending
  | stuck hsome hroll =>
      cases hending
      exact Dice.run_roll_eq_error hroll
  | batch hsome hroll hrest ih => exact ih hending

/-! ## From one batch to the next -/

theorem length_of_shows (h : dice.shows? = some shows)
    (hroll : (dice.roll n).run draws = .ok next mid) :
    mid.length + n = draws.length ∧ next.length = n := by
  obtain ⟨used, rfl, rfl, hused⟩ := Dice.run_roll_eq_ok_of_shows h hroll
  refine ⟨?_, by rw [List.length_map, hused]⟩
  rw [List.length_append, hused, Nat.add_comm]

/-- A roll without draws begins with the same value as ever, be it a trigger or not. -/
theorem roll_of_opening (h : dice.opening? = some v) (hn : n ≠ 0)
    (hroll : (dice.roll n).run draws = .ok next mid) :
    mid = draws ∧ ∃ rest, next = v :: rest ∧ rest.length + 1 = n := by
  obtain ⟨values, hrun, hlength, hhead⟩ := Dice.run_roll_of_opening h n draws
  rw [hrun] at hroll
  cases hroll
  refine ⟨rfl, ?_⟩
  cases next with
  | nil => exact (hn hlength.symm).elim
  | cons w rest =>
      obtain rfl : w = v := hhead w rfl
      exact ⟨rest, rfl, hlength⟩

theorem countIn_lt_of_opening (h : dice.opening? = some v) (hv : v ∉ triggers) (hn : n ≠ 0)
    (hroll : (dice.roll n).run draws = .ok next mid) : triggers.countIn next < n := by
  obtain ⟨_, rest, rfl, hrest⟩ := roll_of_opening h hn hroll
  have hle := triggers.countIn_le_length rest
  have hcount : triggers.countIn (v :: rest) = triggers.countIn rest :=
    List.countP_cons_of_neg (by simpa using hv)
  omega

theorem countIn_ne_zero_of_opening (h : dice.opening? = some v) (hv : v ∈ triggers) (hn : n ≠ 0)
    (hroll : (dice.roll n).run draws = .ok next mid) : triggers.countIn next ≠ 0 := by
  obtain ⟨_, rest, rfl, _⟩ := roll_of_opening h hn hroll
  exact fun hzero ↦ countIn_eq_zero_iff.1 hzero v List.mem_cons_self hv

/-- If the first value of every batch is a trigger, there is no end to them. -/
theorem not_ends_of_opening (h : dice.opening? = some v) (hv : v ∈ triggers)
    (hsome : triggers.countIn batch ≠ 0) : ¬Ends triggers dice n values batch draws ending := by
  intro hends
  induction hends with
  | done hnone => exact hsome hnone
  | stuck _ hroll =>
      obtain ⟨values, hrun, _⟩ := Dice.run_roll_of_opening h _ _
      rw [hrun] at hroll
      cases hroll
  | batch _ hroll _ ih => exact ih (countIn_ne_zero_of_opening h hv hsome hroll)

/-- The draws left and the triggers in the batch become fewer with each batch, unless the dice shows
a trigger first. -/
theorem measure_lt (hopening : ∀ v ∈ dice.opening?, v ∉ triggers)
    (hsome : triggers.countIn batch ≠ 0)
    (hroll : (dice.roll (triggers.countIn batch)).run draws = .ok next mid) :
    mid.length + triggers.countIn next < draws.length + triggers.countIn batch := by
  rcases dice.exists_shows_or_opening with ⟨shows, hshows⟩ | ⟨v, hv⟩
  · obtain ⟨hmid, hnext⟩ := length_of_shows hshows hroll
    have hle := triggers.countIn_le_length next
    omega
  · have hlt := countIn_lt_of_opening hv (hopening v hv) hsome hroll
    rw [(roll_of_opening hv hsome hroll).1]
    omega

/-! ## Endings -/

theorem exists_ends (hopening : ∀ v ∈ dice.opening?, v ∉ triggers) (values batch : List Value)
    (draws : Draws) : ∃ n ending, Ends triggers dice n values batch draws ending := by
  induction hmeasure : draws.length + triggers.countIn batch using Nat.strongRecOn
    generalizing values batch draws with
  | _ measure ih =>
      by_cases hsome : triggers.countIn batch = 0
      · exact ⟨0, _, .done hsome⟩
      · cases hroll : (dice.roll (triggers.countIn batch)).run draws with
        | ok next mid =>
            have hlt := measure_lt hopening hsome hroll
            obtain ⟨n, ending, hends⟩ := ih _ (hmeasure ▸ hlt) (values ++ next) next mid rfl
            exact ⟨n + 1, ending, .batch hsome hroll hends⟩
        | error f left => exact ⟨0, _, .stuck hsome hroll⟩

/-- On a dice that takes draws, each batch takes one at least. -/
theorem Ends.le_length (h : Ends triggers dice n values batch draws ending)
    (hshows : dice.shows? = some shows) : n ≤ draws.length := by
  induction h with
  | done | stuck => exact Nat.zero_le _
  | batch hsome hroll hrest ih =>
      have hmid := (length_of_shows hshows hroll).1
      omega

/-- On a dice that takes no draws, each batch has fewer triggers than the one before. -/
theorem Ends.le_countIn (h : Ends triggers dice n values batch draws ending)
    (hopening : dice.opening? = some v) : n ≤ triggers.countIn batch := by
  induction h with
  | done | stuck => exact Nat.zero_le _
  | batch hsome hroll hrest ih =>
      have hv : v ∉ triggers := fun hv ↦
        not_ends_of_opening hopening hv (countIn_ne_zero_of_opening hopening hv hsome hroll) hrest
      have hlt := countIn_lt_of_opening hopening hv hsome hroll
      omega

theorem stops_iff_of_opening (h : dice.opening? = some v) :
    Stops triggers dice values draws ↔ triggers.countIn values = 0 ∨ v ∉ triggers := by
  constructor
  · rintro ⟨n, ending, hends⟩
    by_cases hv : v ∈ triggers
    · exact .inl (Decidable.byContradiction fun hsome ↦ not_ends_of_opening h hv hsome hends)
    · exact .inr hv
  · rintro (hnone | hv)
    · exact ⟨0, _, .done hnone⟩
    · exact exists_ends (fun w hw ↦ Option.some.inj (h.symm.trans hw) ▸ hv) values values draws

/-! ## The bound -/

theorem burst_of_done (hnone : triggers.countIn batch = 0) :
    triggers.burst dice bound values batch = return values := by
  rw [burst.eq_def, if_pos hnone]

theorem burst_succ (hsome : triggers.countIn batch ≠ 0) :
    triggers.burst dice (bound + 1) values batch = (do
      let next ← dice.roll (triggers.countIn batch)
      triggers.burst dice bound (values ++ next) next) := by
  rw [burst, if_neg hsome]

/-- Whatever ends is computed within the bound. -/
theorem Ends.run_burst (h : Ends triggers dice n values batch draws ending)
    (hbound : draws.length + triggers.countIn batch ≤ bound) :
    (triggers.burst dice bound values batch).run draws = ending := by
  induction h generalizing bound with
  | done hnone =>
      rw [burst_of_done hnone]
      rfl
  | stuck hsome hroll =>
      obtain ⟨bound, rfl⟩ : ∃ b, bound = b + 1 := ⟨bound - 1, by omega⟩
      rw [burst_succ hsome]
      exact Rolling.run_bind_of_error hroll
  | batch hsome hroll hrest ih =>
      have hopening : ∀ v ∈ dice.opening?, v ∉ triggers := fun v hv hmem ↦
        not_ends_of_opening hv hmem (countIn_ne_zero_of_opening hv hmem hsome hroll) hrest
      have hlt := measure_lt hopening hsome hroll
      obtain ⟨bound, rfl⟩ : ∃ b, bound = b + 1 := ⟨bound - 1, by omega⟩
      rw [burst_succ hsome, Rolling.run_bind_of_ok hroll]
      exact ih (by omega)

theorem exists_ends_of_run_burst
    (hrun : (triggers.burst dice bound values batch).run draws = ending)
    (hstops : ∀ left, ending ≠ .error .endlessExplosion left) :
    ∃ n, Ends triggers dice n values batch draws ending := by
  fun_induction triggers.burst dice bound values batch generalizing draws with
  | case1 _ _ _ hnone => exact ⟨0, hrun ▸ .done hnone⟩
  | case2 => exact (hstops draws hrun.symm).elim
  | case3 values batch hsome bound ih =>
      cases hroll : (dice.roll (triggers.countIn batch)).run draws with
      | ok next mid =>
          rw [Rolling.run_bind_of_ok hroll] at hrun
          obtain ⟨n, hends⟩ := ih next hrun
          exact ⟨n + 1, .batch hsome hroll hends⟩
      | error f left =>
          rw [Rolling.run_bind_of_error hroll] at hrun
          exact ⟨0, hrun ▸ .stuck hsome hroll⟩

/-- The explosion is its loop, as far as that ends. -/
theorem exists_ends_iff :
    (∃ n, Ends triggers dice n values values draws ending) ↔
      (triggers.explode dice values).run draws = ending ∧
        ∀ left, ending ≠ .error .endlessExplosion left := by
  have hburst : (triggers.explode dice values).run draws =
      (triggers.burst dice (draws.length + triggers.countIn values) values values).run draws := rfl
  rw [hburst]
  constructor
  · rintro ⟨n, hends⟩
    refine ⟨hends.run_burst (Nat.le_refl _), ?_⟩
    rintro left rfl
    cases hends.eq_noDrawLeft.1
  · rintro ⟨hrun, hstops⟩
    exact exists_ends_of_run_burst hrun hstops

/-! ## Stopping -/

/-- When an explosion stops.  A dice that takes no draws shows the same value first in every batch,
and only this value and the triggers at the start decide.  A dice that takes draws may run out of
them, and does so at the latest after one batch for each. -/
theorem explosion_stops_iff (triggers : ValueSet) (values : List Value) (draws : Draws) :
    (∀ dice ending, (∃ n, Ends triggers dice n values values draws ending) ↔
      (triggers.explode dice values).run draws = ending ∧
        ∀ left, ending ≠ .error .endlessExplosion left) ∧
    (∀ v, Stops triggers (.const v) values draws ↔ triggers.countIn values = 0 ∨ v ∉ triggers) ∧
    (∀ cycle,
      (Stops triggers (.repeating cycle) values draws ↔
        triggers.countIn values = 0 ∨ cycle.first ∉ triggers) ∧
      ∀ n ending, Ends triggers (.repeating cycle) n values values draws ending →
        n ≤ triggers.countIn values) ∧
    ∀ dice, dice.shows?.isSome →
      Stops triggers dice values draws ∧
        ∀ n ending, Ends triggers dice n values values draws ending → n ≤ draws.length ∧
          ((∃ result left, ending = .ok result left) ∨ ending = .error .noDrawLeft []) := by
  refine ⟨fun dice ending ↦ exists_ends_iff, fun v ↦ stops_iff_of_opening rfl, fun cycle ↦ ?_,
    fun dice hdice ↦ ?_⟩
  · exact ⟨stops_iff_of_opening rfl, fun n ending hends ↦ hends.le_countIn rfl⟩
  · obtain ⟨shows, hshows⟩ := Option.isSome_iff_exists.1 hdice
    refine ⟨exists_ends (fun v hv ↦ ?_) values values draws, fun n ending hends ↦
      ⟨hends.le_length hshows, ?_⟩⟩
    · rw [Dice.opening?_of_shows hshows] at hv
      cases hv
    · cases ending with
      | ok result left => exact .inl ⟨result, left, rfl⟩
      | error f left =>
          obtain ⟨rfl, rfl⟩ := hends.eq_noDrawLeft
          exact .inr rfl

/-- Three sixes explode on a dice that shows 1, 6, 6 over and over: three rolls, two, and one. -/
theorem explosion_stops_of_cycle :
    ∃ (triggers : ValueSet) (cycle : Cycle) (values : List Value),
      triggers.countIn values = 3 ∧
        Stops triggers (.repeating cycle) values [] ∧
        Ends triggers (.repeating cycle) 3 values values []
          (.ok (values ++ [.number 1, .number 6, .number 6, .number 1, .number 6, .number 1]) []) ∧
        3 ≤ triggers.countIn values ∧ ¬Stops triggers (.const (.number 6)) values [] := by
  obtain ⟨_, hconst, hcycle, _⟩ := explosion_stops_iff (.ofList [.number 6])
    [.number 6, .number 6, .number 6] []
  have hends : Ends (.ofList [.number 6])
      (.repeating ⟨.number 1, [.number 6, .number 6], by simp [Value.kind]⟩) 3
      [.number 6, .number 6, .number 6] [.number 6, .number 6, .number 6] [] (.ok _ []) :=
    .batch (by decide) rfl (.batch (by decide) rfl (.batch (by decide) rfl (.done (by decide))))
  refine ⟨_, _, _, by decide, (hcycle _).1.2 (.inr (by decide)), hends,
    (hcycle _).2 3 _ hends, fun hstops ↦ ?_⟩
  rcases (hconst (.number 6)).1 hstops with hnone | hnot
  · exact absurd hnone (by decide)
  · exact hnot (by decide)

end TabletopDice.ValueSet
