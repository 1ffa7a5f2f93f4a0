import TabletopDice.Proofs.Rolling.Possible
import TabletopDice.Proofs.Session.Ending

/-!
# Requests and their own dice

All requests of a session take their draws from one place, but each of them has its own dice.  What
a request holds has come from this dice, as long as nobody calculates with it.
-/

namespace TabletopDice

open List (Forall₂)

variable {requests : List Request} {q : Request} {r : Rolls} {a : Action} {s : Session}
  {stays : Request → Prop}

/-! ## Fresh rolls -/

/-- What a request holds before any action. -/
structure Rolls.Fresh (q : Request) (r : Rolls) : Prop where
  origin_eq : r.origin = some q
  length_eq : r.values.length = q.number
  possible : ∀ v ∈ r.values, q.dice.Possible v
  repeating : ∀ cycle, q.dice = .repeating cycle → ∀ i < q.number,
    r.values[i]? = cycle.toList[i % cycle.toList.length]?

namespace Request

theorem roll_gives_fresh (q : Request) : q.roll.Gives (Rolls.Fresh q) fun _ ↦ True := by
  have hcycle : (q.dice.roll q.number).Gives (fun values ↦ ∀ cycle, q.dice = .repeating cycle →
      ∀ i < q.number, values[i]? = cycle.toList[i % cycle.toList.length]?) fun _ ↦ True := by
    cases q.dice with
    | repeating cycle =>
        apply Rolling.gives_pure
        rintro _ ⟨⟩ i hi
        exact cycle.getElem?_take hi
    | const | numbered | fudge =>
        exact (Rolling.gives_anything _).imp (fun _ _ _ h ↦ by cases h) fun _ h ↦ h
  have hvalues := ((q.dice.roll_gives_length q.number).and
    (q.dice.roll_gives_possible q.number)).and hcycle
  rw [Request.roll]
  refine hvalues.good_only.bind fun values h ↦ ?_
  obtain ⟨⟨hlength, hpossible⟩, hrepeating⟩ := h
  refine Rolling.gives_lift_bind (fun _ _ ↦ trivial) fun _ _ ↦ Rolling.gives_pure ?_
  exact ⟨rfl, hlength, hpossible, hrepeating⟩

/-- Enough draws and numbers that are not too long to write are all that it takes. -/
theorem exists_run_roll {q : Request} {draws : Draws}
    (henough : q.dice.shows?.isSome → q.number ≤ draws.length)
    (hwritable : ∀ n ∈ q.numbers, Writable n) :
    ∃ r left, q.roll.run draws = .ok r left := by
  obtain ⟨values, left, hroll, _⟩ := Dice.exists_roll henough
  refine ⟨⟨q.kind, q.text, values, some q⟩, left, ?_⟩
  rw [Request.roll, Rolling.run_bind_of_ok hroll, checkWritable, if_pos hwritable]
  rfl

end Request

/-! ## Results -/

/-- The rolls have come from the request, and if it is one that stays on its dice, they are possible
values of this dice. -/
structure Rolls.OnDice (stays : Request → Prop) (q : Request) (r : Rolls) : Prop where
  origin_eq : r.origin = some q
  possible : stays q → ∀ v ∈ r.values, q.dice.Possible v

namespace Rolls

theorem Fresh.onDice (h : r.Fresh q) : r.OnDice stays q := ⟨h.origin_eq, fun _ ↦ h.possible⟩

theorem apply_onDice (ha : stays q → a.staysOnDice) (h : r.OnDice stays q) :
    (a.apply r).Gives (OnDice stays q) fun _ ↦ True := by
  have hpossible : (a.apply r).Gives (fun t ↦ stays q → ∀ v ∈ t.values, q.dice.Possible v)
      fun _ ↦ True := by
    by_cases hkind : a.kind = r.kind
    · by_cases hq : stays q
      · rw [Action.apply_of_kind_eq hkind]
        refine (Action.transform_gives_possible (ha hq) h.origin_eq (h.possible hq)).bind
          fun values hvalues ↦ ?_
        exact Rolling.gives_lift_bind (fun _ _ ↦ trivial)
          fun _ _ ↦ Rolling.gives_pure fun _ ↦ hvalues
      · exact (Rolling.gives_anything _).imp (fun _ _ hstays ↦ (hq hstays).elim) fun _ hf ↦ hf
    · rw [Action.apply_of_kind_ne hkind]
      exact fun _ ↦ trivial
  refine ((a.apply_describes r).and hpossible).imp (fun t ht ↦ ?_) fun _ _ ↦ trivial
  exact ⟨ht.1.2.1.trans h.origin_eq, ht.2⟩

theorem applyAll_onDice {actions : List Action} (hactions : ∀ a ∈ actions, stays q → a.staysOnDice)
    (h : r.OnDice stays q) : (Action.applyAll actions r).Gives (OnDice stays q) fun _ ↦ True := by
  induction actions generalizing r with
  | nil => exact Rolling.gives_pure h
  | cons a rest ih =>
      rw [Action.applyAll, List.foldlM_cons]
      refine (apply_onDice (hactions a List.mem_cons_self) h).bind fun t ht ↦ ?_
      exact ih (fun b hb ↦ hactions b (List.mem_cons_of_mem a hb)) ht

theorem applyOwn_onDice (hown : stays q → ∀ a ∈ q.actions, a.staysOnDice)
    (h : r.OnDice stays q) : r.applyOwn.Gives (OnDice stays q) fun _ ↦ True := by
  rw [Session.applyOwn_eq h.origin_eq]
  exact applyAll_onDice (fun a ha hq ↦ hown hq a ha) h

end Rolls

/-! ## Sessions -/

namespace Session

/-- An open session with one result for each request, all of which are on their dice. -/
structure OnDice (stays : Request → Prop) (requests : List Request) (s : Session) : Prop where
  terminated_eq : s.terminated = false
  results_onDice : Forall₂ (Rolls.OnDice stays) requests s.results

theorem start_onDice (stays : Request → Prop) (kind : Kind) (requests : List Request) :
    (start kind requests).Gives (OnDice stays requests) fun _ ↦ True := by
  refine start_gives_of fun _ ↦ (Rolling.gives_mapM fun q _ ↦ q.roll_gives_fresh).imp
    (fun results hresults ↦ ?_) fun _ hf ↦ hf
  exact ⟨rfl, hresults.imp fun _ _ hr ↦ hr.onDice⟩

theorem afterRequestActions_onDice (hown : ∀ q, stays q → ∀ a ∈ q.actions, a.staysOnDice)
    (h : s.OnDice stays requests) :
    s.afterRequestActions.Gives (OnDice stays requests) fun _ ↦ True := by
  refine afterRequestActions_gives_of fun hopen ↦ ?_
  have happly := Rolling.gives_mapM_of_related h.results_onDice fun q r hr ↦
    Rolls.applyOwn_onDice (hown q) hr
  exact happly.imp (fun results hresults ↦ ⟨hopen, hresults⟩) fun _ hf ↦ hf

theorem afterStep_onDice (htotal : a ≠ .total) (ha : ∀ q, stays q → a.staysOnDice)
    (h : s.OnDice stays requests) :
    (s.afterStep a).Gives (OnDice stays requests) fun _ ↦ True := by
  refine afterStep_gives_of (fun _ hsum ↦ (htotal hsum).elim) fun hopen _ ↦ ?_
  have happly := Rolling.gives_mapM_of_related h.results_onDice fun q r hr ↦
    Rolls.apply_onDice (ha q) hr
  exact happly.imp (fun results hresults ↦ ⟨hopen, hresults⟩) fun _ hf ↦ hf

end Session

namespace Step

/-- The actions that the step applies to the rolls of the request. -/
def actionsOn (q : Request) : Step → List Action
  | requestActions => q.actions
  | action a => [a]
  | run actions => q.actions ++ actions
  | count | enterCount => []

theorem perform_onDice {step : Step} (hends : ¬step.Ends)
    (hstays : ∀ q, stays q → ∀ a ∈ step.actionsOn q, a.staysOnDice) :
    step.perform.Keeps (Session.OnDice stays requests) := by
  have hown (h : ∀ q, stays q → ∀ a ∈ q.actions, a.staysOnDice) :
      Session.applyRequestActions.Keeps (Session.OnDice stays requests) := by
    rw [Session.applyRequestActions_eq]
    exact Play.keeps_update fun s ↦ Session.afterRequestActions_onDice h
  have hadd {a : Action} (htotal : a ≠ .total) (ha : ∀ q, stays q → a.staysOnDice) :
      (Session.addStep a).Keeps (Session.OnDice stays requests) := by
    rw [Session.addStep_eq]
    exact Play.keeps_update fun s ↦ Session.afterStep_onDice htotal ha
  cases step with
  | requestActions => exact (hown hstays).bind fun _ ↦ Play.keeps_pure none
  | action a =>
      have ha : ∀ q, stays q → a.staysOnDice := fun q hq ↦ hstays q hq a (List.mem_singleton_self a)
      exact (hadd hends ha).bind fun _ ↦ Play.keeps_pure none
  | run actions =>
      have hrun : (Session.runActions actions).Keeps (Session.OnDice stays requests) := by
        refine (hown fun q hq a ha ↦ hstays q hq a (List.mem_append_left _ ha)).bind fun _ ↦ ?_
        refine Play.keeps_forM fun a ha ↦ hadd (ne_of_mem_of_not_mem ha hends) fun q hq ↦ ?_
        exact hstays q hq a (List.mem_append_right _ ha)
      exact hrun.bind fun _ ↦ Play.keeps_pure none
  | count =>
      intro table h
      rwa [leaves_count]
  | enterCount => exact (hends trivial).elim

end Step

theorem Table.after_onDice {table : Table} {steps : List Step} (hends : ∀ step ∈ steps, ¬step.Ends)
    (hstays : ∀ q, stays q → ∀ step ∈ steps, ∀ a ∈ step.actionsOn q, a.staysOnDice)
    (h : table.session.OnDice stays requests) :
    (table.after steps).session.OnDice stays requests :=
  Table.after_keeps (fun step hstep ↦
    step.perform_onDice (hends step hstep) fun q hq ↦ hstays q hq step hstep) h

/-- A fresh roll holds as many values as the request asks for, and all of them are values of its own
dice.  They remain so whatever is rolled again, added or selected, by private or by common actions,
and even where some of the steps fail. -/
theorem values_stay_on_dice :
    (∀ (q : Request) (draws : Draws), (q.dice.shows?.isSome → q.number ≤ draws.length) →
      (∀ n ∈ q.numbers, Writable n) → ∃ r left, q.roll.run draws = .ok r left) ∧
    (∀ (q : Request) (r : Rolls) (draws left : Draws), q.roll.run draws = .ok r left → r.Fresh q) ∧
    ∀ (kind : Kind) (requests : List Request) (s : Session) (draws left : Draws)
      (steps : List Step), (Session.start kind requests).run draws = .ok s left →
      (∀ step ∈ steps, ¬step.Ends) →
        Forall₂ (Rolls.OnDice fun q ↦ ∀ step ∈ steps, ∀ a ∈ step.actionsOn q, a.staysOnDice)
          requests (Table.after ⟨s, left⟩ steps).session.results := by
  refine ⟨fun q draws ↦ Request.exists_run_roll, fun q r draws left hrun ↦ ?_,
    fun kind requests s draws left steps hstart hends ↦ ?_⟩
  · exact q.roll_gives_fresh.of_ok hrun
  · have hstarted := Session.start_onDice (fun q ↦ ∀ step ∈ steps, ∀ a ∈ step.actionsOn q,
      a.staysOnDice) kind requests
    exact (Table.after_onDice hends (fun q hq ↦ hq) (hstarted.of_ok hstart)).results_onDice

/-- A four-sided and an eight-sided dice show different values for the same draw when both of them
are exploded, and a repeating dice starts over. -/
theorem values_stay_on_dice_of_two :
    (∃ (q : Request) (r : Rolls) (left : Draws), q.number = 3 ∧ q.roll.run [] = .ok r left ∧
      r.Fresh q ∧ r.values[2]? = some (.number 1)) ∧
    ∃ (requests : List Request) (s : Session) (left : Draws) (steps : List Step),
      (Session.start .numeric requests).run [0, 3, 7, 2, 4, 4] = .ok s left ∧
      (Table.after ⟨s, left⟩ steps).session.results.map Rolls.values =
        [[3, 4, 1].map .number, [8, 5].map .number] ∧
      Forall₂ (fun q r ↦ ∀ v ∈ r.values, q.dice.Possible v) requests
        (Table.after ⟨s, left⟩ steps).session.results := by
  obtain ⟨hroll, hfresh, hsession⟩ := values_stay_on_dice
  constructor
  · let q : Request := ⟨3, .repeating ⟨.number 1, [.number 2], by simp [Value.kind]⟩, none, [],
      by decide, by simp⟩
    obtain ⟨r, left, hrun⟩ := hroll q [] (fun h ↦ nomatch h) (by decide)
    have hr := hfresh q r [] left hrun
    exact ⟨q, r, left, rfl, hrun, hr, hr.repeating _ rfl 2 (by decide)⟩
  · let requests : List Request :=
      [⟨2, .numbered 4 (by decide), none, [.reroll .numeric (.ofList [.number 1])], by decide,
        by simp⟩, ⟨1, .numbered 8 (by decide), none, [], by decide, by simp⟩]
    have hstart : (Session.start .numeric requests).run [0, 3, 7, 2, 4, 4] = .ok _ [2, 4, 4] := rfl
    refine ⟨requests, _, _, [.requestActions,
      .action (.explode .numeric (.ofList [.number 4, .number 8]))], hstart, rfl, ?_⟩
    refine related_imp (hsession _ _ _ _ _ _ hstart (by simp [Step.Ends])) fun q hq r hr hon ↦ ?_
    apply hon.possible
    simp only [requests, List.mem_cons, List.not_mem_nil, or_false] at hq
    rcases hq with rfl | rfl <;> simp [Step.actionsOn, Action.staysOnDice]

end TabletopDice
