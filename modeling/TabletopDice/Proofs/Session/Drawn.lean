import TabletopDice.Proofs.Rolling.Additions
import TabletopDice.Proofs.Session.Passage

/-!
# What explosions draw

Sessions take their draws from the front.  As long as all common actions are explosions, a request
whose own actions explode as well holds what its dice shows for the draws that were taken for it, in
the order in which they came.
-/

namespace TabletopDice

theorem Request.roll_takes (q : Request) : q.roll.Takes Rolls.Shows := by
  refine (q.dice.roll_takes q.number).bind fun used values hvalues ↦ ?_
  refine Rolling.takes_lift_bind fun _ _ ↦ Rolling.takes_pure ?_
  rintro _ ⟨⟩ _ shows hshows
  rw [List.append_nil]
  exact hvalues.2 shows hshows

/-- The private actions go on from the first roll. -/
theorem Rolls.applyOwn_takes {r : Rolls} {used : Draws} (h : r.Shows used) :
    r.applyOwn.Takes fun more t ↦ t.Shows (used ++ more) := by
  unfold applyOwn
  split
  next q hq =>
    have hall : (Action.applyAll q.actions r).Takes fun more t ↦
        t.origin = r.origin ∧ t.Shows (used ++ more) := by
      refine Rolling.takes_foldlM (fun before (t : Rolls) ↦ t.origin = r.origin ∧ t.Shows before)
        (fun a ha before t ht ↦ ?_) ⟨rfl, h⟩
      refine (Action.apply_takes ht.2 fun p hp hown ↦ hown a ?_).imp fun more u hu ↦
        ⟨hu.1.trans ht.1, hu.2⟩
      rw [ht.1, hq] at hp
      exact Option.some.inj hp ▸ ha
    exact hall.imp fun more t ht ↦ ht.2
  next => exact Rolling.takes_throw

namespace Session

variable {kind : Kind} {requests : List Request} {actions : List Action} {s : Session}
  {used : Draws}

/-- An open session, the draws for which are shared out among its results. -/
structure Drawn (used : Draws) (s : Session) : Prop where
  terminated_eq : s.terminated = false
  shared : Rolling.Shared Rolls.Shows used s.results

theorem start_takes (kind : Kind) (requests : List Request) :
    (start kind requests).Takes Drawn := by
  unfold start
  split
  · exact Rolling.takes_throw
  · have hnone : Rolling.Shared (fun used _ ↦ used = []) [] requests :=
      Rolling.shared_nil fun _ _ ↦ rfl
    have hrolls : (requests.mapM Request.roll).Takes (Rolling.Shared Rolls.Shows) := by
      refine Rolling.takes_mapM (fun used q hused ↦ ?_) hnone
      rw [hused]
      exact q.roll_takes
    refine hrolls.bind fun used results hresults ↦ Rolling.takes_pure ⟨rfl, ?_⟩
    rwa [List.append_nil]

theorem afterRequestActions_takes (h : Drawn used s) :
    s.afterRequestActions.Takes fun more t ↦ Drawn (used ++ more) t := by
  unfold afterRequestActions
  split
  · exact Rolling.takes_throw
  · have hown : (s.results.mapM Rolls.applyOwn).Takes fun more results ↦
        Rolling.Shared Rolls.Shows (used ++ more) results :=
      Rolling.takes_mapM (fun _ _ hr ↦ Rolls.applyOwn_takes hr) h.shared
    exact (hown.imp fun more results hresults ↦ ⟨h.terminated_eq, hresults⟩).map

theorem afterStep_takes {a : Action} (ha : a.explodes) (h : Drawn used s) :
    (s.afterStep a).Takes fun more t ↦ Drawn (used ++ more) t := by
  have htotal : a ≠ .total := by
    rintro rfl
    cases ha
  by_cases hkind : a.kind = s.kind
  · rw [afterStep_of_kind_eq h.terminated_eq htotal hkind]
    have happly : (s.results.mapM a.apply).Takes fun more results ↦
        Rolling.Shared Rolls.Shows (used ++ more) results := by
      refine Rolling.takes_mapM (fun before r hr ↦ ?_) h.shared
      exact (Action.apply_takes hr fun _ _ _ ↦ ha).imp fun more t ht ↦ ht.2
    exact (happly.imp fun more results hresults ↦ ⟨h.terminated_eq, hresults⟩).map
  · rw [afterStep_of_kind_ne h.terminated_eq htotal hkind]
    exact Rolling.takes_throw

theorem through_takes (hactions : ∀ a ∈ actions, a.explodes) :
    (through kind requests actions).Takes Drawn := by
  rw [through_eq]
  refine (start_takes kind requests).bind fun used s hs ↦ ?_
  refine (afterRequestActions_takes hs).bind fun more t ht ↦ ?_
  refine (Rolling.takes_foldlM Drawn (fun a ha _ _ ↦ afterStep_takes (hactions a ha)) ht).imp ?_
  intro others u hu
  rwa [List.append_assoc] at hu

theorem run?_takes (hactions : ∀ a ∈ actions, a.explodes) :
    (run? kind requests actions false).Takes fun used o ↦ ∀ s ∈ o, Drawn used s := by
  by_cases hne : requests = []
  · subst hne
    exact Rolling.takes_pure fun _ hs ↦ nomatch hs
  · rw [run?_of_ne_nil hne]
    refine (through_takes hactions).bind fun used s hs ↦ Rolling.takes_pure ?_
    rintro _ ⟨⟩
    rwa [List.append_nil]

/-- The single result of a single request. -/
theorem values_of_origins {q : Request} {results : List Rolls} {shows : Int → Value}
    (horigins : results.map Rolls.origin = [some q])
    (hshared : Rolling.Shared Rolls.Shows used results) (hown : ∀ a ∈ q.actions, a.explodes)
    (hshows : q.dice.shows? = some shows) :
    results.map Rolls.values = [used.map shows] := by
  obtain ⟨r, rfl, hr⟩ := List.map_eq_singleton_iff.1 horigins
  exact congrArg ([·]) (hshared.of_singleton q hr hown shows hshows)

end Session

/-- Explosions account for every value.  The result of one begins with the values that were there
before, it has one further value for each trigger among all its values, and if there are any further
values, then the last one is no trigger.  A dice that takes draws shows the next ones as further
values.  So, if nothing but explosions is applied to a request, what it ends with is what its dice
shows for the draws that were taken for it. -/
theorem explosions_account :
    (∀ (triggers : ValueSet) (dice : Dice) (values result : List Value) (draws left : Draws),
      (triggers.explode dice values).run draws = .ok result left →
        ∃ added used, result = values ++ added ∧ draws = used ++ left ∧
          added.length = triggers.countIn result ∧
          (added ≠ [] → ∃ v ∈ result.getLast?, v ∉ triggers) ∧
          ∀ shows ∈ dice.shows?, added = used.map shows ∧ used.length = added.length) ∧
    ∀ (kind : Kind) (requests : List Request) (actions : List Action) (s : Session)
      (draws left : Draws), (∀ a ∈ actions, a.explodes) →
      (Session.run? kind requests actions false).run draws = .ok (some s) left →
        s.results.map Rolls.origin = requests.map some ∧
        ∃ used, draws = used ++ left ∧ Rolling.Shared Rolls.Shows used s.results ∧
          ∀ q shows, requests = [q] → (∀ a ∈ q.actions, a.explodes) →
            q.dice.shows? = some shows → s.results.map Rolls.values = [used.map shows] := by
  constructor
  · intro triggers dice values result draws left hrun
    obtain ⟨used, hdraws, added, rfl, hadds⟩ := triggers.explode_takes dice values _ _ _ hrun
    refine ⟨added, used, rfl, hdraws, hadds.length_eq, fun hne ↦ ?_, fun shows hshows ↦ ?_⟩
    · rw [List.getLast?_append_of_ne_nil _ hne]
      exact ⟨_, List.getLast?_eq_some_getLast hne, hadds.last _ (List.getLast?_eq_some_getLast hne)⟩
    · refine ⟨hadds.shown shows hshows, ?_⟩
      rw [hadds.shown shows hshows, List.length_map]
  · intro kind requests actions s draws left hactions hrun
    obtain ⟨used, hdraws, hs⟩ := Session.run?_takes hactions _ _ _ hrun
    have hdrawn := hs s rfl
    have hrep := (Session.run?_represents kind requests actions).of_ok hrun s rfl
    have horigins := hrep.origins hdrawn.terminated_eq
    refine ⟨horigins, used, hdraws, hdrawn.shared, ?_⟩
    rintro q shows rfl hown hshows
    exact Session.values_of_origins horigins hdrawn.shared hown hshows

/-- Two batches for the sixes, then a private explosion and a common one of fudge dice. -/
theorem explosions_account_of_faces :
    (∃ (result added : List Value) (used : Draws), ((ValueSet.ofList [.number 6]).explode
        (.numbered 6 (by decide)) [.number 6, .number 2]).run [5, 5, 0, 3] = .ok result [3] ∧
        result = .number 6 :: .number 2 :: added ∧ added = used.map (Dice.sideOf 6) ∧
          added.length = (ValueSet.ofList [.number 6]).countIn result) ∧
      ∃ (q : Request) (s : Session) (used : Draws),
        (Session.run? .fudge [q] [.explode .fudge (.ofList [.face .minus])] false).run
          [1, 0, 2, 1, 0, 2, 0, 1] = .ok (some s) [1] ∧
        [1, 0, 2, 1, 0, 2, 0, 1] = used ++ [1] ∧
          s.results.map Rolls.values = [used.map Dice.faceOf] := by
  obtain ⟨hvalues, hrequests⟩ := explosions_account
  constructor
  · have hrun : ((ValueSet.ofList [.number 6]).explode (.numbered 6 (by decide))
        [.number 6, .number 2]).run [5, 5, 0, 3] = .ok _ [3] := rfl
    obtain ⟨added, used, hresult, _, hlength, _, hshown⟩ := hvalues _ _ _ _ _ _ hrun
    exact ⟨_, added, used, hrun, hresult, (hshown _ rfl).1, hlength⟩
  · have hrun : (Session.run? .fudge
        [⟨3, .fudge, none, [.explode .fudge (.ofList [.face .plus])], by decide, by simp⟩]
        [.explode .fudge (.ofList [.face .minus])] false).run [1, 0, 2, 1, 0, 2, 0, 1] =
          .ok (some _) [1] := rfl
    obtain ⟨_, used, hdraws, _, hvalues⟩ := hrequests _ _ _ _ _ _ (by simp [Action.explodes]) hrun
    exact ⟨_, _, used, hrun, hdraws, hvalues _ _ rfl (by simp [Action.explodes]) rfl⟩

end TabletopDice
