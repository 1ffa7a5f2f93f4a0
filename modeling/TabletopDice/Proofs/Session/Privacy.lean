import TabletopDice.Proofs.Rolling.Stillness
import TabletopDice.Proofs.Session.Passage

/-!
# Private and common actions

Common actions take all results one step further before the next action has its turn, while private
actions take one result all the way before the next one has its turn.  For a single request there is
no difference.  For several requests the order of the draws is not the same, so it takes dice
without draws for the two to agree, and then they agree except for the failure that is come upon
first.
-/

namespace TabletopDice

open List (Forall₂)

variable {kind : Kind} {requests : List Request} {actions : List Action} {r : Rolls} {q : Request}

/-! ## More private actions -/

/-- The request with more actions after its own ones. -/
def Request.append (actions : List Action) (q : Request) : Request :=
  { q with actions := q.actions ++ actions }

namespace Rolls

/-- What there is to see of rolls: everything but the request behind them. -/
def seen (r : Rolls) : Kind × Text × List Value := (r.kind, r.description, r.values)

/-- The rolls with more private actions for the request behind them. -/
def append (actions : List Action) (r : Rolls) : Rolls :=
  { r with origin := r.origin.map (Request.append actions) }

theorem dice?_append (actions : List Action) (r : Rolls) : (r.append actions).dice? = r.dice? := by
  rw [dice?, append, Option.map_map]
  rfl

theorem diceFor_append (a : Action) : a.diceFor (r.append actions) = a.diceFor r := by
  unfold Action.diceFor
  rw [dice?_append]
  rfl

/-- Actions see the dice behind the rolls, but not what else has been asked for. -/
theorem transform_append (a : Action) : a.transform (r.append actions) = a.transform r := by
  cases a with
  | multiply | sum | total | keep => rfl
  | reroll | explode | rerollExtreme =>
      unfold Action.transform
      simp only [diceFor_append]
      rfl
  | flip =>
      unfold Action.transform Action.flipped
      simp only [diceFor_append]
      rfl

theorem apply_append (a : Action) : a.apply (r.append actions) = append actions <$> a.apply r := by
  by_cases ha : a.kind = r.kind
  · rw [Action.apply_of_kind_eq ha, Action.apply_of_kind_eq (r := r.append actions) ha,
      transform_append, map_bind]
    refine bind_congr fun values ↦ ?_
    rw [map_bind]
    rfl
  · rw [Action.apply_of_kind_ne ha, Action.apply_of_kind_ne (r := r.append actions) ha]
    rfl

theorem applyAll_append (more : List Action) :
    Action.applyAll more (r.append actions) = append actions <$> Action.applyAll more r := by
  induction more generalizing r with
  | nil => rfl
  | cons a rest ih =>
      simp only [Action.applyAll, List.foldlM_cons] at ih ⊢
      rw [apply_append, bind_map_left, map_bind]
      exact bind_congr fun t ↦ ih

theorem applyOwn_append (hq : r.origin = some q) : (r.append actions).applyOwn =
    append actions <$> (r.applyOwn >>= Action.applyAll actions) := by
  have horigin : (r.append actions).origin = some (q.append actions) := by rw [append, hq]; rfl
  rw [Session.applyOwn_eq horigin, Session.applyOwn_eq hq, applyAll_append]
  congr 1
  exact List.foldlM_append

theorem mapM_applyOwn_append {results : List Rolls}
    (h : Forall₂ (StemsFrom kind) requests results) :
    (results.map (append actions)).mapM applyOwn = List.map (append actions) <$>
      results.mapM fun r ↦ r.applyOwn >>= Action.applyAll actions := by
  rw [List.mapM_map, ← Rolling.mapM_map_eq]
  induction h with
  | nil => rfl
  | cons hr _ ih =>
      rw [List.mapM_cons, List.mapM_cons, ih, Function.comp_apply, applyOwn_append hr.origin_eq]

theorem map_seen_append (results : List Rolls) :
    (results.map (append actions)).map seen = results.map seen := by
  rw [List.map_map]
  rfl

theorem applyOwn_still (h : r.AreFixed) : r.applyOwn.Still AreFixed := by
  unfold applyOwn
  split
  · exact applyAll_still h _
  · exact Rolling.still_throw

end Rolls

theorem Request.roll_still (q : Request) (h : q.dice.isFixed) : q.roll.Still Rolls.AreFixed := by
  unfold roll
  refine (Dice.roll_still h q.number).bind fun values _ ↦ Rolling.still_lift_bind fun _ _ ↦ ?_
  refine Rolling.still_pure fun d hd ↦ ?_
  rw [← Option.mem_some.1 hd]
  exact h

theorem roll_append (q : Request) :
    (q.append actions).roll = Rolls.append actions <$> q.roll := by
  rw [Request.roll, Request.roll, map_bind]
  refine bind_congr fun values ↦ ?_
  rw [map_bind]
  rfl

namespace Session

/-! ## The two ways through a session -/

/-- Takes all results through one action after the other. -/
def takeAll (actions : List Action) (results : List Rolls) : Rolling (List Rolls) :=
  actions.foldlM (fun (results : List Rolls) a ↦ results.mapM a.apply) results

/-- What there is to see of a session's results. -/
def seen (s : Session) : List (Kind × Text × List Value) := s.results.map Rolls.seen

variable {s : Session}

/-- Results of the session's kind make sure that an action of the other kind is refused. -/
theorem afterStep_eq_mapM {a : Action} (hopen : s.terminated = false) (htotal : a ≠ .total)
    (hkind : ∀ r ∈ s.results, r.kind = s.kind) (hne : s.results ≠ []) :
    s.afterStep a = (fun results ↦ { s with results }) <$> s.results.mapM a.apply := by
  by_cases ha : a.kind = s.kind
  · exact afterStep_of_kind_eq hopen htotal ha
  · -- The first result refuses the action in the same words as the session would.
    obtain ⟨r, rest, hresults⟩ := List.exists_cons_of_ne_nil hne
    have hr : r.kind = s.kind := hkind r (by simp [hresults])
    have hmismatched : Failure.Mismatched (.incompatible (.action a) s.kind .kind) := trivial
    rw [afterStep_of_kind_ne hopen htotal ha, Rolling.fail, hmismatched.raised, hresults,
      List.mapM_cons, Action.apply_of_kind_ne (hr ▸ ha), hr]
    rfl

theorem foldlM_afterStep_eq (hopen : s.terminated = false)
    (hresults : Forall₂ (Rolls.StemsFrom s.kind) requests s.results) (hne : requests ≠ [])
    (htotal : .total ∉ actions) :
    actions.foldlM afterStep s =
      (fun results ↦ { s with results }) <$> takeAll actions s.results := by
  induction actions generalizing s with
  | nil => rfl
  | cons a rest ih =>
      rw [List.mem_cons, not_or] at htotal
      have happly := Rolling.gives_mapM_of_related hresults fun _ _ hr ↦ Rolls.apply_stemsFrom hr a
      rw [takeAll, List.foldlM_cons, List.foldlM_cons, map_bind,
        afterStep_eq_mapM hopen (Ne.symm htotal.1) (results_kind hresults)
          (results_ne_nil hresults hne), bind_map_left]
      exact happly.bind_congr fun results h ↦ ih (s := { s with results }) hopen h htotal.2

/-- The common actions come after all private ones. -/
theorem seen_through_eq (hne : requests ≠ []) (hkind : ∀ q ∈ requests, q.kind = kind)
    (htotal : .total ∉ actions) :
    seen <$> through kind requests actions = List.map Rolls.seen <$> (do
      let rolled ← requests.mapM Request.roll
      let own ← rolled.mapM Rolls.applyOwn
      takeAll actions own) := by
  rw [through_eq, start_of_kind hkind]
  simp only [bind_map_left, map_bind]
  refine (rolled_stemsFrom hkind).bind_congr fun rolled hrolled ↦ ?_
  have hown := Rolling.gives_mapM_of_related hrolled fun _ _ hr ↦ Rolls.applyOwn_stemsFrom hr
  rw [afterRequestActions, if_neg (by simp), bind_map_left]
  refine hown.bind_congr fun own h ↦ ?_
  rw [foldlM_afterStep_eq rfl h hne htotal, Functor.map_map]
  rfl

/-- Private actions after the own ones come before the next result has its turn. -/
theorem seen_through_append (actions : List Action)
    (hkind : ∀ q ∈ requests, q.kind = kind) :
    seen <$> through kind (requests.map (·.append actions)) [] = List.map Rolls.seen <$> (do
      let rolled ← requests.mapM Request.roll
      rolled.mapM fun r ↦ r.applyOwn >>= Action.applyAll actions) := by
  have hkind' : ∀ q ∈ requests.map (·.append actions), q.kind = kind := by
    intro q hq
    obtain ⟨p, hp, rfl⟩ := List.mem_map.1 hq
    exact hkind p hp
  rw [through_eq, start_of_kind hkind', List.mapM_map]
  have hroll : (fun q : Request ↦ (q.append actions).roll) =
      fun q ↦ Rolls.append actions <$> q.roll := funext roll_append
  simp only [Function.comp_def, hroll, Rolling.mapM_map_eq, bind_map_left, map_bind]
  refine (rolled_stemsFrom hkind).bind_congr fun rolled hrolled ↦ ?_
  rw [afterRequestActions, if_neg (by simp), bind_map_left]
  rw [Rolls.mapM_applyOwn_append hrolled]
  rw [bind_map_left, ← bind_pure_comp]
  refine bind_congr fun results ↦ ?_
  rw [List.foldlM_nil, map_pure]
  exact congrArg pure (Rolls.map_seen_append results)

/-! ## Agreement -/

theorem takeAll_singleton (actions : List Action) (r : Rolls) :
    takeAll actions [r] = [r].mapM (Action.applyAll actions) := by
  induction actions generalizing r with
  | nil => rfl
  | cons a rest ih =>
      simp only [takeAll, Action.applyAll, List.foldlM_cons, List.mapM_cons, List.mapM_nil,
        bind_assoc, pure_bind] at ih ⊢
      exact bind_congr fun t ↦ ih t

theorem seen_through_singleton (q : Request) (htotal : .total ∉ actions) :
    seen <$> through q.kind [q] actions = seen <$> through q.kind [q.append actions] [] := by
  have hkind : ∀ p ∈ [q], p.kind = q.kind := by simp
  have hprivate := seen_through_append actions hkind
  rw [List.map_singleton] at hprivate
  rw [seen_through_eq (List.cons_ne_nil _ _) hkind htotal, hprivate]
  congr 1
  simp only [List.mapM_cons, List.mapM_nil, bind_assoc, pure_bind, takeAll_singleton]

/-- The results of the fixed dice. -/
theorem rolled_still (hfixed : ∀ q ∈ requests, q.dice.isFixed) :
    (requests.mapM Request.roll).Still (∀ r ∈ ·, r.AreFixed) :=
  Rolling.still_mapM fun q hq ↦ q.roll_still (hfixed q hq)

theorem seen_through_fixed {draws left : Draws} {results : List (Kind × Text × List Value)}
    (hne : requests ≠ []) (hkind : ∀ q ∈ requests, q.kind = kind)
    (hfixed : ∀ q ∈ requests, q.dice.isFixed) (htotal : .total ∉ actions) :
    (seen <$> through kind requests actions).run draws = .ok results left ↔
      (seen <$> through kind (requests.map (·.append actions)) []).run draws =
        .ok results left := by
  rw [seen_through_eq hne hkind htotal, seen_through_append actions hkind]
  simp only [Rolling.run_map_eq_ok_iff]
  refine exists_congr fun final ↦ and_congr_left fun _ ↦ ?_
  refine (rolled_still hfixed).run_bind_congr fun rolled hrolled ↦ ?_
  have hown : ∀ r ∈ rolled, r.applyOwn.Still Rolls.AreFixed := fun r hr ↦
    Rolls.applyOwn_still (hrolled r hr)
  -- All own actions can come first, and then the two loops over the common ones can be exchanged.
  rw [Rolling.run_mapM_bind_eq_ok_iff hown fun r hr ↦ Rolls.applyAll_still hr actions]
  refine (Rolling.still_mapM hown).run_bind_congr fun own h ↦ ?_
  exact Rolling.run_foldlM_mapM_eq_ok_iff (fun r a hr ↦ Rolls.apply_still hr a) actions h

theorem kind_of_start {draws left : Draws} (h : (start kind requests).run draws = .ok s left) :
    ∀ q ∈ requests, q.kind = kind := by
  unfold start at h
  split at h
  · cases h
  · next hfind =>
      intro q hq
      simpa using List.find?_eq_none.1 hfind q hq

theorem kind_of_through {draws left : Draws} {results : List (Kind × Text × List Value)}
    (h : (seen <$> through kind requests actions).run draws = .ok results left) :
    ∀ q ∈ requests, q.kind = kind := by
  obtain ⟨t, ht, _⟩ := Rolling.run_map_eq_ok_iff.1 h
  rw [through] at ht
  obtain ⟨s, mid, hs, _⟩ := Rolling.run_bind_eq_ok_iff.1 ht
  exact kind_of_start hs

/-- Without results there is nothing to do, but the actions are looked at all the same. -/
theorem foldlM_afterStep_eq_ok_iff_of_nil {t : Session} {draws left : Draws}
    (hopen : s.terminated = false) (hnil : s.results = []) (htotal : .total ∉ actions) :
    (actions.foldlM afterStep s).run draws = .ok t left ↔
      (s = t ∧ draws = left) ∧ ∀ a ∈ actions, a.kind = s.kind := by
  induction actions with
  | nil => simp
  | cons a rest ih =>
      rw [List.mem_cons, not_or] at htotal
      rw [List.foldlM_cons, List.forall_mem_cons]
      by_cases ha : a.kind = s.kind
      · have hsame : s.afterStep a = pure s := by
          obtain ⟨kind, requests, results, terminated⟩ := s
          obtain rfl : results = [] := hnil
          exact afterStep_of_kind_eq hopen (Ne.symm htotal.1) ha
        rw [hsame, pure_bind, ih htotal.2]
        simp [ha]
      · rw [afterStep_of_kind_ne hopen (Ne.symm htotal.1) ha]
        constructor
        · intro h
          cases h
        · exact fun h ↦ (ha h.2.1).elim

theorem seen_through_nil {draws left : Draws} {results : List (Kind × Text × List Value)}
    (htotal : .total ∉ actions) :
    (seen <$> through kind [] actions).run draws = .ok results left ↔
      ([] = results ∧ draws = left) ∧ ∀ a ∈ actions, a.kind = kind := by
  have hsame : through kind [] actions = actions.foldlM afterStep ⟨kind, [], [], false⟩ :=
    through_eq kind [] actions
  rw [hsame, Rolling.run_map_eq_ok_iff]
  simp only [foldlM_afterStep_eq_ok_iff_of_nil (s := ⟨kind, [], [], false⟩) rfl rfl htotal]
  constructor
  · rintro ⟨t, ⟨⟨rfl, hleft⟩, hactions⟩, rfl⟩
    exact ⟨⟨rfl, hleft⟩, hactions⟩
  · rintro ⟨⟨rfl, hleft⟩, hactions⟩
    exact ⟨_, ⟨⟨rfl, hleft⟩, hactions⟩, rfl⟩

/-- Common actions could as well be private to every request: to the only one, or to several ones
with dice that take no draws.  Only where there is no request does nobody look at private actions,
while a common action that is not defined for the session is refused. -/
theorem common_actions_as_private (htotal : .total ∉ actions) :
    (∀ q : Request,
      seen <$> through q.kind [q] actions = seen <$> through q.kind [q.append actions] []) ∧
    ∀ (kind : Kind) (requests : List Request), (∀ q ∈ requests, q.dice.isFixed) →
      ∀ draws results left,
        (seen <$> through kind requests actions).run draws = .ok results left ↔
          (seen <$> through kind (requests.map (·.append actions)) []).run draws =
              .ok results left ∧
            (requests = [] → ∀ a ∈ actions, a.kind = kind) := by
  refine ⟨fun q ↦ seen_through_singleton q htotal, ?_⟩
  intro kind requests hfixed draws results left
  by_cases hne : requests = []
  · subst hne
    rw [List.map_nil, seen_through_nil htotal, seen_through_nil (List.not_mem_nil)]
    simp
  · rw [and_iff_left fun h ↦ (hne h).elim]
    by_cases hkind : ∀ q ∈ requests, q.kind = kind
    · exact seen_through_fixed hne hkind hfixed htotal
    · refine iff_of_false (mt kind_of_through hkind) fun h ↦ hkind fun q hq ↦ ?_
      exact kind_of_through h (q.append actions) (List.mem_map_of_mem hq)

theorem common_actions_as_private_multiply :
    ∃ requests : List Request, Action.total ∉ [.multiply 3, .sum] ∧
      (∀ q ∈ requests, q.dice.isFixed) ∧
        (∃ q, q.dice = .numbered 6 (by decide) ∧
          seen <$> through q.kind [q] [.multiply 3, .sum] =
            seen <$> through q.kind [q.append [.multiply 3, .sum]] []) ∧
        (seen <$> through .numeric requests [.multiply 3, .sum]).run [4] =
          .ok [(.numeric, "2+5 reroll(5) x3 sum".toList, [.number 30]),
            (.numeric, "AB 3[1,2,...] x2 x3 sum".toList, [.number 24])] [4] := by
  have htotal : Action.total ∉ [.multiply 3, .sum] := by decide
  obtain ⟨hsingle, hseveral⟩ := common_actions_as_private htotal
  refine ⟨[⟨2, .const (.number 5), none, [.reroll .numeric (.ofList [.number 5])], by decide,
      by simp⟩, ⟨3, .repeating ⟨.number 1, [.number 2], by simp [Value.kind]⟩, some "AB".toList,
      [.multiply 2], by decide, by decide⟩], htotal, by decide,
    ⟨⟨2, .numbered 6 (by decide), none, [.sum], by decide, by simp⟩, rfl, hsingle _⟩, ?_⟩
  exact (hseveral .numeric _ (by decide) _ _ _).2
    ⟨Rolling.eq_ok_of_result? (by decide +kernel), fun hnil ↦ (List.cons_ne_nil _ _ hnil).elim⟩

/-- A session without requests refuses an action of the other kind, which nobody would look at if it
were private. -/
theorem common_action_refused_of_no_requests :
    ¬∀ (kind : Kind) (requests : List Request) (actions : List Action), .total ∉ actions →
      (∀ q ∈ requests, q.dice.isFixed) → ∀ draws results left,
        (seen <$> through kind requests actions).run draws = .ok results left ↔
          (seen <$> through kind (requests.map (·.append actions)) []).run draws =
            .ok results left := by
  intro h
  have hagree := h .numeric [] [.reroll .fudge (.ofList [.face .plus])] (by decide) (by simp)
    [] [] []
  cases hagree.2 rfl

end Session

end TabletopDice
