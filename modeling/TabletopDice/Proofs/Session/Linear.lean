import TabletopDice.Proofs.Rolling.Linear
import TabletopDice.Proofs.Session.Record

/-!
# Totals of linear actions

A session whose actions are sums, multiplications and private totals ends with a total that is
linear in the rolled numbers: each request adds the sum of its rolls times its own factors, and the
common factors multiply all of that.  It makes no difference where the sums stand.
-/

namespace TabletopDice

open List (Forall₂)

namespace Rolls

variable {q : Request} {r : Rolls} {actions : List Action} {results : List Rolls}

/-- The private actions of the request behind the rolls. -/
def ownActions (r : Rolls) : List Action := r.origin.elim [] Request.actions

theorem ownActions_of_origin (h : r.origin = some q) : r.ownActions = q.actions := by
  rw [ownActions, h, Option.elim_some]

theorem applyOwn_linear (h : r.IsNumeric) (horigin : r.origin.isSome)
    (hown : ∀ a ∈ r.ownActions, a.isLinear) :
    r.applyOwn = Rolling.ifWritable (r.ownActions.flatMap Action.numbers)
      (r.ownActions.foldl combined r) := by
  obtain ⟨q, hq⟩ := Option.isSome_iff_exists.1 horigin
  rw [Session.applyOwn_eq hq, ← ownActions_of_origin hq]
  exact applyAll_linear h hown

/-! ## Shares of a total -/

/-- What the rolls add to a total once these actions have been applied. -/
def share (actions : List Action) (r : Rolls) : Text × Int :=
  ([' '].intercalate (r.description :: actions.map Action.text),
    Action.product actions * sumOf r.numbers)

def totalText (shares : List (Text × Int)) : Text :=
  if shares.isEmpty then "TOTAL (no dice to total)".toList
  else
    let detail := ", ".toList.intercalate (shares.map fun p ↦ p.1 ++ ": ".toList ++ numeral p.2)
    "TOTAL (".toList ++ detail ++ [')']

/-- The total of these shares, each of which is listed in the description. -/
def totalOf (shares : List (Text × Int)) : Rolls :=
  aggregate (totalText shares) (sumOf (shares.map Prod.snd))

theorem share_nil (r : Rolls) : r.share [] = (r.description, sumOf r.numbers) := by
  rw [share, List.map_nil, List.intercalate_singleton, Action.product_nil, one_mul]

theorem share_foldl_combined (actions : List Action) (r : Rolls) :
    (actions.foldl combined r).share [] = r.share actions := by
  rw [share_nil, description_foldl_combined, sumOf_foldl_combined, share]

theorem subtotals_of_numeric (h : ∀ r ∈ results, r.IsNumeric) :
    subtotals results = .ok (results.map fun r ↦ sumOf r.numbers) := by
  refine mapM_eq_ok_iff.2 ?_
  rw [List.forall₂_map_right_iff, List.forall₂_same]
  intro r hr
  rw [(h r hr).calculable_eq]
  rfl

theorem total_of_numeric (h : ∀ r ∈ results, r.IsNumeric) :
    Rolling.ofExcept (total results) = Rolling.ifWritable (results.map fun r ↦ (r.share []).2)
      (totalOf (results.map (share []))) := by
  have hfind : results.find? (fun r ↦ r.kind ≠ .numeric) = none :=
    List.find?_eq_none.2 fun r hr ↦ by simp [(h r hr).kind_eq]
  simp only [total, hfind, funext share_nil]
  cases results with
  | nil => exact (Rolling.ifWritable_nil _).symm
  | cons r rest =>
      have hdetail : (r :: rest).zipWith subtotalText ((r :: rest).map fun r ↦ sumOf r.numbers) =
          (r :: rest).map fun r ↦ r.subtotalText (sumOf r.numbers) := by
        rw [List.zipWith_map_right, List.zipWith_self]
      simp only [List.isEmpty_cons, Bool.false_eq_true, if_false]
      rw [sumUp, subtotals_of_numeric h, ok_bind, checkWritable, Rolling.ifWritable, hdetail,
        totalOf, totalText, List.map_map, List.map_map]
      split <;> rfl

end Rolls

namespace Session

variable {requests : List Request} {actions : List Action} {a : Action} {s : Session}
  {done : Rolls → List Action} {draws left : Draws}

structure IsNumeric (s : Session) : Prop where
  kind_eq : s.kind = .numeric
  terminated_eq : s.terminated = false
  results_numeric : ∀ r ∈ s.results, r.IsNumeric

def combined (done : Rolls → List Action) (s : Session) : Session :=
  { s with results := s.results.map fun r ↦ (done r).foldl Rolls.combined r }

theorem IsNumeric.combined (h : s.IsNumeric) (done : Rolls → List Action) :
    (s.combined done).IsNumeric :=
  ⟨h.kind_eq, h.terminated_eq,
    List.forall_mem_map.2 fun r hr ↦ (h.results_numeric r hr).foldl_combined (done r)⟩

theorem combined_concat (s : Session) (done : Rolls → List Action) (a : Action) :
    { s.combined done with results := (s.combined done).results.map (Rolls.combined · a) } =
      s.combined fun r ↦ done r ++ [a] := by
  simp only [combined, List.map_map, List.foldl_append]
  rfl

theorem afterRequestActions_linear (h : s.IsNumeric)
    (hown : ∀ r ∈ s.results, r.origin.isSome ∧ ∀ a ∈ r.ownActions, a.isLinear) :
    s.afterRequestActions =
      Rolling.ifWritable (s.results.flatMap fun r ↦ r.ownActions.flatMap Action.numbers)
        (s.combined Rolls.ownActions) := by
  have happly := Rolling.mapM_eq_ifWritable fun r hr ↦
    Rolls.applyOwn_linear (h.results_numeric r hr) (hown r hr).1 (hown r hr).2
  rw [afterRequestActions, if_neg (by simp [h.terminated_eq]), happly, Rolling.map_ifWritable]
  rfl

theorem afterStep_linear (h : s.IsNumeric) (ha : a.isLinear) (htotal : a ≠ .total) :
    (s.combined done).afterStep a = Rolling.ifWritable (s.results.flatMap fun _ ↦ a.numbers)
      (s.combined fun r ↦ done r ++ [a]) := by
  have hdone := h.combined done
  have hkind := (Action.kind_of_isLinear ha).trans hdone.kind_eq.symm
  have happly := Rolling.mapM_eq_ifWritable fun r hr ↦
    Rolls.apply_linear (hdone.results_numeric r hr) ha
  rw [afterStep_of_kind_eq hdone.terminated_eq htotal hkind, happly, Rolling.map_ifWritable,
    combined_concat, combined, List.flatMap_map]

theorem foldlM_afterStep_linear (h : s.IsNumeric)
    (hactions : ∀ a ∈ actions, a.isLinear ∧ a ≠ .total) :
    actions.foldlM afterStep (s.combined done) =
      Rolling.ifWritable (s.results.flatMap fun _ ↦ actions.flatMap Action.numbers)
        (s.combined fun r ↦ done r ++ actions) := by
  induction actions generalizing done with
  | nil =>
      have hnothing : (s.results.flatMap fun _ ↦ ([] : List Action).flatMap Action.numbers) = [] :=
        List.flatMap_eq_nil_iff.2 fun _ _ ↦ rfl
      simp only [hnothing, Rolling.ifWritable_nil, List.append_nil, List.foldlM_nil]
  | cons a rest ih =>
      obtain ⟨⟨ha, htotal⟩, hrest⟩ := List.forall_mem_cons.1 hactions
      rw [List.foldlM_cons, Rolling.bind_eq_ifWritable (afterStep_linear h ha htotal) (ih hrest)]
      simp only [List.append_assoc, List.singleton_append]
      refine Rolling.ifWritable_congr (fun n ↦ ?_) _
      simp only [List.mem_append, List.mem_flatMap, List.flatMap_cons]
      grind

theorem afterTotal_linear (h : s.IsNumeric) :
    (s.combined done).afterStep .total =
      Rolling.ifWritable (s.results.map fun r ↦ (r.share (done r)).2)
        { s with
          results := [Rolls.totalOf (s.results.map fun r ↦ r.share (done r))]
          terminated := true } := by
  have hdone := h.combined done
  rw [afterStep_total hdone.terminated_eq, afterTotal,
    Rolls.total_of_numeric hdone.results_numeric, Rolling.map_ifWritable]
  simp only [combined, List.map_map, Function.comp_def, Rolls.share_foldl_combined]

/-- What each result adds to a total behind its private and these common actions. -/
def shares (actions : List Action) (s : Session) : List (Text × Int) :=
  s.results.map fun r ↦ r.share (r.ownActions ++ actions)

/-- The numbers that linear actions and a total behind them write out. -/
def written (actions : List Action) (s : Session) : List Int :=
  s.results.flatMap fun r ↦ (r.ownActions ++ actions).flatMap Action.numbers ++
    [(r.share (r.ownActions ++ actions)).2]

theorem after_runActions_linear (h : s.IsNumeric)
    (hown : ∀ r ∈ s.results, r.origin.isSome ∧ ∀ a ∈ r.ownActions, a.isLinear)
    (hactions : ∀ a ∈ actions, a.isLinear ∧ a ≠ .total) :
    s.after (runActions (actions ++ [.total])) =
      Rolling.ifWritable (s.written actions)
        { s with
          results := [Rolls.totalOf (s.shares actions)]
          terminated := true } := by
  have hsteps : (s.afterRequestActions >>= fun t ↦ actions.foldlM afterStep t) =
      Rolling.ifWritable _ (s.combined fun r ↦ r.ownActions ++ actions) :=
    Rolling.bind_eq_ifWritable (afterRequestActions_linear h hown)
      (foldlM_afterStep_linear h hactions)
  simp only [after_runActions, List.foldlM_append, List.foldlM_cons, List.foldlM_nil, bind_pure]
  rw [← bind_assoc, Rolling.bind_eq_ifWritable hsteps (afterTotal_linear h)]
  refine Rolling.ifWritable_congr (fun n ↦ ?_) _
  simp only [written, List.mem_append, List.mem_flatMap, List.flatMap_append, List.mem_map]
  grind

/-! ## Fresh rolls -/

theorem start_gives_numeric (requests : List Request) :
    (start .numeric requests).Gives
      (fun s ↦ s.IsNumeric ∧ Forall₂ (fun q r ↦ r.Records q []) requests s.results)
      fun _ ↦ True := by
  refine start_gives_of fun hkind ↦ ?_
  have hroll := Rolling.gives_mapM fun q (_ : q ∈ requests) ↦
    (roll_gives q).and (Rolls.roll_records q)
  refine hroll.imp (fun results hresults ↦ ⟨⟨rfl, rfl, fun r hr ↦ ?_⟩, ?_⟩) fun _ _ ↦ trivial
  · obtain ⟨q, hq, ⟨hrkind, hconsistent, _⟩, _⟩ := exists_left_of_mem hresults hr
    exact hconsistent.isNumeric (hrkind.trans (hkind q hq))
  · exact hresults.imp fun q r hr ↦ hr.2

theorem texts_shares (h : Forall₂ (fun q r ↦ r.Records q []) requests s.results)
    (actions : List Action) :
    (s.shares actions).map Prod.fst = requests.map fun q ↦ q.record (q.actions ++ actions) := by
  rw [shares, List.map_map]
  refine (map_eq_map_of_related (h.imp fun q r hr ↦ ?_)).symm
  simp [Rolls.share, hr.description_eq, Rolls.ownActions_of_origin hr.origin_eq, Request.record]

theorem sumOf_shares (s : Session) (actions : List Action) :
    sumOf ((s.shares actions).map Prod.snd) = Action.product actions *
      sumOf (s.results.map fun r ↦ Action.product r.ownActions * sumOf r.numbers) := by
  have hshare (r : Rolls) : (r.share (r.ownActions ++ actions)).2 =
      Action.product actions * (Action.product r.ownActions * sumOf r.numbers) := by
    rw [Rolls.share, Action.product_append, mul_comm (Action.product r.ownActions), mul_assoc]
  rw [shares, List.map_map]
  simp only [Function.comp_def, hshare]
  exact List.sum_map_mul_left _ _ _

/-- The total is the product of the common factors times what the requests contribute, each of them
the sum of its rolls times its own factors, wherever the sums stand.  Its description lists one
share for each request, and the shares add up to it. -/
theorem total_of_linear_actions (hown : ∀ q ∈ requests, ∀ a ∈ q.actions, a.isLinear)
    (hactions : ∀ a ∈ actions, a.isLinear ∧ a ≠ .total)
    (hstart : (start .numeric requests).run draws = .ok s left) :
    Forall₂ (fun q r ↦ r.Records q [] ∧ r.values = r.numbers.map .number) requests s.results ∧
    s.after (runActions (actions ++ [.total])) =
      (if ∀ n ∈ s.written actions, Writable n then
        pure { s with
          results := [.aggregate (Rolls.totalText (s.shares actions)) (Action.product actions *
            sumOf (s.results.map fun r ↦ Action.product r.ownActions * sumOf r.numbers))]
          terminated := true }
      else throw (.numberTooLong none)) ∧
    (s.shares actions).map Prod.fst = requests.map (fun q ↦ q.record (q.actions ++ actions)) ∧
    sumOf ((s.shares actions).map Prod.snd) = Action.product actions *
      sumOf (s.results.map fun r ↦ Action.product r.ownActions * sumOf r.numbers) ∧
    (requests = [] → s.after (runActions (actions ++ [.total])) =
      pure { s with
        results := [.aggregate "TOTAL (no dice to total)".toList 0]
        terminated := true }) := by
  obtain ⟨hnumeric, hrecords⟩ := (start_gives_numeric requests).of_ok hstart
  have hresults : ∀ r ∈ s.results, r.origin.isSome ∧ ∀ a ∈ r.ownActions, a.isLinear := by
    intro r hr
    obtain ⟨q, hq, hrecord⟩ := exists_left_of_mem hrecords hr
    rw [Rolls.ownActions_of_origin hrecord.origin_eq, hrecord.origin_eq]
    exact ⟨rfl, hown q hq⟩
  have hrun := after_runActions_linear hnumeric hresults hactions
  refine ⟨related_imp hrecords fun q _ r hr h ↦ ⟨h, (hnumeric.results_numeric r hr).values_eq⟩,
    ?_, texts_shares hrecords actions, sumOf_shares s actions, ?_⟩
  · rw [hrun, Rolling.ifWritable, Rolls.totalOf, sumOf_shares]
  · rintro rfl
    have hempty : s.results = [] := List.forall₂_nil_left_iff.1 hrecords
    rw [hrun, written, shares, hempty]
    exact Rolling.ifWritable_nil _

theorem total_of_linear_actions_mixed :
    ∃ requests s, (∀ q ∈ requests, ∀ a ∈ q.actions, a.isLinear) ∧
      (∀ a ∈ [Action.sum, .multiply 10], a.isLinear ∧ a ≠ .total) ∧
      (start .numeric requests).run [4, 3] = .ok s [] ∧
      s.after (runActions ([.sum, .multiply 10] ++ [.total])) =
        pure { s with
          results := [.aggregate
            "TOTAL (AB 2D6 x2 total sum x10: 180, CD +3 sum x-1 sum x10: -30)".toList 150]
          terminated := true } := by
  have hrun : (start .numeric
      [⟨2, .numbered 6 (by decide), some "AB".toList, [.multiply 2, .total], by decide, by decide⟩,
        ⟨1, .const (.number 3), some "CD".toList, [.sum, .multiply (-1)], by decide,
          by decide⟩]).run [4, 3] =
      .ok ⟨.numeric,
        [⟨2, .numbered 6 (by decide), some "AB".toList, [.multiply 2, .total], by decide,
            by decide⟩,
          ⟨1, .const (.number 3), some "CD".toList, [.sum, .multiply (-1)], by decide,
            by decide⟩],
        [⟨.numeric, "AB 2D6".toList, [.number 5, .number 4],
            some ⟨2, .numbered 6 (by decide), some "AB".toList, [.multiply 2, .total], by decide,
              by decide⟩⟩,
          ⟨.numeric, "CD +3".toList, [.number 3],
            some ⟨1, .const (.number 3), some "CD".toList, [.sum, .multiply (-1)], by decide,
              by decide⟩⟩], false⟩ [] :=
    Rolling.eq_ok_of_result? (by decide +kernel)
  have hactions : ∀ a ∈ [Action.sum, .multiply 10], a.isLinear ∧ a ≠ .total := by decide
  obtain ⟨_, htotal, _⟩ := total_of_linear_actions (by decide) hactions hrun
  refine ⟨_, _, by decide, hactions, hrun, ?_⟩
  rw [htotal, if_pos (by decide +kernel)]
  rfl

end Session
end TabletopDice
