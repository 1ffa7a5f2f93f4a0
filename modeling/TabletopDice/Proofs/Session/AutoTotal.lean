import TabletopDice.Proofs.Notation.RoundTrip
import TabletopDice.Proofs.Session.Interleaving
import TabletopDice.Proofs.Session.Safety

/-!
# Totals that nobody has asked for

A total can be added to the numeric dice of a request that names no action.  It is the total that
would have been written behind the request, except that the fudge dice do not take part in it.
Every other request runs as if there were no such total.
-/

namespace TabletopDice

open Notation

/-! ## One more action behind a text -/

namespace Notation

variable {limits : Limits} {text word : Text} {p : Plan}

theorem readPlan_append_action {a : Action} (h : readPlan limits text = .ok p)
    (hcounts : ¬p.counts) (hword : IsRun word) (ha : ReadsAction word a) :
    readPlan limits (text ++ ' ' :: word) = .ok (p.addAction a) := by
  obtain ⟨lexemes, hlexed, hwrites, hne⟩ := readPlan_eq_ok_iff.1 h
  have hadded : Lexed (' ' :: word) [.word word] :=
    .blank (by decide) (IsWord.fallsInto (.inl hword)).lexed
  have hclosing : ')' ∉ ' ' :: word := by
    rw [List.mem_cons, not_or]
    exact ⟨by decide, fun hmem ↦ absurd (hword.2 _ hmem) (by decide)⟩
  refine readPlan_eq_ok_iff.2 ⟨_, hlexed.append ?_ hclosing hadded, ?_, hne⟩
  · exact ends_cons (by decide) (by decide)
  · exact hwrites.addAction hcounts ha

theorem readPlan_append_total (h : readPlan limits text = .ok p) (hcounts : ¬p.counts) :
    readPlan limits (text ++ " total".toList) = .ok (p.addAction .total) := by
  have htotal : ReadsAction Keyword.total.text .total := by
    rw [ReadsAction, IsWord.withoutFinalBreak_eq (.inl (isRun_text .total))]
    exact .total
  exact readPlan_append_action h hcounts (isRun_text .total) htotal

end Notation

/-! ## One more total behind the actions of a session -/

namespace Session

variable {kind : Kind} {requests : List Request} {s t : Session} {draws left : Draws} {f : Failure}

theorem through_concat (kind : Kind) (requests : List Request) (actions : List Action)
    (a : Action) : through kind requests (actions ++ [a]) = (do
      let s ← through kind requests actions
      s.afterStep a) := by
  rw [through_eq, through_eq]
  simp only [List.foldlM_append, List.foldlM_cons, List.foldlM_nil, bind_assoc, bind_pure]

/-- A total takes no draws, and nothing but a number that is too long stands in its way. -/
theorem run_afterStep_total (hs : s.Underway) (hkind : s.kind = .numeric) (draws : Draws) :
    (∃ t, (s.afterStep .total).run draws = .ok t draws) ∨
      (s.afterStep .total).run draws = .error (.numberTooLong none) draws := by
  have hresults : ∀ r ∈ s.results, r.kind = .numeric ∧ r.Consistent := fun r hr ↦
    ⟨(hs.results_kind r hr).trans hkind, hs.results_consistent r hr⟩
  rw [afterStep_total hs.terminated_eq, afterTotal]
  cases htotal : Rolls.total s.results with
  | ok total => exact .inl ⟨_, rfl⟩
  | error f =>
      rw [Rolls.tooLong_of_total hresults htotal]
      exact .inr rfl

theorem through_underway (hne : requests ≠ []) (hkind : ∀ q ∈ requests, q.kind = kind) :
    (through kind requests []).Gives (fun s ↦ s.Underway ∧ s.kind = kind) fun _ ↦ True := by
  rw [through_eq]
  refine ((start_gives hne hkind).imp (fun _ h ↦ h) fun _ _ ↦ trivial).bind ?_
  rintro s ⟨hs, hskind, _⟩
  refine ((afterRequestActions_gives hs).imp (fun _ h ↦ h) fun _ _ ↦ trivial).bind ?_
  rintro t ⟨_, ht, htkind, _⟩
  exact Rolling.gives_pure ⟨ht, htkind.trans hskind⟩

theorem run?_total (hne : requests ≠ []) (kind : Kind) :
    run? kind requests [.total] false = (do
      let s ← through kind requests []
      some <$> s.afterStep .total) := by
  rw [run?_of_ne_nil hne, ← List.nil_append [Action.total], through_concat, bind_assoc]
  exact bind_congr fun s ↦ bind_pure_comp some _

theorem run?_without_actions (hne : requests ≠ []) (kind : Kind) :
    run? kind requests [] false = some <$> through kind requests [] := by
  rw [run?_of_ne_nil hne]
  exact bind_pure_comp some _

variable {o : Option Session}

theorem exists_rolled_of_total (hne : requests ≠ []) (hkind : ∀ q ∈ requests, q.kind = .numeric)
    (h : (run? .numeric requests [.total] false).run draws = .ok o left) :
    ∃ s t, o = some t ∧ (run? .numeric requests [] false).run draws = .ok (some s) left := by
  rw [run?_total hne] at h
  obtain ⟨s, mid, hs, h⟩ := Rolling.run_bind_eq_ok_iff.1 h
  obtain ⟨t, ht, rfl⟩ := Rolling.run_map_eq_ok_iff.1 h
  obtain ⟨hunderway, hskind⟩ := (through_underway hne hkind).of_ok hs
  have hleft : mid = left := by
    rcases run_afterStep_total hunderway hskind mid with ⟨u, hu⟩ | hfails
    · cases ht.symm.trans hu
      rfl
    · cases ht.symm.trans hfails
  refine ⟨s, t, rfl, ?_⟩
  rw [run?_without_actions hne, Rolling.run_map_eq_ok_iff]
  exact ⟨s, hleft ▸ hs, rfl⟩

theorem error_of_total (hne : requests ≠ []) (hkind : ∀ q ∈ requests, q.kind = .numeric)
    (h : (run? .numeric requests [.total] false).run draws = .error f left) :
    (run? .numeric requests [] false).run draws = .error f left ∨ f = .numberTooLong none := by
  rw [run?_total hne] at h
  cases hs : (through .numeric requests []).run draws with
  | error g rest =>
      rw [Rolling.run_bind_of_error hs] at h
      rw [run?_without_actions hne, ← bind_pure_comp, Rolling.run_bind_of_error hs]
      exact .inl h
  | ok s mid =>
      right
      obtain ⟨hunderway, hskind⟩ := (through_underway hne hkind).of_ok hs
      rw [Rolling.run_bind_of_ok hs] at h
      rcases run_afterStep_total hunderway hskind mid with ⟨t, ht⟩ | hfails
      · rw [Rolling.run_map_eq_ok_iff.2 ⟨t, ht, rfl⟩] at h
        cases h
      · rw [← bind_pure_comp, Rolling.run_bind_of_error hfails] at h
        cases h
        rfl

end Session

/-! ## Plans -/

namespace Plan

variable {p : Plan} {draws left : Draws} {f : Failure}

theorem numericActions_of_nil (hactions : p.actions = []) (hcounts : ¬p.counts) :
    p.numericActions true = [.total] :=
  if_pos ⟨rfl, hactions, hcounts⟩

theorem numericActions_of_inert (h : p.actions ≠ [] ∨ p.counts) (autoTotal : Bool) :
    p.numericActions autoTotal = p.actions := by
  refine if_neg ?_
  rintro ⟨_, hactions, hcounts⟩
  exact h.elim (· hactions) hcounts

/-- The numeric dice of the plan, and a total behind its actions. -/
def totalled (p : Plan) : Plan := (p.only .numeric).addAction .total

theorem run_totalled (hactions : p.actions = []) (hcounts : p.counts = false) (autoTotal : Bool) :
    p.totalled.run autoTotal =
      (fun s ↦ ⟨s, none⟩) <$> Session.run? .numeric p.numeric [.total] false := by
  have hinert : (p.addAction .total).numericActions autoTotal = [.total] := by
    rw [numericActions_of_inert (.inl (by simp [addAction])), addAction, hactions,
      List.nil_append]
  have hsame : p.totalled = (p.addAction .total).only .numeric := rfl
  rw [hsame, run_only_numeric, hinert, addAction, hcounts]

theorem run_of_uncounted (hcounts : p.counts = false) (autoTotal : Bool) :
    p.run autoTotal = (do
      let numeric ← Session.run? .numeric p.numeric (p.numericActions autoTotal) false
      let fudge ← Session.run? .fudge p.fudge p.actions false
      return ⟨numeric, fudge⟩) := by
  simp only [run, hcounts, Bool.false_eq_true, if_false]

theorem run_eq_totalled (hfudge : p.fudge = []) (hactions : p.actions = [])
    (hcounts : p.counts = false) (autoTotal : Bool) :
    p.run true = (p.addAction .total).run autoTotal := by
  have honly : p.only .numeric = p := by rw [only, ← hfudge]
  have hsame : p.addAction .total = p.totalled := by rw [totalled, honly]
  rw [hsame, run_totalled hactions hcounts, ← numericActions_of_nil hactions (by simp [hcounts]),
    ← hcounts, ← run_only_numeric, honly]

/-- Where there is something else to do, or nothing to add up, no total is added. -/
theorem run_inert (h : p.actions ≠ [] ∨ p.counts ∨ p.numeric = []) :
    p.run true = p.run false := by
  rcases or_assoc.2 h with hinert | hnumeric
  · rw [run, run, numericActions_of_inert hinert, numericActions_of_inert hinert]
  · simp only [run, hnumeric, Session.run?_nil]

/-- The added total changes the numeric session and nothing else. -/
theorem run_true_of_ok {outcome : Outcome} (hne : p.numeric ≠ [])
    (hkind : ∀ q ∈ p.numeric, q.kind = .numeric) (hactions : p.actions = [])
    (hcounts : p.counts = false) (h : (p.run true).run draws = .ok outcome left) :
    ∃ s t mid, outcome.numeric = some t ∧
      (p.totalled.run false).run draws = .ok ⟨some t, none⟩ mid ∧
      (p.run false).run draws = .ok ⟨some s, outcome.fudge⟩ left := by
  rw [run_of_uncounted hcounts, numericActions_of_nil hactions (by simp [hcounts])] at h
  obtain ⟨numeric, mid, hnumeric, h⟩ := Rolling.run_bind_eq_ok_iff.1 h
  obtain ⟨fudge, rest, hfudge, h⟩ := Rolling.run_bind_eq_ok_iff.1 h
  obtain ⟨rfl, rfl⟩ := Rolling.run_pure_eq_ok_iff.1 h
  obtain ⟨s, t, rfl, hs⟩ := Session.exists_rolled_of_total hne hkind hnumeric
  refine ⟨s, t, mid, rfl, ?_, ?_⟩
  · rw [run_totalled hactions hcounts]
    exact Rolling.run_map_eq_ok_iff.2 ⟨_, hnumeric, rfl⟩
  · have hnone : p.numericActions false = [] := by rw [numericActions, if_neg (by simp), hactions]
    rw [run_of_uncounted hcounts, hnone, Rolling.run_bind_of_ok hs, Rolling.run_bind_of_ok hfudge]
    rfl

/-- With the added total a plan fails as it does without, or else the total is too long. -/
theorem run_true_of_error (hne : p.numeric ≠ []) (hkind : ∀ q ∈ p.numeric, q.kind = .numeric)
    (hactions : p.actions = []) (hcounts : p.counts = false)
    (h : (p.run true).run draws = .error f left) :
    (p.run false).run draws = .error f left ∨
      f = .numberTooLong none ∧ (p.totalled.run false).run draws = .error f left := by
  have hnone : p.numericActions false = [] := by rw [numericActions, if_neg (by simp), hactions]
  rw [run_of_uncounted hcounts, numericActions_of_nil hactions (by simp [hcounts])] at h
  rw [run_of_uncounted hcounts, hnone, run_totalled hactions hcounts]
  cases hnumeric : (Session.run? .numeric p.numeric [.total] false).run draws with
  | error g rest =>
      rw [Rolling.run_bind_of_error hnumeric] at h
      cases h
      rcases Session.error_of_total hne hkind hnumeric with hrolled | htooLong
      · exact .inl (Rolling.run_bind_of_error hrolled)
      · rw [← bind_pure_comp]
        exact .inr ⟨htooLong, Rolling.run_bind_of_error hnumeric⟩
  | ok o mid =>
      rw [Rolling.run_bind_of_ok hnumeric] at h
      obtain ⟨s, t, rfl, hs⟩ := Session.exists_rolled_of_total hne hkind hnumeric
      rw [Rolling.run_bind_of_ok hs]
      cases hfudge : (Session.run? .fudge p.fudge p.actions false).run mid with
      | error g rest =>
          rw [Rolling.run_bind_of_error hfudge] at h ⊢
          exact .inl h
      | ok u rest =>
          rw [Rolling.run_bind_of_ok hfudge] at h
          cases h

end Plan

/-- An added total is the total that would be written behind a text without fudge dice, actions and
count.  A text with an action, with a count or without numeric dice runs as if nothing were added.
Where there are dice of both kinds, the numeric session is that of the numeric dice with a total,
and everything else is as without it. -/
theorem auto_total_as_written {limits : Limits} {text : Text} {p : Plan}
    (h : readPlan limits text = .ok p) :
    (p.fudge = [] → p.actions = [] → p.counts = false → ∀ autoTotal,
      roll limits text true = roll limits (text ++ " total".toList) autoTotal) ∧
    (p.actions ≠ [] ∨ p.counts ∨ p.numeric = [] →
      roll limits text true = roll limits text false) ∧
    (p.numeric ≠ [] → p.actions = [] → p.counts = false → ∀ draws,
      (∀ outcome left, (roll limits text true).run draws = .ok outcome left →
        ∃ s t mid, outcome.numeric = some t ∧
          (p.totalled.run false).run draws = .ok ⟨some t, none⟩ mid ∧
          (roll limits text false).run draws = .ok ⟨some s, outcome.fudge⟩ left) ∧
      ∀ f left, (roll limits text true).run draws = .error f left →
        (roll limits text false).run draws = .error f left ∨
          f = .numberTooLong none ∧ (p.totalled.run false).run draws = .error f left) := by
  simp only [roll_of_readPlan h]
  refine ⟨fun hfudge hactions hcounts autoTotal ↦ ?_, Plan.run_inert, ?_⟩
  · rw [roll_of_readPlan (readPlan_append_total h (by simp [hcounts])),
      Plan.run_eq_totalled hfudge hactions hcounts]
  · intro hne hactions hcounts draws
    have hkind := (sorted_of_readPlan h).numeric_kind
    exact ⟨fun outcome left ↦ Plan.run_true_of_ok hne hkind hactions hcounts,
      fun f left ↦ Plan.run_true_of_error hne hkind hactions hcounts⟩

/-- Five and four and twice three make fifteen. -/
theorem auto_total_as_written_mixed :
    (∃ p, readPlan {} "2D6 (AB +3 x2)".toList = .ok p ∧ p.fudge = [] ∧ p.actions = [] ∧
      p.counts = false ∧ ∀ autoTotal, roll {} "2D6 (AB +3 x2)".toList true =
        roll {} ("2D6 (AB +3 x2)".toList ++ " total".toList) autoTotal) ∧
      ∃ p outcome s t mid, readPlan {} "2D6 F (AB +3 x2)".toList = .ok p ∧
        (roll {} "2D6 F (AB +3 x2)".toList true).run [4, 3, 1] = .ok outcome [] ∧
        outcome.numeric = some t ∧
        t.results.map Rolls.values = [[.number 15]] ∧
        (p.totalled.run false).run [4, 3, 1] = .ok ⟨some t, none⟩ mid ∧
        (roll {} "2D6 F (AB +3 x2)".toList false).run [4, 3, 1] =
          .ok ⟨some s, outcome.fudge⟩ [] := by
  constructor
  · have hread : readPlan {} "2D6 (AB +3 x2)".toList = .ok
        ⟨[⟨2, .numbered 6 (by decide), none, [], by decide, by decide⟩,
          ⟨1, .const (.number 3), some "AB".toList, [.multiply 2], by decide, by decide⟩], [], [],
          false⟩ := by
      decide +kernel
    exact ⟨_, hread, rfl, rfl, rfl, (auto_total_as_written hread).1 rfl rfl rfl⟩
  · have hread : readPlan {} "2D6 F (AB +3 x2)".toList = .ok
        ⟨[⟨2, .numbered 6 (by decide), none, [], by decide, by decide⟩,
          ⟨1, .const (.number 3), some "AB".toList, [.multiply 2], by decide, by decide⟩],
          [⟨1, .fudge, none, [], by decide, by decide⟩], [], false⟩ := by
      decide +kernel
    have hrun : (roll {} "2D6 F (AB +3 x2)".toList true).run [4, 3, 1] = .ok
        ⟨some ⟨.numeric,
          [⟨2, .numbered 6 (by decide), none, [], by decide, by decide⟩,
            ⟨1, .const (.number 3), some "AB".toList, [.multiply 2], by decide, by decide⟩],
          [⟨.numeric, "TOTAL (2D6: 9, AB +3 x2: 6)".toList, [.number 15], none⟩], true⟩,
          some ⟨.fudge, [⟨1, .fudge, none, [], by decide, by decide⟩],
            [⟨.fudge, "1F".toList, [.face .plus],
              some ⟨1, .fudge, none, [], by decide, by decide⟩⟩], false⟩⟩ [] :=
      Rolling.eq_ok_of_result? (by decide +kernel)
    obtain ⟨_, _, hmixed⟩ := auto_total_as_written hread
    obtain ⟨s, t, mid, hnumeric, htotal, hrolled⟩ :=
      (hmixed (List.cons_ne_nil _ _) rfl rfl [4, 3, 1]).1 _ _ hrun
    refine ⟨_, _, s, t, mid, hread, hrun, hnumeric, ?_, htotal, hrolled⟩
    cases hnumeric
    rfl

end TabletopDice
