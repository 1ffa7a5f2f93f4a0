import TabletopDice.Proofs.Notation.Lines
import TabletopDice.Proofs.Session.Interleaving

/-!
# Reading a report back

A report has one line for each result, with the description in front of the last colon and the
values behind it.  Descriptions hold colons themselves where they list sub-totals, but neither they
nor the values hold line breaks, and the values hold neither colons nor spaces.
-/

namespace TabletopDice

/-! ## Cutting a line at the last separator -/

/-- The texts before and after the last occurrence of the separator. -/
def cutLast? (separator : Text) : Text → Option (Text × Text)
  | [] => if separator = [] then some ([], []) else none
  | c :: rest =>
      match cutLast? separator rest with
      | some (before, after) => some (c :: before, after)
      | none =>
          if separator <+: c :: rest then some ([], (c :: rest).drop separator.length) else none

section Cut

variable {separator text before after : Text}

theorem cutLast?_eq_none (h : cutLast? separator text = none) :
    ∀ before after, text ≠ before ++ separator ++ after := by
  induction text with
  | nil =>
      rintro before after heq
      simp [cutLast?, (List.append_eq_nil_iff.1 (List.append_eq_nil_iff.1 heq.symm).1).2] at h
  | cons c rest ih =>
      simp only [cutLast?] at h
      split at h
      · cases h
      next hrest =>
      split at h
      · cases h
      next hstart =>
      rintro (_ | ⟨d, before⟩) after heq
      · exact hstart (heq ▸ List.prefix_append _ _)
      · exact ih hrest before after (List.cons.inj heq).2

theorem cutLast?_eq_some (h : cutLast? separator text = some (before, after)) :
    text = before ++ separator ++ after ∧
      ∀ before' after', text = before' ++ separator ++ after' → before'.length ≤ before.length := by
  induction text generalizing before with
  | nil =>
      simp only [cutLast?] at h
      split at h
      · next hempty =>
          cases h
          refine ⟨by simp [hempty], fun before' after' heq ↦ ?_⟩
          rw [(List.append_eq_nil_iff.1 (List.append_eq_nil_iff.1 heq.symm).1).1]
      · cases h
  | cons c rest ih =>
      simp only [cutLast?] at h
      split at h
      · next before after hrest =>
          cases h
          obtain ⟨rfl, hlast⟩ := ih hrest
          refine ⟨rfl, ?_⟩
          rintro (_ | ⟨d, before'⟩) after' heq
          · exact Nat.zero_le _
          · exact Nat.succ_le_succ (hlast before' after' (List.cons.inj heq).2)
      next hrest =>
      split at h
      · next hstart =>
          cases h
          refine ⟨(List.prefix_iff_eq_append.1 hstart).symm, ?_⟩
          rintro (_ | ⟨d, before'⟩) after' heq
          · exact Nat.le_refl _
          · exact (cutLast?_eq_none hrest before' after' (List.cons.inj heq).2).elim
      · cases h

/-- The cut is the one with the most text in front of the separator. -/
theorem cutLast?_eq_some_iff : cutLast? separator text = some (before, after) ↔
    text = before ++ separator ++ after ∧
      ∀ before' after', text = before' ++ separator ++ after' → before'.length ≤ before.length := by
  refine ⟨cutLast?_eq_some, fun ⟨htext, hlast⟩ ↦ ?_⟩
  cases hcut : cutLast? separator text with
  | none => exact (cutLast?_eq_none hcut before after htext).elim
  | some cut =>
      obtain ⟨before', after'⟩ := cut
      obtain ⟨htext', hlast'⟩ := cutLast?_eq_some hcut
      have hlength : before'.length = before.length :=
        Nat.le_antisymm (hlast _ _ htext') (hlast' _ _ htext)
      rw [htext', List.append_assoc, List.append_assoc] at htext
      obtain ⟨rfl, hrest⟩ := List.append_inj htext hlength
      rw [List.append_cancel_left hrest]

/-- A colon and a space are found in front of a text without colons. -/
theorem cutLast?_colon (hafter : ':' ∉ after) :
    cutLast? ": ".toList (before ++ ": ".toList ++ after) = some (before, after) := by
  refine cutLast?_eq_some_iff.2 ⟨rfl, fun before' after' heq ↦ ?_⟩
  rw [List.append_assoc, List.append_assoc] at heq
  rcases List.append_eq_append_iff.1 heq with ⟨between, rfl, hbetween⟩ | ⟨between, rfl, _⟩
  · cases between with
    | nil => simp
    | cons c between =>
        -- The other separator would stand behind the first character of this one.
        have hrest : ' ' :: after = between ++ (':' :: ' ' :: after') := (List.cons.inj hbetween).2
        have hcolon : ':' ∈ ' ' :: after := by simp [hrest]
        simp [hafter] at hcolon
  · simp

end Cut

/-- The texts of the values, of which there may be none. -/
def readValues (text : Text) : List Text := if text = [] then [] else text.splitOn ' '

/-- The description and the texts of the values that a line consists of. -/
def readLine? (line : Text) : Option (Text × List Text) :=
  (cutLast? ": ".toList line).map fun cut ↦ (cut.1, readValues cut.2)

/-! ## Results -/

namespace Rolls

variable {r t : Rolls} {results : List Rolls}

theorem roll_isLine (q : Request) : q.roll.Gives (fun r ↦ IsLine r.description) fun _ ↦ True := by
  rw [Request.roll]
  refine (Rolling.gives_anything _).bind fun values _ ↦ ?_
  exact Rolling.gives_lift_bind (fun _ _ ↦ trivial) fun _ _ ↦ Rolling.gives_pure q.isLine_text

theorem apply_isLine (h : IsLine r.description) (a : Action) :
    (a.apply r).Gives (fun t ↦ IsLine t.description) fun _ ↦ True := by
  refine (a.apply_describes r).imp ?_ fun _ h ↦ h
  rintro t ⟨hdescription, _⟩
  rw [hdescription]
  simp [h, a.isLine_text]

theorem applyAll_isLine (h : IsLine r.description) (actions : List Action) :
    (Action.applyAll actions r).Gives (fun t ↦ IsLine t.description) fun _ ↦ True :=
  Rolling.gives_foldlM_of_keeps (fun _ a hr ↦ apply_isLine hr a) h

theorem applyOwn_isLine (h : IsLine r.description) :
    r.applyOwn.Gives (fun t ↦ IsLine t.description) fun _ ↦ True := by
  unfold applyOwn
  split
  · exact applyAll_isLine h _
  · exact Rolling.gives_fail trivial

theorem isLine_of_total (h : ∀ r ∈ results, IsLine r.description)
    (htotal : total results = .ok t) : IsLine t.description := by
  unfold total at htotal
  split at htotal
  · cases htotal
  split at htotal
  · cases htotal
    decide
  · obtain ⟨sums, _, htotal⟩ := bind_eq_ok_iff.1 htotal
    obtain ⟨_, _, htotal⟩ := bind_eq_ok_iff.1 htotal
    cases htotal
    have hdetail : IsLine (", ".toList.intercalate (results.zipWith subtotalText sums)) := by
      refine isLine_intercalate (by decide) fun item hitem ↦ ?_
      rw [← List.map_uncurry_zip_eq_zipWith, List.mem_map] at hitem
      obtain ⟨⟨r, n⟩, hmem, rfl⟩ := hitem
      rw [Function.uncurry_apply_pair]
      simp [subtotalText, h r (List.of_mem_zip hmem).1, isLine_numeral]
    exact isLine_append.2 ⟨isLine_append.2 ⟨by decide, hdetail⟩, by decide⟩

theorem isLine_of_count {groups : List Rolls} (h : count results = .ok groups) :
    ∀ r ∈ groups, IsLine r.description := by
  obtain ⟨_, _, h⟩ := bind_eq_ok_iff.1 h
  cases h
  intro r hr
  obtain ⟨v, _, rfl⟩ := List.mem_map.1 hr
  simp [groupOf, aggregate, v.isLine_word]

end Rolls

/-! ## Sessions and outcomes -/

namespace Session

variable {kind : Kind} {requests : List Request} {actions : List Action} {s : Session}

/-- The descriptions of all results fit on a line. -/
def HasLines (s : Session) : Prop := ∀ r ∈ s.results, IsLine r.description

theorem start_hasLines (kind : Kind) (requests : List Request) :
    (start kind requests).Gives HasLines fun _ ↦ True :=
  start_gives_of fun _ ↦ Rolling.gives_mapM_forall fun q _ ↦ Rolls.roll_isLine q

theorem afterRequestActions_hasLines (h : s.HasLines) :
    s.afterRequestActions.Gives HasLines fun _ ↦ True :=
  afterRequestActions_gives_of fun _ ↦
    Rolling.gives_mapM_forall fun r hr ↦ Rolls.applyOwn_isLine (h r hr)

theorem afterTotal_hasLines (h : s.HasLines) : s.afterTotal.Gives HasLines fun _ ↦ True := by
  refine (Rolling.gives_ofExcept (fun total htotal ↦ ?_) fun _ _ ↦ trivial).map
  intro r hr
  rw [List.mem_singleton.1 hr]
  exact Rolls.isLine_of_total h htotal

theorem afterStep_hasLines (h : s.HasLines) (a : Action) :
    (s.afterStep a).Gives HasLines fun _ ↦ True :=
  afterStep_gives_of (fun _ _ ↦ afterTotal_hasLines h) fun _ _ ↦
    Rolling.gives_mapM_forall fun r hr ↦ Rolls.apply_isLine (h r hr) a

theorem afterCount_hasLines (s : Session) : s.afterCount.Gives HasLines fun _ ↦ True := by
  unfold afterCount
  split
  · exact Rolling.gives_fail trivial
  · refine (Rolling.gives_ofExcept (fun groups hgroups ↦ ?_) fun _ _ ↦ trivial).map
    exact Rolls.isLine_of_count hgroups

theorem through_hasLines (kind : Kind) (requests : List Request) (actions : List Action) :
    (through kind requests actions).Gives HasLines fun _ ↦ True := by
  rw [through_eq]
  refine (start_hasLines kind requests).bind fun s hs ↦ ?_
  refine (afterRequestActions_hasLines hs).bind fun t ht ↦ ?_
  exact Rolling.gives_foldlM_of_keeps (fun _ a hu ↦ afterStep_hasLines hu a) ht

theorem Represents.results_ne_nil (h : s.Represents kind requests) (hne : requests ≠ []) :
    s.results ≠ [] := by
  by_cases hterm : s.terminated
  · obtain ⟨r, hr, _⟩ := h.result_of_terminated hterm
    simp [hr]
  · exact Session.results_ne_nil (h.results_of_open (Bool.eq_false_iff.2 hterm)) hne

/-- Only a session of counts may have no results. -/
theorem run?_hasLines (kind : Kind) (requests : List Request) (actions : List Action)
    (counts : Bool) :
    (run? kind requests actions counts).Gives
      (fun o ↦ ∀ s ∈ o, s.HasLines ∧ (counts = false → s.results ≠ [])) fun _ ↦ True := by
  by_cases hne : requests = []
  · rw [hne, run?_nil]
    exact Rolling.gives_pure (by simp)
  rw [run?_of_ne_nil hne]
  have hthrough := (through_represents kind requests actions).and
    (through_hasLines kind requests actions)
  refine hthrough.good_only.bind fun t ⟨hrep, ht⟩ ↦ ?_
  cases counts with
  | true =>
      refine Rolling.Gives.map ((afterCount_hasLines t).imp (fun u hu ↦ ?_) fun _ h ↦ h)
      simpa using hu
  | false =>
      apply Rolling.gives_pure
      simpa using ⟨ht, hrep.results_ne_nil hne⟩

theorem results_joinCounts (o o' : Option Session) :
    (joinCounts o o').toList.flatMap results =
      o.toList.flatMap results ++ o'.toList.flatMap results := by
  cases o with
  | none => rfl
  | some s => cases o' <;> simp [joinCounts]

end Session

/-- Counts are all in one session, and no other session is without results. -/
theorem Plan.run_hasLines (p : Plan) (autoTotal : Bool) :
    (p.run autoTotal).Gives
      (fun outcome ↦ (∀ r ∈ outcome.results, IsLine r.description) ∧
        (outcome.results ≠ [] → ∀ s ∈ outcome.sessions, s.results ≠ []))
      fun _ ↦ True := by
  refine (Session.run?_hasLines _ _ _ _).bind fun numeric hnumeric ↦ ?_
  refine (Session.run?_hasLines _ _ _ _).bind fun fudge hfudge ↦ Rolling.gives_pure ?_
  have hlines : ∀ r ∈ numeric.toList.flatMap Session.results ++
      fudge.toList.flatMap Session.results, IsLine r.description := by
    intro r hr
    rcases List.mem_append.1 hr with hr | hr
    · obtain ⟨s, hs, hr⟩ := List.mem_flatMap.1 hr
      exact (hnumeric s (Option.mem_toList.1 hs)).1 r hr
    · obtain ⟨s, hs, hr⟩ := List.mem_flatMap.1 hr
      exact (hfudge s (Option.mem_toList.1 hs)).1 r hr
  by_cases hcounts : p.counts
  · simp only [if_pos hcounts, Outcome.results, Outcome.sessions, Option.toList_none,
      List.append_nil, Session.results_joinCounts]
    refine ⟨hlines, fun hne s hs ↦ ?_⟩
    rw [← Session.results_joinCounts, Option.mem_toList.1 hs] at hne
    simpa using hne
  · simp only [if_neg hcounts, Outcome.results, Outcome.sessions, List.flatMap_append]
    refine ⟨hlines, fun _ s hs ↦ ?_⟩
    have hopen : p.counts = false := Bool.eq_false_iff.2 hcounts
    rcases List.mem_append.1 hs with hs | hs
    · exact (hnumeric s (Option.mem_toList.1 hs)).2 hopen
    · exact (hfudge s (Option.mem_toList.1 hs)).2 hopen

/-! ## Reading back -/

theorem readValues_intercalate (values : List Value) :
    readValues ([' '].intercalate (values.map Value.text)) = values.map Value.text := by
  unfold readValues
  cases values with
  | nil => rfl
  | cons v rest =>
      have hspace : ∀ item ∈ (v :: rest).map Value.text, ' ' ∉ item := by
        intro item hitem hmem
        obtain ⟨w, _, rfl⟩ := List.mem_map.1 hitem
        exact absurd (Value.mem_text hmem) (by decide)
      have hne : [' '].intercalate ((v :: rest).map Value.text) ≠ [] := by
        intro hempty
        have hinfix := isInfix_intercalate [' '] (List.mem_cons_self (a := v.text)
          (l := rest.map Value.text))
        rw [List.map_cons] at hempty
        rw [hempty, List.infix_nil] at hinfix
        exact v.text_ne_nil hinfix
      rw [if_neg hne, List.splitOn_intercalate _ hspace (List.cons_ne_nil _ _)]

namespace Rolls

theorem readLine?_text (r : Rolls) :
    readLine? r.text = some (r.description, r.values.map Value.text) := by
  have hcolon : ':' ∉ [' '].intercalate (r.values.map Value.text) := by
    intro hmem
    rcases mem_intercalate hmem with hmem | ⟨item, hitem, hmem⟩
    · exact absurd hmem (by decide)
    · obtain ⟨v, _, rfl⟩ := List.mem_map.1 hitem
      exact absurd (Value.mem_text hmem) (by decide)
  rw [readLine?, text, cutLast?_colon hcolon, Option.map_some, readValues_intercalate]

theorem isLine_text {r : Rolls} (h : IsLine r.description) : IsLine r.text := by
  have hvalues : IsLine ([' '].intercalate (r.values.map Value.text)) := by
    refine isLine_intercalate (by decide) fun item hitem ↦ ?_
    obtain ⟨v, _, rfl⟩ := List.mem_map.1 hitem
    exact v.isLine_text
  exact isLine_append.2 ⟨isLine_append.2 ⟨h, by decide⟩, hvalues⟩

theorem splitOn_lines {results : List Rolls} (h : ∀ r ∈ results, IsLine r.description)
    (hne : results ≠ []) : (lines results).splitOn '\n' = results.map text := by
  refine List.splitOn_intercalate _ (fun line hline ↦ ?_) (by simpa using hne)
  obtain ⟨r, hr, rfl⟩ := List.mem_map.1 hline
  exact isLine_text (h r hr)

end Rolls

theorem Outcome.text_eq_lines {outcome : Outcome}
    (h : ∀ s ∈ outcome.sessions, s.results ≠ []) : outcome.text = Rolls.lines outcome.results := by
  have hgroups : ∀ items ∈ outcome.sessions.map fun s ↦ s.results.map Rolls.text, items ≠ [] := by
    intro items hitems
    obtain ⟨s, hs, rfl⟩ := List.mem_map.1 hitems
    simpa using h s hs
  have hflatten := intercalate_flatten ['\n'] hgroups
  rw [List.map_map] at hflatten
  rw [Rolls.lines, results, List.map_flatMap, List.flatMap_def]
  exact hflatten

/-- A report with results has one line for each of them, and every line gives back the description
and the texts of the values, also where a total lists its parts or no value is left. -/
theorem report_read_back {limits : Limits} {text report : Text} {autoTotal : Bool}
    {draws left : Draws} {outcome : Outcome}
    (h : (roll limits text autoTotal).run draws = .ok outcome left) (hne : outcome.results ≠ [])
    (hreport : outcome.report = .ok report) :
    (report.splitOn '\n').map readLine? =
      outcome.results.map fun r ↦ some (r.description, r.values.map Value.text) := by
  obtain ⟨_, _, hreport⟩ := bind_eq_ok_iff.1 hreport
  cases hreport
  obtain ⟨p, _, hrun⟩ := exists_plan_of_roll h
  obtain ⟨hlines, hsessions⟩ := (p.run_hasLines autoTotal).of_ok hrun
  rw [Outcome.text_eq_lines (hsessions hne), Rolls.splitOn_lines hlines hne, List.map_map]
  exact List.map_congr_left fun r _ ↦ r.readLine?_text

theorem report_read_back_of_total :
    (∃ outcome, (roll {} "3D6 (AB +2) 2F".toList true).run [1, 2, 3, 1, 2] = .ok outcome [] ∧
      outcome.results ≠ [] ∧
        outcome.report = .ok "TOTAL (3D6: 9, AB +2: 2): 11\n2F: + -".toList ∧
          ("TOTAL (3D6: 9, AB +2: 2): 11\n2F: + -".toList.splitOn '\n').map readLine? =
            outcome.results.map fun r ↦ some (r.description, r.values.map Value.text)) ∧
      ∃ outcome, (roll {} "2D6 keep-worst(0)".toList false).run [1, 2] = .ok outcome [] ∧
        outcome.results ≠ [] ∧ outcome.report = .ok "2D6 keep-worst(0): ".toList ∧
          ("2D6 keep-worst(0): ".toList.splitOn '\n').map readLine? =
            outcome.results.map fun r ↦ some (r.description, r.values.map Value.text) := by
  have htotal : ∃ outcome, Rolling.result?
      ((roll {} "3D6 (AB +2) 2F".toList true).run [1, 2, 3, 1, 2]) = some (outcome, []) ∧
        outcome.results ≠ [] ∧
          outcome.report = .ok "TOTAL (3D6: 9, AB +2: 2): 11\n2F: + -".toList :=
    ⟨⟨some ⟨.numeric, [⟨3, .numbered 6 (by decide), none, [], by decide, by decide⟩,
          ⟨1, .const (.number 2), some "AB".toList, [], by decide, by decide⟩],
        [.aggregate "TOTAL (3D6: 9, AB +2: 2)".toList 11], true⟩,
      some ⟨.fudge, [⟨2, .fudge, none, [], by decide, by decide⟩],
        [⟨.fudge, "2F".toList, [.face .plus, .face .minus],
          some ⟨2, .fudge, none, [], by decide, by decide⟩⟩], false⟩⟩,
      by decide +kernel, by decide, by decide +kernel⟩
  have hnone : ∃ outcome, Rolling.result?
      ((roll {} "2D6 keep-worst(0)".toList false).run [1, 2]) = some (outcome, []) ∧
        outcome.results ≠ [] ∧ outcome.report = .ok "2D6 keep-worst(0): ".toList :=
    ⟨⟨some ⟨.numeric, [⟨2, .numbered 6 (by decide), none, [], by decide, by decide⟩],
        [⟨.numeric, "2D6 keep-worst(0)".toList, [],
          some ⟨2, .numbered 6 (by decide), none, [], by decide, by decide⟩⟩], false⟩, none⟩,
      by decide +kernel, by decide, by decide +kernel⟩
  obtain ⟨outcome, hrun, hne, hreport⟩ := htotal
  obtain ⟨outcome', hrun', hne', hreport'⟩ := hnone
  have hrun := Rolling.eq_ok_of_result? hrun
  have hrun' := Rolling.eq_ok_of_result? hrun'
  exact ⟨⟨outcome, hrun, hne, hreport, report_read_back hrun hne hreport⟩,
    outcome', hrun', hne', hreport', report_read_back hrun' hne' hreport'⟩

end TabletopDice
