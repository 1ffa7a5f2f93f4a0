import TabletopDice.CommandLine.Performance
import TabletopDice.Proofs.CommandLine.Storage
import TabletopDice.Proofs.CommandLine.Values
import TabletopDice.Proofs.Notation.Rejection
import TabletopDice.Proofs.Rolling.Running
import TabletopDice.Proofs.Session.Safety

/-!
# How a command ends

A command that finds its arguments in order reads, rolls, shows the report and saves it.  If it does
not get to a report, it leaves all files as they are; if it does not get the report into its file,
the file may hold the beginning of it.  In either case the command ends with a line about the
failure, except for a few troubles that interrupt it.
-/

namespace TabletopDice.CommandLine

variable {limits : Limits} {p : Preferences} {arguments : List Text} {a : Arguments}
  {w : Workspace} {draws left : Draws} {report : Text} {f : Failure} {t : Trouble}
  {fault : StorageFault}

/-- The trouble for which the command does not get to a report. -/
inductive Fails (limits : Limits) (a : Arguments) (w : Workspace) (draws : Draws) :
    Trouble → Prop where
  | reading {t : Trouble} (hread : a.source.read w = .error t) : Fails limits a w draws t
  | seeding {request : Text} (hread : a.source.read w = .ok request) (hseed : a.seed = .empty) :
      Fails limits a w draws .noSeed
  | rolling {request : Text} {f : Failure} {left : Draws}
      (hread : a.source.read w = .ok request) (hseed : a.seed ≠ .empty)
      (hroll : (rollReport limits request a.autoTotal).run draws = .error f left) :
      Fails limits a w draws (.failure f)

/-- The report that the command gets to. -/
inductive Reports (limits : Limits) (a : Arguments) (w : Workspace) (draws : Draws) :
    Text → Prop where
  | intro {request report : Text} {left : Draws} (hread : a.source.read w = .ok request)
      (hseed : a.seed ≠ .empty)
      (hroll : (rollReport limits request a.autoTotal).run draws = .ok report left) :
      Reports limits a w draws report

/-- The fault for which the report is not saved, although it is asked for. -/
def FailsToSave (a : Arguments) (w : Workspace) (report : Text) (fault : StorageFault) : Prop :=
  ∃ path ∈ a.save, (w.write path (savedBytes report)).1 = .error fault

/-- The troubles that nothing in a command provides for, so that they interrupt it. -/
inductive Escapes (a : Arguments) (w : Workspace) : Trouble → Prop where
  | numberTooLong (digits : Option Nat) : Escapes a w (.failure (.numberTooLong digits))
  | noDrawLeft : Escapes a w (.failure .noDrawLeft)
  | endlessExplosion : Escapes a w (.failure .endlessExplosion)
  | encoding {path : Text} {bytes : Bytes} {fault : Utf8.Fault} (hsource : a.source = .file path)
      (hread : w.read path = .ok bytes) (hdecode : Utf8.decode bytes = .error fault) :
      Escapes a w (.encoding fault)
  | nullCharacter {path : Text} (hpath : a.source = .file path ∨ a.save = some path)
      (hnull : '\x00' ∈ path) : Escapes a w (.storage ⟨.nullCharacter, path⟩)
  | noRequest (hsource : a.source = .nowhere) : Escapes a w .noRequest
  | noSeed (hseed : a.seed = .empty) : Escapes a w .noSeed

structure Finishes (a : Arguments) (w : Workspace) (report : Text) (done : Performance) :
    Prop where
  ending_eq : done.ending = .exit 0
  output_eq : done.output = reportLines report ++ a.save.elim [] savedLine
  unsaved : a.save = none → done.workspace = w
  content_eq : ∀ path ∈ a.save, done.workspace.content? path = some (savedBytes report)
  others : ∀ path ∈ a.save, w.SameBesides path done.workspace

/-- The command ends with a line about the trouble, or the trouble interrupts it. -/
structure GivesUp (a : Arguments) (w : Workspace) (shown : Text) (t : Trouble)
    (done : Performance) : Prop where
  told : ¬Escapes a w t → done.ending = .exit 1 ∧ done.output = shown ++ failureLine t.message
  interrupted : Escapes a w t → done.ending = .interrupted t ∧ done.output = shown

structure SavesPartly (a : Arguments) (w : Workspace) (report : Text) (done : Performance) :
    Prop where
  part : done.workspace = w ∨ ∀ path ∈ a.save, ∃ part, part <+: savedBytes report ∧
    done.workspace.content? path = some part
  others : ∀ path ∈ a.save, w.SameBesides path done.workspace

/-! ## Troubles that are not shown -/

/-- Rolling a request that was read never leads to a step that makes no sense. -/
theorem rollReport_gives (limits : Limits) (request : Text) (autoTotal : Bool) :
    (rollReport limits request autoTotal).Gives (fun _ ↦ True)
      fun f ↦ ∀ cause, f ≠ .misuse cause := by
  have hincidental {f : Failure} (hf : f.Incidental) (cause : Misuse) : f ≠ .misuse cause := by
    rintro rfl
    exact hf
  rw [rollReport]
  have hroll : (roll limits (stripped request) autoTotal).Gives (fun _ ↦ True)
      fun f ↦ ∀ cause, f ≠ .misuse cause := by
    rw [roll]
    refine Rolling.gives_lift_bind (fun f hf cause ↦ ?_) fun plan hplan ↦ ?_
    · rintro rfl
      cases Notation.rejects_of_readPlan hf
    · refine (Plan.run_gives (sorted_of_readPlan hplan) autoTotal).imp (fun _ _ ↦ trivial) ?_
      rintro f (hf | ⟨hf, _⟩) cause rfl
      · exact hf
      · exact hf
  refine hroll.bind fun outcome _ ↦ Rolling.gives_ofExcept (fun _ _ ↦ trivial) fun f hf ↦ ?_
  rcases bind_eq_error_iff.1 hf with hf | ⟨_, _, hf⟩
  · exact hincidental (incidental_of_checkWritable hf)
  · cases hf

/-- A fault of a file is shown unless it is a null character in the path. -/
theorem escapes_of_storage {path : Text} (hnamed : a.source = .file path ∨ a.save = some path)
    (hfault : fault.path = path ∧ (fault.cause = .nullCharacter → '\x00' ∈ path))
    (hshown : ¬(Trouble.storage fault).isShown) : Escapes a w (.storage fault) := by
  obtain ⟨cause, _⟩ := fault
  obtain ⟨rfl, hnull⟩ := hfault
  obtain rfl : cause = .nullCharacter := by simpa [Trouble.isShown] using hshown
  exact .nullCharacter hnamed (hnull rfl)

theorem escapes_of_failure (hmisuse : ∀ cause, f ≠ .misuse cause)
    (hshown : ¬(Trouble.failure f).isShown) : Escapes a w (.failure f) := by
  cases f with
  | unreadable | incompatible | badDice | badSelection => exact (hshown rfl).elim
  | noDrawLeft => exact .noDrawLeft
  | endlessExplosion => exact .endlessExplosion
  | numberTooLong digits => exact .numberTooLong digits
  | misuse cause => exact (hmisuse cause rfl).elim

theorem escapes_of_read (h : a.source.read w = .error t) (hshown : ¬t.isShown) :
    Escapes a w t := by
  unfold Source.read at h
  split at h
  · cases h
  · next hsource =>
      cases h
      exact .noRequest hsource
  · next path hsource =>
      split at h
      · next fault hread =>
          cases h
          exact escapes_of_storage (.inl hsource) (Workspace.nullCharacter_mem_of_read hread) hshown
      · next bytes hread =>
          split at h
          · cases h
          · next fault hdecode =>
              cases h
              exact .encoding hsource hread hdecode

theorem Fails.escapes (h : Fails limits a w draws t) (hshown : ¬t.isShown) : Escapes a w t := by
  cases h with
  | reading hread => exact escapes_of_read hread hshown
  | seeding _ hseed => exact .noSeed hseed
  | rolling _ _ hroll => exact escapes_of_failure ((rollReport_gives _ _ _).of_error hroll) hshown

theorem Escapes.not_isShown (h : Escapes a w t) : ¬t.isShown := by
  cases h <;> simp [Trouble.isShown]

theorem Performance.workspace_ofTrouble {shown : Text} {seeds : List (Setting Int)} :
    (Performance.ofTrouble shown t seeds w left).workspace = w := by
  unfold Performance.ofTrouble
  split <;> rfl

theorem GivesUp.ofTrouble (h : ¬t.isShown → Escapes a w t) (shown : Text)
    (seeds : List (Setting Int)) (after : Workspace) (left : Draws) :
    GivesUp a w shown t (.ofTrouble shown t seeds after left) := by
  unfold Performance.ofTrouble
  by_cases hshown : t.isShown
  · rw [if_pos hshown]
    exact ⟨fun _ ↦ ⟨rfl, rfl⟩, fun hescapes ↦ (hescapes.not_isShown hshown).elim⟩
  · rw [if_neg hshown]
    exact ⟨fun hnot ↦ (hnot (h hshown)).elim, fun _ ↦ ⟨rfl, rfl⟩⟩

/-! ## The parts of a performance -/

theorem Fails.perform_eq (h : Fails limits a w draws t) :
    ∃ seeds left, a.perform limits w draws = .ofTrouble [] t seeds w left := by
  cases h with
  | reading hread =>
      refine ⟨[], draws, ?_⟩
      simp only [Arguments.perform, hread]
  | seeding hread hseed =>
      refine ⟨[a.seed], draws, ?_⟩
      simp only [Arguments.perform, hread, carryOut, if_pos hseed]
  | @rolling _ _ left hread hseed hroll =>
      refine ⟨[a.seed], left, ?_⟩
      simp only [Arguments.perform, hread, carryOut, if_neg hseed, hroll]

theorem Reports.perform_eq (h : Reports limits a w draws report) :
    ∃ left, a.perform limits w draws = present a report w left := by
  obtain @⟨_, _, left, hread, hseed, hroll⟩ := h
  refine ⟨left, ?_⟩
  simp only [Arguments.perform, hread, carryOut, if_neg hseed, hroll]

theorem fails_or_reports (limits : Limits) (a : Arguments) (w : Workspace) (draws : Draws) :
    (∃ t, Fails limits a w draws t) ∨ ∃ report, Reports limits a w draws report := by
  cases hread : a.source.read w with
  | error t => exact .inl ⟨t, .reading hread⟩
  | ok request =>
      by_cases hseed : a.seed = .empty
      · exact .inl ⟨_, .seeding hread hseed⟩
      cases hroll : (rollReport limits request a.autoTotal).run draws with
      | error f left => exact .inl ⟨_, .rolling hread hseed hroll⟩
      | ok report left => exact .inr ⟨report, .intro hread hseed hroll⟩

theorem forall_mem_save {P : Text → Prop} {path : Text} (hsave : a.save = some path)
    (h : P path) : ∀ q ∈ a.save, P q := by
  intro q hq
  rw [Option.some.inj (hsave.symm.trans hq)] at h
  exact h

theorem finishes_of_present (h : ∀ fault, ¬FailsToSave a w report fault) (left : Draws) :
    Finishes a w report (present a report w left) := by
  cases hsave : a.save with
  | none =>
      simp only [present, hsave]
      exact ⟨rfl, by rw [hsave]; simp, fun _ ↦ rfl, by simp [hsave], by simp [hsave]⟩
  | some path =>
      cases hwrite : w.write path (savedBytes report) with
      | mk result after =>
        cases result with
        | error fault => exact (h fault ⟨path, hsave, by rw [hwrite]⟩).elim
        | ok u =>
            simp only [present, hsave, hwrite]
            exact ⟨rfl, by rw [hsave]; rfl, by simp [hsave],
              forall_mem_save hsave (Workspace.content?_of_write hwrite),
              forall_mem_save hsave (Workspace.sameBesides_of_write hwrite)⟩

theorem givesUp_of_present (h : FailsToSave a w report fault) (left : Draws) :
    GivesUp a w (reportLines report) (.storage fault) (present a report w left) ∧
      SavesPartly a w report (present a report w left) := by
  obtain ⟨path, hsave, hfault⟩ := h
  cases hwrite : w.write path (savedBytes report) with
  | mk result after =>
    rw [hwrite] at hfault
    cases hfault
    have hpresent : present a report w left =
        .ofTrouble (reportLines report) (.storage fault) [a.seed] after left := by
      simp only [present, Option.mem_def.1 hsave, hwrite]
    have hnull := Workspace.nullCharacter_mem_of_write hwrite
    rw [hpresent]
    refine ⟨.ofTrouble (escapes_of_storage (.inr hsave) hnull) _ _ _ _, ?_, ?_⟩
    · rw [Performance.workspace_ofTrouble]
      exact (Workspace.content?_of_write_error hwrite).imp_right (forall_mem_save hsave)
    · rw [Performance.workspace_ofTrouble]
      exact forall_mem_save hsave (Workspace.sameBesides_of_write hwrite)

/-- Either there is a trouble before the report, or there is a report.  A trouble leaves all files
alone and ends the command with a line about it.  A report is shown, and if it is to be saved, it is
in the file just as it is shown; where it cannot be saved, the command ends with such a line as well,
and there is only the beginning of the report, if anything, in the file.  A few troubles interrupt
the command instead, two of which are left over from attached double dashes that are dropped. -/
theorem perform_ends (h : Arguments.ofList p arguments = .ok a) :
    ((∃ t, Fails limits a w draws t) ∨ ∃ report, Reports limits a w draws report) ∧
    (∀ t, Fails limits a w draws t → GivesUp a w [] t (perform limits p arguments w draws) ∧
      (perform limits p arguments w draws).workspace = w) ∧
    (∀ report, Reports limits a w draws report →
      ((∀ fault, ¬FailsToSave a w report fault) →
        Finishes a w report (perform limits p arguments w draws)) ∧
      ∀ fault, FailsToSave a w report fault →
        GivesUp a w (reportLines report) (.storage fault) (perform limits p arguments w draws) ∧
          SavesPartly a w report (perform limits p arguments w draws)) ∧
    (p.attachedDash = .kept → a.seed ≠ .empty ∧ a.source ≠ .nowhere) := by
  have hperform : perform limits p arguments w draws = a.perform limits w draws := by
    rw [perform, h]
  rw [hperform]
  refine ⟨fails_or_reports limits a w draws, fun t ht ↦ ?_, fun report hreport ↦ ?_,
    fun hdash ↦ keeps_values hdash h⟩
  · obtain ⟨seeds, left, heq⟩ := ht.perform_eq
    rw [heq]
    exact ⟨.ofTrouble ht.escapes [] seeds w left, Performance.workspace_ofTrouble⟩
  · obtain ⟨left, heq⟩ := hreport.perform_eq
    rw [heq]
    exact ⟨fun hnone ↦ finishes_of_present hnone left,
      fun fault hfault ↦ givesUp_of_present hfault left⟩

/-- A number in a file is rolled and saved, on a full disk only the beginning of the report is, and
without the file nothing is. -/
theorem perform_ends_of_file :
    ∃ (a : Arguments) (w full empty : Workspace) (report : Text) (fault missing : StorageFault),
      Arguments.ofList {} ["-f".toList, "r".toList, "-s".toList, "o".toList] = .ok a ∧
        Reports {} a w [] report ∧ (∀ fault, ¬FailsToSave a w report fault) ∧
        Finishes a w report
          (perform {} {} ["-f".toList, "r".toList, "-s".toList, "o".toList] w []) ∧
        Reports {} a full [] report ∧ FailsToSave a full report fault ∧
        SavesPartly a full report
          (perform {} {} ["-f".toList, "r".toList, "-s".toList, "o".toList] full []) ∧
        Fails {} a empty [] (.storage missing) ∧
        GivesUp a empty [] (.storage missing)
          (perform {} {} ["-f".toList, "r".toList, "-s".toList, "o".toList] empty []) := by
  let a : Arguments := ⟨.file "r".toList, some "o".toList, .unset, false⟩
  let w (hindrances : List ((Access × Text) × Hindrance)) : Workspace :=
    ⟨[(["r".toList], [43, 51])], [], [], hindrances⟩
  let full : Refusal := ⟨28, "No space left on device".toList⟩
  have hargs : Arguments.ofList {} ["-f".toList, "r".toList, "-s".toList, "o".toList] = .ok a := by
    rfl
  have hroll : (rollReport {} "+3".toList false).run [] = .ok "+3: 3".toList [] :=
    Rolling.eq_ok_of_result? (by decide +kernel)
  have hreports : Reports {} a (w []) [] "+3: 3".toList :=
    .intro (by decide +kernel) (by decide) hroll
  have hreports' : Reports {} a (w [((.writing, "o".toList), .halfway full 2)]) []
      "+3: 3".toList :=
    .intro (by decide +kernel) (by decide) hroll
  have hsaves : ∀ fault, ¬FailsToSave a (w []) "+3: 3".toList fault := by
    rintro fault ⟨path, hpath, hfault⟩
    cases hpath
    cases hfault
  have hfails : FailsToSave a (w [((.writing, "o".toList), .halfway full 2)]) "+3: 3".toList
      ⟨.brokenOff full, "o".toList⟩ :=
    ⟨_, rfl, rfl⟩
  have hmissing : Fails {} a ⟨[], [], [], []⟩ [] (.storage ⟨.missing, "r".toList⟩) := .reading rfl
  exact ⟨_, _, _, _, _, _, _, hargs, hreports, hsaves,
    ((perform_ends hargs).2.2.1 _ hreports).1 hsaves, hreports', hfails,
    (((perform_ends hargs).2.2.1 _ hreports').2 _ hfails).2, hmissing,
    ((perform_ends hargs).2.1 _ hmissing).1⟩

/-- A file that can be read, but is no text, interrupts the command. -/
theorem interrupted_of_encoding :
    ∃ (a : Arguments) (w : Workspace),
      Arguments.ofList {} ["-f".toList, "request.txt".toList] = .ok a ∧
        (perform {} {} ["-f".toList, "request.txt".toList] w []).output = [] ∧
        (perform {} {} ["-f".toList, "request.txt".toList] w []).ending =
          .interrupted (.encoding ⟨.invalidStart, 255, 3, 1⟩) := by
  have hargs : Arguments.ofList {} ["-f".toList, "request.txt".toList] =
      .ok ⟨.file "request.txt".toList, none, .unset, false⟩ := by
    rfl
  have hread : Source.read (.file "request.txt".toList)
      ⟨[(["request.txt".toList], [51, 68, 54, 255])], [], [], []⟩ =
        .error (.encoding ⟨.invalidStart, 255, 3, 1⟩) := by
    decide +kernel
  refine ⟨_, ⟨[(["request.txt".toList], [51, 68, 54, 255])], [], [], []⟩, hargs, ?_⟩
  rw [perform, hargs]
  simp only [Arguments.perform, hread]
  exact ⟨rfl, rfl⟩

end TabletopDice.CommandLine
