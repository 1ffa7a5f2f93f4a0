import TabletopDice.CommandLine.Workspace
import TabletopDice.Proofs.Except

/-!
# Files that have been written

A file is found where it has been written, and every other path leads where it has led before.  The
reason is that a new file stands in a directory that was there already.  What could not be written
to its end has left the beginning of it at most.
-/

namespace TabletopDice.CommandLine.Workspace

variable {w : Workspace} {path other : Text} {bytes : Bytes} {l m : Location} {access : Access}
  {fault : StorageFault}

/-- The bytes in the file at a path. -/
def content? (w : Workspace) (path : Text) : Option Bytes :=
  match w.find path with
  | .error _ => none
  | .ok l => w.file? l

/-- Paths that lead elsewhere than this one find the same bytes as before. -/
def SameBesides (w : Workspace) (path : Text) (after : Workspace) : Prop :=
  ∀ other, w.find other ≠ w.find path → after.content? other = w.content? other

/-! ## Directories -/

theorem isDirectory_iff : w.isDirectory l ↔
    l <+: w.current ∨ (∃ d ∈ w.directories, l <+: d) ∨ ∃ f ∈ w.files, l <+: f.1.dropLast := by
  simp [isDirectory, List.isPrefixOf_iff_prefix]

theorem isDirectory_above (h : w.isDirectory l) (hle : m <+: l) : w.isDirectory m := by
  rw [isDirectory_iff] at h ⊢
  exact h.imp hle.trans (Or.imp (fun ⟨d, hd, hl⟩ ↦ ⟨d, hd, hle.trans hl⟩)
    fun ⟨f, hf, hl⟩ ↦ ⟨f, hf, hle.trans hl⟩)

theorem isDirectory_origin (w : Workspace) (path : Text) : w.isDirectory (w.origin path) := by
  rw [isDirectory_iff]
  left
  unfold origin
  split
  · exact List.nil_prefix
  · exact List.prefix_refl _

/-- Only the last step can leave the directories, and it goes down. -/
theorem isDirectory_dropLast_of_follow {names : List Text} (hl : w.isDirectory l)
    (h : w.follow l names = .ok m) (hm : ¬w.isDirectory m) : w.isDirectory m.dropLast := by
  induction names generalizing l with
  | nil =>
      cases h
      exact (hm hl).elim
  | cons name rest ih =>
      rw [follow, if_pos hl] at h
      split at h
      · cases h
      by_cases hstep : w.isDirectory (l.step name)
      · exact ih hstep h
      · have hname : name ≠ ['.', '.'] := by
          rintro rfl
          exact hstep (isDirectory_above hl (List.dropLast_prefix l))
        -- Nothing can be followed from there, so this was the last name.
        cases rest with
        | nil =>
            cases h
            rwa [Location.step, if_neg hname, List.dropLast_concat]
        | cons next rest =>
            rw [follow, if_neg hstep] at h
            split at h <;> cases h

theorem find_eq_ok_iff : w.find path = .ok l ↔
    '\x00' ∉ path ∧ (Utf8.encode path).length ≤ pathLimit ∧
      w.follow (w.origin path) (pathNames path) = .ok l ∧ ¬w.isDirectory l := by
  unfold find
  by_cases hnull : '\x00' ∈ path
  · simp only [if_pos hnull]
    exact iff_of_false (fun h ↦ nomatch h) fun h ↦ h.1 hnull
  by_cases hlong : pathLimit < (Utf8.encode path).length
  · simp only [if_neg hnull, if_pos hlong]
    exact iff_of_false (fun h ↦ nomatch h) fun h ↦ by omega
  simp only [if_neg hnull, if_neg hlong, bind_eq_ok_iff]
  constructor
  · rintro ⟨m, hm, h⟩
    split at h
    · cases h
    · next hdir =>
        cases h
        exact ⟨hnull, by omega, hm, hdir⟩
  · rintro ⟨_, _, hl, hdir⟩
    exact ⟨l, hl, by rw [if_neg hdir]; rfl⟩

theorem follow_ne_nullCharacter {names : List Text} :
    w.follow l names ≠ .error .nullCharacter := by
  induction names generalizing l with
  | nil => exact fun h ↦ nomatch h
  | cons name rest ih =>
      rw [follow]
      split
      · split
        · exact fun h ↦ nomatch h
        · exact ih
      · split <;> exact fun h ↦ nomatch h

theorem nullCharacter_mem_of_find (h : w.find path = .error .nullCharacter) :
    '\x00' ∈ path := by
  by_contra hnull
  unfold find at h
  by_cases hlong : pathLimit < (Utf8.encode path).length
  · simp only [if_neg hnull, if_pos hlong] at h
    cases h
  simp only [if_neg hnull, if_neg hlong, bind_eq_error_iff] at h
  rcases h with h | ⟨l, _, h⟩
  · exact follow_ne_nullCharacter h
  · split at h <;> cases h

theorem find_of_opened (h : w.opened access path = .ok l) : w.find path = .ok l := by
  unfold opened at h
  split at h
  · cases h
  · exact h

theorem nullCharacter_mem_of_opened (h : w.opened access path = .error .nullCharacter) :
    '\x00' ∈ path := by
  unfold opened at h
  split at h
  · cases h
  · exact nullCharacter_mem_of_find h

theorem nullCharacter_mem_of_read (h : w.read path = .error fault) :
    fault.path = path ∧ (fault.cause = .nullCharacter → '\x00' ∈ path) := by
  unfold read at h
  split at h
  · next hopened =>
      cases h
      refine ⟨rfl, ?_⟩
      rintro rfl
      exact nullCharacter_mem_of_opened hopened
  · split at h <;> cases h <;> exact ⟨rfl, fun hcause ↦ nomatch hcause⟩

/-- What a path leads to stands in a directory and is none itself. -/
theorem isDirectory_of_find (h : w.find path = .ok l) :
    ¬w.isDirectory l ∧ w.isDirectory l.dropLast := by
  obtain ⟨_, _, hfollow, hl⟩ := find_eq_ok_iff.1 h
  exact ⟨hl, isDirectory_dropLast_of_follow (isDirectory_origin w path) hfollow hl⟩

/-! ## After a file has been written -/

theorem isDirectory_place (hl : w.isDirectory l.dropLast) :
    (w.place l bytes).isDirectory m = w.isDirectory m := by
  rw [Bool.eq_iff_iff]
  constructor
  · intro h
    rw [isDirectory_iff] at h
    rcases h with h | h | ⟨f, hf, hm⟩
    · exact isDirectory_iff.2 (.inl h)
    · exact isDirectory_iff.2 (.inr (.inl h))
    rcases List.mem_cons.1 hf with rfl | hf
    · exact isDirectory_above hl hm
    · exact isDirectory_iff.2 (.inr (.inr ⟨f, List.mem_of_mem_filter hf, hm⟩))
  · intro h
    rw [isDirectory_iff] at h ⊢
    refine h.imp_right (Or.imp_right fun ⟨f, hf, hm⟩ ↦ ?_)
    by_cases hsame : f.1 = l
    · exact ⟨(l, bytes), List.mem_cons_self, hsame ▸ hm⟩
    · exact ⟨f, List.mem_cons_of_mem _ (List.mem_filter.2 ⟨hf, by simpa using hsame⟩), hm⟩

theorem file?_place_self : (w.place l bytes).file? l = some bytes := by
  rw [file?, place, List.lookup_cons_self]

theorem lookup_cons_of_ne (h : m ≠ l) (files : List (Location × Bytes)) :
    ((l, bytes) :: files).lookup m = files.lookup m := by
  rw [List.lookup_cons, beq_eq_false_iff_ne.2 h]

theorem lookup_filter_of_ne (h : m ≠ l) (files : List (Location × Bytes)) :
    (files.filter fun f ↦ f.1 ≠ l).lookup m = files.lookup m := by
  induction files with
  | nil => rfl
  | cons f rest ih =>
      by_cases hf : f.1 = l
      · rw [List.filter_cons_of_neg (by simpa using hf), ih, lookup_cons_of_ne (hf ▸ h)]
      · rw [List.filter_cons_of_pos (by simpa using hf), List.lookup_cons, List.lookup_cons, ih]

theorem file?_place_of_ne (h : m ≠ l) : (w.place l bytes).file? m = w.file? m := by
  rw [file?, place, lookup_cons_of_ne h, lookup_filter_of_ne h, file?]

theorem follow_place (hl : w.isDirectory l.dropLast) (start : Location) (names : List Text) :
    (w.place l bytes).follow start names = .ok m ↔ w.follow start names = .ok m := by
  induction names generalizing start with
  | nil => rfl
  | cons name rest ih =>
      simp only [follow, isDirectory_place hl]
      by_cases hstart : w.isDirectory start
      · simp only [if_pos hstart]
        split
        · simp
        · exact ih _
      · simp only [if_neg hstart]
        split <;> split <;> simp

theorem find_place (hl : w.isDirectory l.dropLast) :
    (w.place l bytes).find path = .ok m ↔ w.find path = .ok m := by
  simp only [find_eq_ok_iff, isDirectory_place hl]
  rw [show (w.place l bytes).origin path = w.origin path from rfl, follow_place hl]

theorem content?_eq_some_iff :
    w.content? path = some bytes ↔ ∃ l, w.find path = .ok l ∧ w.file? l = some bytes := by
  unfold content?
  cases w.find path with
  | error cause => simp
  | ok l => simp

theorem content?_place_self (h : w.find path = .ok l) :
    (w.place l bytes).content? path = some bytes :=
  content?_eq_some_iff.2 ⟨l, (find_place (isDirectory_of_find h).2).2 h, file?_place_self⟩

theorem content?_place_of_ne (h : w.find path = .ok l) (hne : w.find other ≠ w.find path) :
    (w.place l bytes).content? other = w.content? other := by
  ext others
  rw [content?_eq_some_iff, content?_eq_some_iff]
  refine exists_congr fun m ↦ ?_
  rw [find_place (isDirectory_of_find h).2]
  refine and_congr_right fun hm ↦ ?_
  rw [file?_place_of_ne]
  rintro rfl
  exact hne (hm.trans h.symm)

/-! ## Attempts to write -/

variable {after : Workspace} {u : Unit}

theorem exists_place_of_write (h : w.write path bytes = (.ok u, after)) :
    ∃ l, w.find path = .ok l ∧ after = w.place l bytes := by
  unfold write at h
  split at h
  · cases h
  · next l hopened =>
      split at h
      · cases h
      · cases h
        exact ⟨l, find_of_opened hopened, rfl⟩

/-- Either nothing is written or a file that holds the beginning of the bytes. -/
theorem exists_place_of_write_error (h : w.write path bytes = (.error fault, after)) :
    after = w ∨ ∃ l passed, w.find path = .ok l ∧ after = w.place l (bytes.take passed) := by
  unfold write at h
  split at h
  · cases h
    exact .inl rfl
  · next l hopened =>
      split at h
      · next r passed _ =>
          cases h
          exact .inr ⟨l, passed, find_of_opened hopened, rfl⟩
      · cases h

theorem nullCharacter_mem_of_write (h : w.write path bytes = (.error fault, after)) :
    fault.path = path ∧ (fault.cause = .nullCharacter → '\x00' ∈ path) := by
  unfold write at h
  split at h
  · next hopened =>
      cases h
      refine ⟨rfl, ?_⟩
      rintro rfl
      exact nullCharacter_mem_of_opened hopened
  · split at h
    · cases h
      exact ⟨rfl, fun hcause ↦ nomatch hcause⟩
    · cases h

theorem content?_of_write (h : w.write path bytes = (.ok u, after)) :
    after.content? path = some bytes := by
  obtain ⟨l, hl, rfl⟩ := exists_place_of_write h
  exact content?_place_self hl

theorem content?_of_write_error (h : w.write path bytes = (.error fault, after)) :
    after = w ∨ ∃ part, part <+: bytes ∧ after.content? path = some part := by
  refine (exists_place_of_write_error h).imp_right ?_
  rintro ⟨l, passed, hl, rfl⟩
  exact ⟨_, List.take_prefix passed bytes, content?_place_self hl⟩

/-- Written or not, the other files stay as they are. -/
theorem sameBesides_of_write {result : Except StorageFault Unit}
    (h : w.write path bytes = (result, after)) : w.SameBesides path after := by
  intro other hne
  cases result with
  | ok u =>
      obtain ⟨l, hl, rfl⟩ := exists_place_of_write h
      exact content?_place_of_ne hl hne
  | error fault =>
      rcases exists_place_of_write_error h with rfl | ⟨l, passed, hl, rfl⟩
      · rfl
      · exact content?_place_of_ne hl hne

end TabletopDice.CommandLine.Workspace
