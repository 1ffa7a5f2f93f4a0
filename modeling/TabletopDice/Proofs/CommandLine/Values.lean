import TabletopDice.CommandLine.Arguments
import TabletopDice.Proofs.Except

/-!
# Values of options

Where a double dash that is attached to an option is kept as its value, no option is left without a
value: each step that gathers the arguments puts a value into what it sets.
-/

namespace TabletopDice.CommandLine

namespace Gathered

/-- No option has lost its value. -/
structure KeepsValues (g : Gathered) : Prop where
  file_ne : g.file ≠ .empty
  seed_ne : g.seed ≠ .empty

variable {g next : Gathered} {flag : Flag} {text : Text}

theorem KeepsValues.takeDice (h : g.KeepsValues) (hnext : g.takeDice text = .ok next) :
    next.KeepsValues := by
  unfold Gathered.takeDice at hnext
  split at hnext
  · cases hnext
    exact ⟨h.file_ne, h.seed_ne⟩
  · cases hnext

theorem KeepsValues.takeValue (h : g.KeepsValues) (hnext : g.takeValue .kept flag text = .ok next) :
    next.KeepsValues := by
  cases flag with
  | file =>
      simp only [Gathered.takeValue] at hnext
      split at hnext
      · cases hnext
      · cases hnext
        exact ⟨(fun hfile ↦ nomatch hfile), h.seed_ne⟩
  | save =>
      cases hnext
      exact ⟨h.file_ne, h.seed_ne⟩
  | seed =>
      -- A double dash is no number, so it is refused like any other text that is none.
      simp only [Gathered.takeValue] at hnext
      split at hnext
      · next seed hseed =>
          cases hnext
          refine ⟨h.file_ne, ?_⟩
          rintro rfl
          obtain ⟨n, _, hn⟩ := Option.map_eq_some_iff.1 hseed
          cases hn
      · cases hnext
  | help | autoTotal => cases hnext

theorem KeepsValues.gather {marks : List Mark} {after : Gathered} (h : g.KeepsValues)
    (hg : g.gather .kept marks = .ok after) : after.KeepsValues := by
  fun_induction g.gather .kept marks with
  | case1 g =>
      cases hg
      exact h
  | case2 g text rest _ ih | case4 g text rest _ _ ih =>
      obtain ⟨next, hnext, hg⟩ := bind_eq_ok_iff.1 hg
      exact ih next (h.takeDice hnext) hg
  | case11 g flag text rest ih | case12 g flag text rest _ _ ih =>
      obtain ⟨next, hnext, hg⟩ := bind_eq_ok_iff.1 hg
      exact ih next (h.takeValue hnext) hg
  | case3 _ _ _ _ ih | case5 _ _ _ _ _ ih | case6 _ _ ih | case7 _ _ ih | case10 _ _ ih =>
      exact ih ⟨h.file_ne, h.seed_ne⟩ hg
  | case8 | case9 | case13 => cases hg

theorem KeepsValues.source?_ne (h : g.KeepsValues) : g.source? ≠ some .nowhere := by
  unfold Gathered.source?
  split
  · exact fun h ↦ nomatch h
  · exact fun h ↦ nomatch h
  · next hfile => exact (h.file_ne hfile).elim
  · exact fun h ↦ nomatch h

end Gathered

/-- An option without a value is left over only where an attached double dash is dropped. -/
theorem keeps_values {p : Preferences} {arguments : List Text} {a : Arguments}
    (hdash : p.attachedDash = .kept)
    (h : Arguments.ofList p arguments = .ok a) : a.seed ≠ .empty ∧ a.source ≠ .nowhere := by
  have hstart : (Gathered.start p).KeepsValues := by
    refine ⟨(fun hfile ↦ nomatch hfile), ?_⟩
    cases hseed : p.seed <;> simp [Gathered.start, Setting.ofOption, hseed]
  obtain ⟨marks, _, h⟩ := bind_eq_ok_iff.1 h
  obtain ⟨g, hg, h⟩ := bind_eq_ok_iff.1 h
  rw [hdash] at hg
  have hkeeps := hstart.gather hg
  split at h
  · next source _ hsource =>
      cases h
      refine ⟨hkeeps.seed_ne, ?_⟩
      rintro rfl
      exact hkeeps.source?_ne hsource
  · cases h

end TabletopDice.CommandLine
