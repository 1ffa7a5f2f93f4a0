import TabletopDice.Proofs.Rolling.Flipping
import TabletopDice.Proofs.Rolling.Selections

/-!
# Chains of selections

A selection from numbers in ascending order takes a stretch of them, and so does a selection from
this stretch.  One selection after the other therefore leaves a window of the sorted numbers, of
which each of them has moved one end, and the first one that asks for more numbers than the window
holds is refused.
-/

namespace TabletopDice

variable {sorted values : List Int} {which : Extreme} {n : Int}

/-! ## Windows -/

/-- The places from `lower` up to `upper`, the latter not included. -/
structure Window where
  lower : Nat
  upper : Nat
  lower_le : lower ≤ upper

namespace Window

def whole (count : Nat) : Window := ⟨0, count, Nat.zero_le count⟩

def size (w : Window) : Nat := w.upper - w.lower

/-- The window after a selection: the best numbers are at its upper end, the worst at its lower. -/
def narrow (w : Window) (which : Extreme) (n : Int) : Window :=
  match which with
  | .best => ⟨w.upper - n.toNat, w.upper, Nat.sub_le _ _⟩
  | .worst => ⟨w.lower, w.lower + n.toNat, Nat.le_add_right _ _⟩

/-- The window after selections one after the other. -/
def through (w : Window) (chain : List (Extreme × Int)) : Window :=
  chain.foldl (fun w c ↦ w.narrow c.1 c.2) w

/-- Every selection finds enough numbers in what the ones before it have left. -/
def Admits : Window → List (Extreme × Int) → Prop
  | _, [] => True
  | w, c :: rest => Selectable c.2 w.size ∧ (w.narrow c.1 c.2).Admits rest

/-- What stands at the places of the window. -/
def of (w : Window) (sorted : List Int) : List Int := sorted.extract w.lower w.upper

variable {w : Window} {chain done rest : List (Extreme × Int)}

theorem whole_of_length (l : List Int) : (whole l.length).of l = l := by
  rw [of, whole, List.extract_eq_take_drop, List.drop_zero, Nat.sub_zero, List.take_length]

theorem length_of (hw : w.upper ≤ sorted.length) : (w.of sorted).length = w.size := by
  rw [of, List.extract_eq_take_drop, List.length_take, List.length_drop, size]
  omega

theorem of_pairwise (w : Window) (hsorted : sorted.Pairwise (· ≤ ·)) :
    (w.of sorted).Pairwise (· ≤ ·) :=
  hsorted.sublist ((List.take_sublist _ _).trans (List.drop_sublist _ _))

theorem upper_narrow_le (which : Extreme) (h : Selectable n w.size) :
    (w.narrow which n).upper ≤ w.upper := by
  have hle := w.lower_le
  obtain ⟨hneg, hn⟩ := h
  cases which with
  | best => exact Nat.le_refl _
  | worst =>
      simp only [narrow, size] at hn ⊢
      omega

theorem Admits.upper_le (h : w.Admits chain) : (w.through chain).upper ≤ w.upper := by
  induction chain generalizing w with
  | nil => exact Nat.le_refl _
  | cons c rest ih => exact (ih h.2).trans (upper_narrow_le c.1 h.1)

/-- If not all selections are possible, there is a first one that is not. -/
theorem exists_first_of_not_admits (h : ¬w.Admits chain) :
    ∃ done which n rest, chain = done ++ (which, n) :: rest ∧ w.Admits done ∧
      ¬Selectable n (w.through done).size := by
  induction chain generalizing w with
  | nil => exact (h trivial).elim
  | cons c rest ih =>
      obtain ⟨which, n⟩ := c
      by_cases hn : Selectable n w.size
      · obtain ⟨done, which', m, after, rfl, hdone, hm⟩ := ih fun hrest ↦ h ⟨hn, hrest⟩
        exact ⟨(which, n) :: done, which', m, after, rfl, ⟨hn, hdone⟩, hm⟩
      · exact ⟨[], which, n, rest, rfl, trivial, hn⟩

/-- A selection from a window of the sorted numbers moves one end of the window. -/
theorem select_of (hsorted : sorted.Pairwise (· ≤ ·)) (hw : w.upper ≤ sorted.length)
    (h : Selectable n w.size) :
    which.select n (w.of sorted) = .ok ((w.narrow which n).of sorted) := by
  have hle := w.lower_le
  have hn : n.toNat ≤ w.upper - w.lower := Int.toNat_le.2 h.2
  have hlength := length_of hw
  have hascending := ascending_of_pairwise (of_pairwise w hsorted)
  rw [Extreme.select_of_selectable (hlength.symm ▸ h)]
  cases which with
  | best =>
      have hplace : w.lower + (w.size - n.toNat) = w.upper - n.toNat := by
        rw [size]
        omega
      have hcount : w.size - (w.size - n.toNat) = w.upper - (w.upper - n.toNat) := by
        rw [size]
        omega
      rw [Extreme.among, hascending, hlength, of, of, List.extract_eq_take_drop, ← size,
        List.drop_take, List.drop_drop, hplace, hcount]
      rfl
  | worst =>
      have hcount : min n.toNat (w.upper - w.lower) = w.lower + n.toNat - w.lower := by omega
      rw [Extreme.among, hascending, of, of, List.extract_eq_take_drop, List.take_take, hcount]
      rfl

end Window

/-! ## One selection after the other -/

namespace Extreme

def selectAll (chain : List (Extreme × Int)) (values : List Int) : Except Failure (List Int) :=
  chain.foldlM (fun kept c ↦ c.1.select c.2 kept) values

variable {w : Window} {chain done rest : List (Extreme × Int)}

theorem selectAll_cons (c : Extreme × Int) (rest : List (Extreme × Int)) (values : List Int) :
    selectAll (c :: rest) values = c.1.select c.2 values >>= selectAll rest := by
  rw [selectAll, List.foldlM_cons]
  rfl

theorem selectAll_append (done rest : List (Extreme × Int)) (values : List Int) :
    selectAll (done ++ rest) values = selectAll done values >>= selectAll rest := by
  rw [selectAll, List.foldlM_append]
  rfl

/-- The first selection sorts the numbers. -/
theorem selectAll_ascending (hne : chain ≠ []) (values : List Int) :
    selectAll chain values = selectAll chain (ascending values) := by
  obtain ⟨c, rest, rfl⟩ := List.exists_cons_of_ne_nil hne
  rw [selectAll_cons, selectAll_cons, select_congr c.2 (ascending_perm values).symm]

theorem selectAll_of_admits (hsorted : sorted.Pairwise (· ≤ ·)) (hw : w.upper ≤ sorted.length)
    (h : w.Admits chain) : selectAll chain (w.of sorted) = .ok ((w.through chain).of sorted) := by
  induction chain generalizing w with
  | nil => rfl
  | cons c rest ih =>
      rw [selectAll_cons, Window.select_of hsorted hw h.1, ok_bind]
      exact ih ((Window.upper_narrow_le c.1 h.1).trans hw) h.2

/-- A chain breaks at the first selection that is not possible. -/
theorem selectAll_of_not_selectable (hsorted : sorted.Pairwise (· ≤ ·))
    (hw : w.upper ≤ sorted.length) (hdone : w.Admits done)
    (hn : ¬Selectable n (w.through done).size) :
    selectAll (done ++ (which, n) :: rest) (w.of sorted) =
      .error (Failure.badSelection (.of n (w.through done).size)).raised := by
  have hlength := Window.length_of (hdone.upper_le.trans hw)
  rw [selectAll_append, selectAll_of_admits hsorted hw hdone, ok_bind, selectAll_cons,
    select_of_not_selectable (hlength.symm ▸ hn), hlength]
  rfl

theorem length_select_le {kept : List Int} (h : which.select n values = .ok kept) :
    kept.length ≤ values.length := by
  by_cases hn : Selectable n values.length
  · rw [select_of_selectable hn] at h
    cases h
    rw [length_among]
    exact Nat.min_le_right _ _
  · rw [select_of_not_selectable hn] at h
    cases h

end Extreme

/-! ## Selections as actions -/

namespace Action

/-- The actions for selections one after the other. -/
def keeping (chain : List (Extreme × Int)) : List Action := chain.map fun c ↦ keep c.1 c.2

/-- What these actions add to a description. -/
def keepingText (chain : List (Extreme × Int)) : Text :=
  chain.flatMap fun c ↦ ' ' :: (keep c.1 c.2).text

variable {r : Rolls} {chain : List (Extreme × Int)}

theorem transform_keep (hvalues : r.values = values.map .number) :
    (keep which n).transform r = (do return (← which.select n values).map .number) := by
  unfold transform
  rw [hvalues, calculable_map]
  rfl

/-- A selection that is possible is not too long to write, unless the count of the values is. -/
theorem apply_keep (hkind : r.kind = .numeric) (hvalues : r.values = values.map .number)
    (hsize : Writable values.length) :
    (keep which n).apply r = (do
      let kept ← which.select n values
      return { r with
        description := r.description ++ ' ' :: (keep which n).text
        values := kept.map .number }) := by
  have hdefined : (keep which n).kind = r.kind := hkind.symm
  rw [apply_of_kind_eq hdefined, transform_keep hvalues]
  by_cases hn : Selectable n values.length
  · have hcheck : checkWritable (keep which n).numbers = .ok () := by
      rw [numbers, checkWritable, if_pos (List.forall_mem_singleton.2 (hn.writable hsize))]
    rw [Extreme.select_of_selectable hn, hcheck]
    rfl
  · rw [Extreme.select_of_not_selectable hn]
    rfl

/-- The actions select from the numbers, and nothing else than the description tells of them. -/
theorem applyAll_keeping (hkind : r.kind = .numeric) (hvalues : r.values = values.map .number)
    (hsize : Writable values.length) :
    applyAll (keeping chain) r = (do
      let kept ← Extreme.selectAll chain values
      return { r with
        description := r.description ++ keepingText chain, values := kept.map .number }) := by
  induction chain generalizing r values with
  | nil =>
      rw [keepingText, List.flatMap_nil, List.append_nil]
      exact congrArg pure (by rw [← hvalues])
  | cons c rest ih =>
      have hfirst : applyAll (keeping (c :: rest)) r =
          (keep c.1 c.2).apply r >>= applyAll (keeping rest) := List.foldlM_cons
      rw [hfirst, apply_keep hkind hvalues hsize, Extreme.selectAll_cons]
      cases hkept : c.1.select c.2 values with
      | error f => rfl
      | ok kept =>
          have hlength : Writable kept.length :=
            hsize.of_le (Extreme.length_select_le hkept)
          let t : Rolls := { r with
            description := r.description ++ ' ' :: (keep c.1 c.2).text, values := kept.map .number }
          have htext :
              t.description ++ keepingText rest = r.description ++ keepingText (c :: rest) :=
            List.append_assoc _ _ _
          refine (ih (r := t) hkind rfl hlength).trans ?_
          rw [htext]
          rfl

end Action

/-- Selections one after the other leave the numbers in a window of the sorted ones, or else they
are refused at the first one that asks for more than the ones before it have left.  The refusal says
how many were asked for; if this number has too many digits for that, the failure is the number. -/
theorem keeps_leave_window {chain : List (Extreme × Int)} (hne : chain ≠ []) (values : List Int) :
    ((Window.whole values.length).Admits chain → Extreme.selectAll chain values =
      .ok (((Window.whole values.length).through chain).of (ascending values))) ∧
    (∀ done which n rest, chain = done ++ (which, n) :: rest →
      (Window.whole values.length).Admits done →
      ¬Selectable n ((Window.whole values.length).through done).size →
      (Writable n → Extreme.selectAll chain values = .error
        (.badSelection (.of n ((Window.whole values.length).through done).size))) ∧
      (¬Writable n → Extreme.selectAll chain values = .error (.numberTooLong none))) ∧
    (¬(Window.whole values.length).Admits chain → ∃ done which n rest,
      chain = done ++ (which, n) :: rest ∧ (Window.whole values.length).Admits done ∧
      ¬Selectable n ((Window.whole values.length).through done).size) ∧
    ∀ r : Rolls, r.kind = .numeric → r.values = values.map .number → Writable values.length →
      Action.applyAll (Action.keeping chain) r = (do
        let kept ← Extreme.selectAll chain values
        return { r with
          description := r.description ++ Action.keepingText chain,
          values := kept.map .number }) := by
  have hsorted := ascending_pairwise values
  have hwhole : (Window.whole values.length).upper ≤ (ascending values).length :=
    (length_ascending values).ge
  have hstart : (Window.whole values.length).of (ascending values) = ascending values := by
    rw [← length_ascending values, Window.whole_of_length]
  rw [Extreme.selectAll_ascending hne]
  refine ⟨fun h ↦ ?_, fun done which n rest hsplit hdone hn ↦ ?_,
    Window.exists_first_of_not_admits, fun r hkind hvalues hsize ↦ ?_⟩
  · rw [← Extreme.selectAll_of_admits hsorted hwhole h, hstart]
  · rw [hsplit, ← hstart, Extreme.selectAll_of_not_selectable hsorted hwhole hdone hn]
    constructor
    · intro hwritable
      rw [raised_of_writable_number hn hwritable]
    · intro hlong
      rw [raised_of_long_number _ hlong]
  · rw [← Extreme.selectAll_ascending hne]
    exact Action.applyAll_keeping hkind hvalues hsize

/-- The best three of four numbers and then the worst two of them are those in the middle; four of
three cannot be had. -/
theorem keeps_leave_window_of_four :
    Extreme.selectAll [(.best, 3), (.worst, 2)] [5, 1, 5, 2] = .ok [2, 5] ∧
      Extreme.selectAll [(.best, 3), (.worst, 4)] [5, 1, 5, 2] =
        .error (.badSelection (.tooMany 4 3)) := by
  have hsorted : ascending [5, 1, 5, 2] = [1, 2, 5, 5] :=
    (eq_ascending (by decide) (by decide)).symm
  have hthree : (Window.whole 4).Admits [(.best, 3)] := ⟨⟨by decide, by decide⟩, trivial⟩
  have hfits : (Window.whole 4).Admits [(.best, 3), (.worst, 2)] :=
    ⟨⟨by decide, by decide⟩, ⟨by decide, by decide⟩, trivial⟩
  have hmany : ¬Selectable 4 ((Window.whole 4).through [(.best, 3)]).size := fun h ↦
    absurd h.2 (by decide)
  obtain ⟨hkept, -⟩ := keeps_leave_window (List.cons_ne_nil (.best, 3) [(.worst, 2)]) [5, 1, 5, 2]
  obtain ⟨-, hrefused, -⟩ :=
    keeps_leave_window (List.cons_ne_nil (.best, 3) [(.worst, 4)]) [5, 1, 5, 2]
  constructor
  · rw [hkept hfits, hsorted]
    rfl
  · exact (hrefused [(.best, 3)] .worst 4 [] rfl hthree hmany).1 (by decide)

/-- So many that the number cannot be written are too many, but the chain does not break with a
failure that says so. -/
theorem keep_fails_of_long_number :
    ¬(Window.whole 2).Admits [(.worst, (Nat.pow 10 digitLimit : Nat))] ∧
      ∀ fault, Extreme.selectAll [(.worst, (Nat.pow 10 digitLimit : Nat))] [1, 2] ≠
        .error (.badSelection fault) := by
  refine ⟨fun h ↦ not_writable_pow (h.1.writable (by decide)), fun fault h ↦ ?_⟩
  rw [Extreme.selectAll_cons, Extreme.select_of_long_number .worst not_writable_pow (by decide)] at h
  cases h

end TabletopDice
