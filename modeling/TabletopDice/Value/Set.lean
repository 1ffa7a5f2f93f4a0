import TabletopDice.Value.Basic

/-!
# Sets of values

The triggers of rerolls and explosions.  A set is kept as its members in strictly ascending rank,
so equal sets are equal lists, and the order is the one in which they are written.
-/

namespace TabletopDice

structure ValueSet where
  toList : List Value
  ascending : toList.Pairwise fun v w ↦ v.rank < w.rank
  deriving DecidableEq

namespace ValueSet

/-- Puts a value at its place in an ascending list, unless it is already there. -/
def place (v : Value) : List Value → List Value
  | [] => [v]
  | w :: rest =>
      if v.rank < w.rank then v :: w :: rest
      else if v = w then w :: rest
      else w :: place v rest

theorem mem_place {u v : Value} {l : List Value} : u ∈ place v l ↔ u = v ∨ u ∈ l := by
  induction l with
  | nil => simp [place]
  | cons w rest ih =>
      simp only [place]
      split
      · simp
      · split
        · next h => simp [h]
        · simp [ih, or_left_comm]

theorem place_ascending {v : Value} {l : List Value}
    (h : l.Pairwise fun v w ↦ v.rank < w.rank) :
    (place v l).Pairwise fun v w ↦ v.rank < w.rank := by
  induction l with
  | nil => simp [place]
  | cons w rest ih =>
      obtain ⟨hw, hrest⟩ := List.pairwise_cons.1 h
      simp only [place]
      split
      · next hlt =>
          refine List.pairwise_cons.2 ⟨fun u hu ↦ ?_, h⟩
          rcases List.mem_cons.1 hu with rfl | hu
          · exact hlt
          · exact Int.lt_trans hlt (hw u hu)
      · next hle =>
          split
          · exact h
          · next hne =>
              refine List.pairwise_cons.2 ⟨fun u hu ↦ ?_, ih hrest⟩
              rcases mem_place.1 hu with rfl | hu
              · have : w.rank ≠ u.rank := fun e ↦ hne (Value.rank_injective e).symm
                omega
              · exact hw u hu

def empty : ValueSet := ⟨[], List.Pairwise.nil⟩

def insert (v : Value) (s : ValueSet) : ValueSet :=
  ⟨place v s.toList, place_ascending s.ascending⟩

def ofList (values : List Value) : ValueSet := values.foldr insert empty

instance : Membership Value ValueSet := ⟨fun s v ↦ v ∈ s.toList⟩

instance (v : Value) (s : ValueSet) : Decidable (v ∈ s) :=
  inferInstanceAs (Decidable (v ∈ s.toList))

theorem mem_iff {v : Value} {s : ValueSet} : v ∈ s ↔ v ∈ s.toList := Iff.rfl

@[simp] theorem mem_ofList {v : Value} {l : List Value} : v ∈ ofList l ↔ v ∈ l := by
  induction l with
  | nil => simp [ofList, empty, mem_iff]
  | cons w rest ih =>
      simp only [ofList, List.foldr_cons, insert, mem_iff, mem_place, List.mem_cons]
      rw [← mem_iff (s := rest.foldr insert empty)]
      exact or_congr Iff.rfl ih

theorem nodup (s : ValueSet) : s.toList.Nodup := by
  refine List.nodup_iff_pairwise_ne.2 (s.ascending.imp ?_)
  rintro v w hlt rfl
  exact Int.lt_irrefl _ hlt

/-- Sets with the same members are equal, and so are their lists. -/
theorem eq_of_mem_iff {s t : ValueSet} (h : ∀ v, v ∈ s ↔ v ∈ t) : s = t := by
  have hperm := (List.perm_ext_iff_of_nodup s.nodup t.nodup).2 h
  have hlist : s.toList = t.toList :=
    hperm.eq_of_pairwise (fun _ _ _ _ hvw hwv ↦ (Int.lt_asymm hvw hwv).elim) s.ascending
      t.ascending
  cases s
  cases t
  cases hlist
  rfl

/-- How many of the values are in the set. -/
def countIn (s : ValueSet) (values : List Value) : Nat := values.countP (· ∈ s)

/-- The members as they are written between the parentheses of an action.  Only the score of a member
has a meaning for the order, and where a number and a face score the same nothing decides between
them; here the number comes first. -/
def text (s : ValueSet) : Text := [','].intercalate (s.toList.map Value.word)

def numbers (s : ValueSet) : List Int := s.toList.flatMap Value.numbers

end ValueSet
end TabletopDice
