import Mathlib.Algebra.BigOperators.Ring.List
import Mathlib.Algebra.Ring.Int.Defs
import Mathlib.Data.List.Induction
import TabletopDice.Proofs.Rolling.Application
import TabletopDice.Proofs.Text.Items

/-!
# Sums and multiples

Sums and multiplications commute with each other: whatever the order, rolled numbers come to their
sum times the product of the factors.  Such actions take no draws, and nothing but a factor that is
too long to be written stands in their way.
-/

namespace TabletopDice

/-! ## Results that must be written -/

namespace Rolling

variable {α β : Type} {a : α} {numbers others : List Int}

/-- A result that stands only if these numbers can be written. -/
def ifWritable (numbers : List Int) (a : α) : Rolling α :=
  if ∀ n ∈ numbers, Writable n then pure a else throw (.numberTooLong none)

theorem ifWritable_nil (a : α) : ifWritable [] a = pure a := if_pos (by simp)

theorem ifWritable_congr (h : ∀ n, n ∈ numbers ↔ n ∈ others) (a : α) :
    ifWritable numbers a = ifWritable others a := by
  simp only [ifWritable, h]

theorem ifWritable_bind (numbers : List Int) (a : α) (next : α → Rolling β) :
    ifWritable numbers a >>= next =
      if ∀ n ∈ numbers, Writable n then next a else throw (.numberTooLong none) := by
  unfold ifWritable
  split <;> rfl

theorem bind_eq_ifWritable {roll : Rolling α} {next : α → Rolling β} {b : β}
    (hroll : roll = ifWritable numbers a) (hnext : next a = ifWritable others b) :
    roll >>= next = ifWritable (numbers ++ others) b := by
  rw [hroll, ifWritable_bind, hnext]
  simp only [ifWritable, List.forall_mem_append, ite_and]

theorem map_ifWritable (f : α → β) (numbers : List Int) (a : α) :
    f <$> ifWritable numbers a = ifWritable numbers (f a) := by
  unfold ifWritable
  split <;> rfl

theorem mapM_eq_ifWritable {roll : α → Rolling β} {written : α → List Int} {value : α → β}
    {l : List α} (h : ∀ a ∈ l, roll a = ifWritable (written a) (value a)) :
    l.mapM roll = ifWritable (l.flatMap written) (l.map value) := by
  induction l with
  | nil => exact (ifWritable_nil _).symm
  | cons a rest ih =>
      have hrest := ih fun b hb ↦ h b (List.mem_cons_of_mem a hb)
      rw [List.mapM_cons, List.flatMap_cons]
      refine bind_eq_ifWritable (h a List.mem_cons_self) ?_
      rw [hrest, bind_pure_comp, map_ifWritable, List.map_cons]

end Rolling

/-! ## Linear actions -/

namespace Action

variable {a : Action} {actions : List Action} {numbers : List Int}

/-- The actions that add up numbers or multiply them. -/
def isLinear : Action → Bool
  | multiply _ | sum | total => true
  | _ => false

/-- What the action multiplies the sum of the numbers by. -/
def factor : Action → Int
  | multiply n => n
  | _ => 1

def combine : Action → List Int → List Int
  | multiply n, numbers => multiplyAll n numbers
  | _, numbers => [sumOf numbers]

def product (actions : List Action) : Int := (actions.map factor).prod

theorem product_nil : product [] = 1 := List.prod_nil

theorem product_cons (a : Action) (actions : List Action) :
    product (a :: actions) = a.factor * product actions :=
  List.prod_cons

theorem product_append (actions others : List Action) :
    product (actions ++ others) = product actions * product others := by
  rw [product, List.map_append, List.prod_append, product, product]

theorem sumOf_combine (a : Action) (numbers : List Int) :
    sumOf (a.combine numbers) = a.factor * sumOf numbers := by
  have hsum : sumOf [sumOf numbers] = 1 * sumOf numbers := (add_zero _).trans (one_mul _).symm
  cases a with
  | multiply n =>
      have hmul := List.sum_map_mul_right numbers id n
      rw [List.map_id] at hmul
      exact hmul.trans (mul_comm _ _)
  | _ => exact hsum

theorem kind_of_isLinear (h : a.isLinear) : a.kind = .numeric := by
  cases a <;> first | rfl | cases h

theorem transform_of_isLinear {r : Rolls} (h : a.isLinear)
    (hnumbers : calculable r.values = .ok numbers) :
    a.transform r = pure ((a.combine numbers).map .number) := by
  cases a with
  | multiply n => simp only [transform, hnumbers]; rfl
  | sum => simp only [transform, hnumbers]; rfl
  | total => simp only [transform, hnumbers]; rfl
  | _ => cases h

end Action

/-! ## Numeric rolls -/

namespace Rolls

variable {r : Rolls} {a : Action} {actions : List Action}

structure IsNumeric (r : Rolls) : Prop where
  kind_eq : r.kind = .numeric
  values_eq : r.values = r.numbers.map .number

theorem numbers_of_values {numbers : List Int} (h : r.values = numbers.map .number) :
    r.numbers = numbers := by
  rw [Rolls.numbers, h, List.flatMap_map]
  exact List.flatMap_singleton' numbers

theorem Consistent.isNumeric (h : r.Consistent) (hkind : r.kind = .numeric) : r.IsNumeric := by
  obtain ⟨numbers, hvalues⟩ := exists_eq_map_number fun v hv ↦ (h.values_kind v hv).trans hkind
  exact ⟨hkind, by rw [numbers_of_values hvalues, hvalues]⟩

theorem IsNumeric.calculable_eq (h : r.IsNumeric) : calculable r.values = .ok r.numbers := by
  rw [h.values_eq, calculable_map]

def combined (r : Rolls) (a : Action) : Rolls :=
  { r with
    description := r.description ++ ' ' :: a.text
    values := (a.combine r.numbers).map .number }

theorem numbers_combined (r : Rolls) (a : Action) : (r.combined a).numbers = a.combine r.numbers :=
  numbers_of_values rfl

theorem IsNumeric.combined (h : r.IsNumeric) (a : Action) : (r.combined a).IsNumeric :=
  ⟨h.kind_eq, by rw [numbers_combined]; rfl⟩

theorem apply_linear (h : r.IsNumeric) (ha : a.isLinear) :
    a.apply r = Rolling.ifWritable a.numbers (r.combined a) := by
  rw [Action.apply_of_kind_eq ((Action.kind_of_isLinear ha).trans h.kind_eq.symm),
    Action.transform_of_isLinear ha h.calculable_eq, pure_bind, checkWritable, Rolling.ifWritable]
  split <;> rfl

theorem IsNumeric.foldl_combined (h : r.IsNumeric) (actions : List Action) :
    (actions.foldl Rolls.combined r).IsNumeric := by
  induction actions generalizing r with
  | nil => exact h
  | cons a rest ih => exact ih (h.combined a)

theorem applyAll_linear (h : r.IsNumeric) (hactions : ∀ a ∈ actions, a.isLinear) :
    Action.applyAll actions r =
      Rolling.ifWritable (actions.flatMap Action.numbers) (actions.foldl combined r) := by
  induction actions generalizing r with
  | nil => exact (Rolling.ifWritable_nil r).symm
  | cons a rest ih =>
      rw [Action.applyAll, List.foldlM_cons, List.flatMap_cons, List.foldl_cons]
      refine Rolling.bind_eq_ifWritable (apply_linear h (hactions a List.mem_cons_self)) ?_
      exact ih (h.combined a) fun b hb ↦ hactions b (List.mem_cons_of_mem a hb)

theorem description_foldl_combined (actions : List Action) (r : Rolls) :
    (actions.foldl combined r).description =
      [' '].intercalate (r.description :: actions.map Action.text) := by
  induction actions using List.reverseRecOn with
  | nil => simp
  | append_singleton rest a ih =>
      rw [List.foldl_append, List.map_append, List.map_singleton, ← List.cons_append,
        intercalate_append _ (List.cons_ne_nil _ _) (List.cons_ne_nil _ _), ← ih]
      simp [combined]

/-- Sums make no difference to the sum, and each factor is a factor of it. -/
theorem sumOf_foldl_combined (actions : List Action) (r : Rolls) :
    sumOf (actions.foldl combined r).numbers = Action.product actions * sumOf r.numbers := by
  induction actions generalizing r with
  | nil => exact (one_mul _).symm
  | cons a rest ih =>
      calc sumOf (rest.foldl combined (r.combined a)).numbers
          = Action.product rest * sumOf (r.combined a).numbers := ih (r.combined a)
        _ = Action.product rest * (a.factor * sumOf r.numbers) := by
            rw [numbers_combined, Action.sumOf_combine]
        _ = Action.product (a :: rest) * sumOf r.numbers := by
            rw [Action.product_cons, ← mul_assoc, mul_comm a.factor]

end Rolls
end TabletopDice
