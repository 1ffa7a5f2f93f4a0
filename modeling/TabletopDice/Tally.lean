import TabletopDice.Rolling.Apply

/-!
# Totals and counts

Two operations look at all results of a session at once: a total adds up every number, a count
gives one result for each distinct value.
-/

namespace TabletopDice.Rolls

/-- The description of a result with its sub-total. -/
def subtotalText (r : Rolls) (subtotal : Int) : Text :=
  r.description ++ ": ".toList ++ numeral subtotal

/-- The sub-totals of the results, in order. -/
def subtotals (results : List Rolls) : Except Failure (List Int) :=
  results.mapM fun r ↦ sumOf <$> calculable r.values

/-- The sum of all results.  The description lists what each of them contributes. -/
def sumUp (results : List Rolls) : Except Failure Rolls := do
  let sums ← subtotals results
  checkWritable sums
  let detail := ", ".toList.intercalate (results.zipWith subtotalText sums)
  return aggregate ("TOTAL (".toList ++ detail ++ [')']) (sumOf sums)

/-- Adds up the numbers of all results, which must be numeric. -/
def total (results : List Rolls) : Except Failure Rolls :=
  match results.find? fun r ↦ r.kind ≠ .numeric with
  | some r => .error (Failure.incompatible (.action .total) r.kind .notNumeric).raised
  | none =>
      if results.isEmpty then .ok (aggregate "TOTAL (no dice to total)".toList 0)
      else sumUp results

/-- The distinct values by score, those of equal score in the order in which they first appear. -/
def distinctValues (results : List Rolls) : List Value :=
  (results.flatMap values).eraseDups.mergeSort fun v w ↦ decide (v.score ≤ w.score)

/-- The group of a value: how often it occurs, labelled with the value. -/
def groupOf (values : List Value) (v : Value) : Rolls :=
  aggregate ("COUNT(".toList ++ v.word ++ [')']) (values.count v)

/-- The groups of the distinct values. -/
def counts (results : List Rolls) : List Rolls :=
  (distinctValues results).map (groupOf (results.flatMap values))

/-- The counts of the values, all of whose labels must be writable. -/
def count (results : List Rolls) : Except Failure (List Rolls) := do
  checkWritable ((distinctValues results).flatMap Value.numbers)
  return counts results

end TabletopDice.Rolls
