import Mathlib.LinearAlgebra.Matrix.ToLinearEquiv
import MarkovCheck.Matrix.InPlace
import MarkovCheck.Proofs.Matrix.Elimination
import MarkovCheck.Proofs.Matrix.Power
import MarkovCheck.Proofs.Outcome

/-!
# Elimination in place is sound

Elimination in one table follows the elimination of equations: at each column, the rows from the
diagonal down spell the equations that are left, and the rows above are not touched again. What lies
below the diagonal is stale, so a row is said to spell an equation only from a column on. Each loop
has a statement of what the table holds after some of its steps, and a lemma for one step; that the
step succeeds is part of the lemma, so no access leaves the table and no divisor is zero.

* `Tableau.SameRow`, `Tableau.Spells`: what a row holds
* `Tableau.Exchanged`, `Tableau.Subtracted`, `Tableau.Eliminated`: the loops within a column
* `Tableau.Triangular`, `Tableau.foldlM_eliminateColumn`: the way down
* `Tableau.Triangular.foldlM_substitute`: the way up
* `Matrix.solveInPlace_eq`: the two eliminations give the same answers, over rationals and doubles
* `Matrix.solve_sound`: an answer is the only solution
-/

open scoped Matrix

namespace MarkovCheck

namespace Tableau

variable {α : Type} [Scalar α] {n : Nat} {t t' : Tableau α}

/-! ## Checked accesses -/

theorem read_eq_ok {v : Array α} {i : Nat} (inside : i < v.size) :
    read v i = .ok (v.getD i 0) := by
  simp [read, inside]

omit [Scalar α] in
theorem write_eq_ok {v : Array α} {i : Nat} (inside : i < v.size) (a : α) :
    write v i a = .ok (v.setIfInBounds i a) := if_pos inside

theorem divide_eq_ok {b : α} (regular : Scalar.isZero b = false) (a : α) :
    divide a b = .ok (a / b) := by
  simp [divide, regular]

theorem getD_setIfInBounds {v : Array α} {i : Nat} (inside : i < v.size) (a : α) (k : Nat) :
    (v.setIfInBounds i a).getD k 0 = if i = k then a else v.getD k 0 := by
  simp only [Array.getD_eq_getD_getElem?]
  by_cases same : i = k
  · subst same
    simp [inside]
  · simp [Array.getElem?_setIfInBounds_ne same, same]

/-- The table has `n` rows and columns, beside `n` right sides. -/
structure Shaped (t : Tableau α) (n : Nat) : Prop where
  rows : t.coeffs.rows = n
  cols : t.coeffs.cols = n
  size : t.rhs.size = n

/-! ## Rows -/

/-- Row `i'` of `t'` is row `i` of `t`. -/
structure SameRow (n : Nat) (t : Tableau α) (i : Nat) (t' : Tableau α) (i' : Nat) : Prop where
  coeff : ∀ j < n, t'.coeffs.entry i' j = t.coeffs.entry i j
  rhs : t'.rhs.getD i' 0 = t.rhs.getD i 0

theorem sameRow_refl (n : Nat) (t : Tableau α) (i : Nat) : SameRow n t i t i :=
  ⟨fun _ _ => rfl, rfl⟩

theorem SameRow.trans {t'' : Tableau α} {i i' i'' : Nat} (first : SameRow n t i t' i')
    (second : SameRow n t' i' t'' i'') : SameRow n t i t'' i'' :=
  ⟨fun j inside => (second.coeff j inside).trans (first.coeff j inside),
    second.rhs.trans first.rhs⟩

/-- From a column on, a row holds the coefficients of an equation and its right side. -/
structure Spells (t : Tableau α) (i col : Nat) {m : Nat} (e : Equation α m) : Prop where
  coeff : ∀ j : Fin m, t.coeffs.entry i (col + j) = getElem e.coeffs j j.isLt
  rhs : t.rhs.getD i 0 = e.rhs

theorem Spells.sameRow {i i' col m : Nat} {e : Equation α m} (spells : t.Spells i col e)
    (same : SameRow n t i t' i') (fits : col + m ≤ n) : t'.Spells i' col e :=
  ⟨fun j => (same.coeff (col + j) (by omega)).trans (spells.coeff j), same.rhs.trans spells.rhs⟩

theorem add_succ_val (col : Nat) {m : Nat} (k : Fin m) : col + k.succ.val = col + 1 + k.val := by
  simp only [Fin.val_succ]
  omega

/-- The places after the diagonal are numbered by the unknowns that are left. -/
theorem exists_below {col m i : Nat} (below : col < i) (inside : i < col + (m + 1)) :
    ∃ k : Fin m, i = col + 1 + k := by
  refine ⟨⟨i - (col + 1), by omega⟩, ?_⟩
  simp only
  omega

theorem Spells.coeff_succ {i col m : Nat} {e : Equation α (m + 1)} (spells : t.Spells i col e)
    (j : Fin m) : t.coeffs.entry i (col + 1 + j) = getElem e.coeffs j.succ j.succ.isLt :=
  add_succ_val col j ▸ spells.coeff j.succ

theorem Spells.lead {i col m : Nat} {e : Equation α (m + 1)} (spells : t.Spells i col e) :
    t.coeffs.entry i col = e.lead := spells.coeff 0

/-! ## Exchanging rows -/

theorem exchangeAt_eq_ok {a : Matrix α} {p q j : Nat} (upper : p < a.rows) (lower : q < a.rows)
    (inside : j < a.cols) : exchangeAt p q a j =
      .ok ((a.put p j (a.entry q j)).put q j (a.entry p j)) := by
  have first := a.set_eq_ok upper inside (a.entry q j)
  have second := (a.put p j (a.entry q j)).set_eq_ok (i := q) lower inside (a.entry p j)
  simp only [exchangeAt, a.get_eq_ok upper inside, a.get_eq_ok lower inside, first, second,
    Outcome.ok_bind]

/-- The row that comes to a place when two rows are exchanged. -/
def exchanged (p q i : Nat) : Nat := if i = p then q else if i = q then p else i

/-- In the columns before `k` two rows of a table are exchanged. -/
structure Exchanged (n p q : Nat) (a : Matrix α) (k : Nat) (a' : Matrix α) : Prop where
  rows : a'.rows = n
  cols : a'.cols = n
  entry : ∀ i < n, ∀ j < n, a'.entry i j = a.entry (if j < k then exchanged p q i else i) j

theorem Exchanged.step {a a' : Matrix α} {p q k : Nat} (before : Exchanged n p q a k a')
    (upper : p < n) (lower : q < n) (inside : k < n) :
    ∃ a'', exchangeAt p q a' k = .ok a'' ∧ Exchanged n p q a (k + 1) a'' := by
  obtain ⟨rows, cols, entry⟩ := before
  subst rows
  have inside' : k < a'.cols := cols ▸ inside
  refine ⟨_, exchangeAt_eq_ok upper lower inside', rfl, cols, ?_⟩
  intro i row j col
  have col' : j < a'.cols := cols ▸ col
  have second := (a'.put p k (a'.entry q k)).entry_put (s := q) lower inside' (a'.entry p k) i col'
  rw [second, a'.entry_put upper inside' _ i col', entry p upper k inside, entry q lower k inside,
    entry i row j col]
  simp only [exchanged]
  grind

theorem exchangeRows_eq_ok (shaped : t.Shaped n) {p q : Nat} (upper : p < n) (lower : q < n) :
    ∃ t', t.exchangeRows n p q = .ok t' ∧ t'.Shaped n ∧
      ∀ i < n, SameRow n t (exchanged p q i) t' i := by
  have start : Exchanged n p q t.coeffs 0 t.coeffs := by
    refine ⟨shaped.rows, shaped.cols, ?_⟩
    simp
  obtain ⟨coeffs, looped, rows, cols, entry⟩ := Outcome.foldlM_range'_eq_ok n start
    fun k _ inside a' before => before.step upper lower (by omega)
  rw [← List.range_eq_range'] at looped
  obtain rfl := shaped.size
  let moved := t.rhs.setIfInBounds p (t.rhs.getD q 0)
  have lower' : q < moved.size := by simpa [moved] using lower
  refine ⟨⟨coeffs, moved.setIfInBounds q (t.rhs.getD p 0)⟩, ?_, ⟨rows, cols, by simp [moved]⟩, ?_⟩
  · simp only [exchangeRows, looped, read_eq_ok upper, read_eq_ok lower, write_eq_ok upper,
      Outcome.ok_bind]
    rw [write_eq_ok lower']
    rfl
  · intro i row
    constructor
    · intro j col
      simpa [col] using entry i row j col
    · simp only [getD_setIfInBounds lower', moved, getD_setIfInBounds upper, exchanged]
      grind

/-! ## Subtracting a multiple of a row -/

theorem subtractAt_eq_ok {a : Matrix α} {col row j : Nat} (factor : α) (upper : col < a.rows)
    (lower : row < a.rows) (inside : j < a.cols) : subtractAt col row factor a j =
      .ok (a.put row j (a.entry row j - factor * a.entry col j)) := by
  simp only [subtractAt, a.get_eq_ok upper inside, a.get_eq_ok lower inside, Outcome.ok_bind]
  exact a.set_eq_ok lower inside _

/-- From the diagonal to the columns before `k`, a multiple of the row on the diagonal is subtracted
from a row. -/
structure Subtracted (n col row : Nat) (factor : α) (a : Matrix α) (k : Nat) (a' : Matrix α) :
    Prop where
  rows : a'.rows = n
  cols : a'.cols = n
  entry : ∀ i < n, ∀ j < n, a'.entry i j = if i = row ∧ col ≤ j ∧ j < k
    then a.entry row j - factor * a.entry col j else a.entry i j

theorem Subtracted.step {a a' : Matrix α} {col row k : Nat} {factor : α}
    (before : Subtracted n col row factor a k a') (below : col < row) (lower : row < n)
    (passed : col ≤ k) (inside : k < n) :
    ∃ a'', subtractAt col row factor a' k = .ok a'' ∧
      Subtracted n col row factor a (k + 1) a'' := by
  obtain ⟨rows, cols, entry⟩ := before
  subst rows
  refine ⟨_, subtractAt_eq_ok factor (below.trans lower) lower (cols ▸ inside), rfl, cols, ?_⟩
  intro i above j left
  rw [Matrix.entry_put _ lower (cols ▸ inside) _ _ (cols ▸ left), entry row lower k inside,
    entry col (below.trans lower) k inside, entry i above j left]
  grind

theorem eliminateRow_eq_ok (shaped : t.Shaped n) {col row m : Nat} (fits : col + (m + 1) = n)
    (below : col < row) (lower : row < n) {top e : Equation α (m + 1)}
    (regular : Scalar.isZero top.lead = false) (diagonal : t.Spells col col top)
    (spells : t.Spells row col e) : ∃ t', eliminateRow n col top.lead t row = .ok t' ∧
      t'.Shaped n ∧ (∀ i < n, i ≠ row → SameRow n t i t' i) ∧
      t'.Spells row (col + 1) (Equation.eliminate top e) := by
  obtain ⟨rows, cols, size⟩ := shaped
  have lead : t.coeffs.get row col = .ok e.lead := by
    rw [t.coeffs.get_eq_ok (by omega) (by omega), spells.lead]
  simp only [eliminateRow, lead, divide_eq_ok regular, Outcome.ok_bind]
  by_cases zero : Scalar.isZero (e.lead / top.lead) = true
  · -- Nothing is subtracted, in the table and in the equation.
    refine ⟨t, if_pos zero, ⟨rows, cols, size⟩, fun i _ _ => sameRow_refl n t i, ?_⟩
    simp only [Equation.eliminate, if_pos zero]
    refine ⟨?_, spells.rhs⟩
    intro j
    rw [spells.coeff_succ]
    simp [Nat.add_comm 1]
  · have start : Subtracted n col row (e.lead / top.lead) t.coeffs col t.coeffs := by
      refine ⟨rows, cols, ?_⟩
      intro i _ j _
      rw [if_neg (by omega)]
    obtain ⟨coeffs, looped, rows', cols', entry⟩ := Outcome.foldlM_range'_eq_ok (n - col)
      start fun k passed inside a' before => before.step below lower passed (by omega)
    refine ⟨⟨coeffs, t.rhs.setIfInBounds row (e.rhs - e.lead / top.lead * top.rhs)⟩, ?_,
      ⟨rows', cols', by simp [size]⟩, ?_, ?_⟩
    · simp only [zero, looped, read_eq_ok (size ▸ lower), read_eq_ok (size ▸ below.trans lower),
        write_eq_ok (size ▸ lower), diagonal.rhs, spells.rhs, Outcome.ok_bind]
      rfl
    · intro i inside other
      constructor
      · intro j left
        rw [entry i inside j left, if_neg fun here => other here.1]
      · rw [getD_setIfInBounds (size ▸ lower), if_neg (Ne.symm other)]
    · simp only [Equation.eliminate, if_neg zero]
      constructor
      · intro j
        rw [entry row lower _ (by omega), if_pos (by omega), diagonal.coeff_succ, spells.coeff_succ]
        simp
      · rw [getD_setIfInBounds (size ▸ lower), if_pos rfl]

/-! ## One column -/

/-- The table after the rows before `row` were eliminated: the rows down to the diagonal are those
of `t`, the next ones hold the equations without their first unknown, the others still have it. -/
structure Eliminated (n col : Nat) {m : Nat} (top : Equation α (m + 1))
    (others : Fin m → Equation α (m + 1)) (t : Tableau α) (row : Nat) (t' : Tableau α) : Prop where
  shaped : t'.Shaped n
  above : ∀ i ≤ col, SameRow n t i t' i
  done : ∀ k : Fin m, col + 1 + k < row →
    t'.Spells (col + 1 + k) (col + 1) (Equation.eliminate top (others k))
  waiting : ∀ k : Fin m, row ≤ col + 1 + k → t'.Spells (col + 1 + k) col (others k)

theorem Eliminated.step {col m row : Nat} {top : Equation α (m + 1)}
    {others : Fin m → Equation α (m + 1)} (before : Eliminated n col top others t row t')
    (fits : col + (m + 1) = n) (regular : Scalar.isZero top.lead = false)
    (diagonal : t.Spells col col top) (below : col < row) (lower : row < n) :
    ∃ t'', eliminateRow n col top.lead t' row = .ok t'' ∧
      Eliminated n col top others t (row + 1) t'' := by
  obtain ⟨k, rfl⟩ := exists_below (m := m) below (by omega)
  have diagonal' := diagonal.sameRow (before.above col (Nat.le_refl col)) (by omega)
  obtain ⟨t'', eliminated, shaped, same, spells⟩ := eliminateRow_eq_ok before.shaped fits below
    lower regular diagonal' (before.waiting k (Nat.le_refl _))
  refine ⟨t'', eliminated, shaped, ?_, ?_, ?_⟩
  · intro i high
    exact (before.above i high).trans (same i (by omega) (by omega))
  · intro l early
    by_cases here : l = k
    · subst here
      exact spells
    · have earlier : col + 1 + l.val < col + 1 + k.val := by omega
      exact (before.done l earlier).sameRow (same _ (by omega) (by omega)) (by omega)
  · intro l late
    exact (before.waiting l (by omega)).sameRow (same _ (by omega) (by omega)) (by omega)

omit [Scalar α] in
theorem get_swap {m : Nat} (es : Vector (Equation α (m + 1)) (m + 1)) (p k : Fin (m + 1)) :
    (es.swap 0 p m.succ_pos p.isLt).get k =
      if k.val = 0 then es.get p else if k.val = p.val then es.get 0 else es.get k :=
  Vector.getElem_swap ..

omit [Scalar α] in
theorem get_swap_zero {m : Nat} (es : Vector (Equation α (m + 1)) (m + 1)) (p : Fin (m + 1)) :
    (es.swap 0 p m.succ_pos p.isLt).get 0 = es.get p := by
  rw [get_swap, if_pos (Fin.val_zero _)]

section Column

variable {col m : Nat} {es : Vector (Equation α (m + 1)) (m + 1)} (shaped : t.Shaped n)
  (fits : col + (m + 1) = n) (spells : ∀ k : Fin (m + 1), t.Spells (col + k) col (es.get k))
include shaped fits spells

theorem largerRow_eq_ok (best : Fin (m + 1)) (i : Fin m) :
    largerRow t.coeffs col (col + best) (col + 1 + i) = .ok (col + Fin.val
      (if Scalar.magnitudeLe (es.get best).lead (es.get i.succ).lead then i.succ else best)) := by
  obtain ⟨rows, cols, _⟩ := shaped
  have next := (spells i.succ).lead
  rw [add_succ_val] at next
  simp only [largerRow, t.coeffs.get_eq_ok (i := col + best) (j := col) (by omega) (by omega),
    t.coeffs.get_eq_ok (i := col + 1 + i) (j := col) (by omega) (by omega), (spells best).lead,
    next, Outcome.ok_bind]
  split
  · exact congrArg Except.ok (add_succ_val col i).symm
  · rfl

/-- The search in the column finds the pivot. -/
theorem pivotRow_eq_ok : pivotRow n t.coeffs col = .ok (col + (Equation.pivot es).val) := by
  let choose (best : Fin (m + 1)) (i : Fin m) : Fin (m + 1) :=
    if Scalar.magnitudeLe (es.get best).lead (es.get i.succ).lead then i.succ else best
  have loop (rows : List (Fin m)) (best : Fin (m + 1)) :
      rows.foldlM (fun best i => largerRow t.coeffs col best (col + 1 + i.val)) (col + best.val) =
        .ok (col + (rows.foldl choose best).val) := by
    induction rows generalizing best with
    | nil => rfl
    | cons i rows inductionHypothesis =>
      rw [List.foldlM_cons, largerRow_eq_ok shaped fits spells best i]
      exact inductionHypothesis (choose best i)
  have numbers : List.range' (col + 1) (n - (col + 1)) =
      (List.finRange m).map fun i => col + 1 + i.val := by
    have count : n - (col + 1) = m := by omega
    rw [count, List.range'_eq_map_range, ← List.map_coe_finRange_eq_range, List.map_map]
    rfl
  rw [pivotRow, numbers, List.foldlM_map, Equation.pivot, Fin.foldl_eq_finRange_foldl]
  exact loop (List.finRange m) 0

/-- Raising a row of the table to the diagonal exchanges the equations. -/
theorem raiseRow_eq_ok (p : Fin (m + 1)) : ∃ t', t.raiseRow n col (col + p) = .ok t' ∧
    t'.Shaped n ∧ (∀ i < col, SameRow n t i t' i) ∧
    ∀ k : Fin (m + 1), t'.Spells (col + k) col ((es.swap 0 p).get k) := by
  by_cases first : p.val = 0
  · refine ⟨t, by simp [raiseRow, first], shaped, fun i _ => sameRow_refl n t i, ?_⟩
    intro k
    have same : (es.swap 0 p).get k = es.get k := by
      rw [get_swap]
      grind
    rw [same]
    exact spells k
  · obtain ⟨t', found, shaped', same⟩ :=
      exchangeRows_eq_ok shaped (p := col) (q := col + p) (by omega) (by omega)
    refine ⟨t', by simpa [raiseRow, first] using found, shaped', ?_, ?_⟩
    · intro i high
      have row := same i (by omega)
      rwa [exchanged, if_neg (by omega), if_neg (by omega)] at row
    · intro k
      have row := same (col + k) (by omega)
      rw [exchanged] at row
      rw [get_swap]
      split
      · next zero =>
        rw [if_pos (by omega)] at row
        exact (spells p).sameRow row (by omega)
      · next notZero =>
        rw [if_neg (by omega)] at row
        split
        · next here =>
          rw [if_pos (by omega)] at row
          exact (spells 0).sameRow row (by omega)
        · next elsewhere =>
          rw [if_neg (by omega)] at row
          exact (spells k).sameRow row (by omega)

theorem largest_eq_ok :
    t.coeffs.get (col + (Equation.pivot es).val) col = .ok (es.get (Equation.pivot es)).lead := by
  obtain ⟨rows, cols, _⟩ := shaped
  rw [t.coeffs.get_eq_ok (by omega) (by omega), (spells _).lead]

theorem eliminateColumn_singular
    (small : Scalar.abs (es.get (Equation.pivot es)).lead < Equation.pivotThreshold) :
    eliminateColumn n t col = .error .singular := by
  simp only [eliminateColumn, pivotRow_eq_ok shaped fits spells, largest_eq_ok shaped fits spells,
    Outcome.ok_bind, if_pos small]

/-- After a column the diagonal row holds the pivot, and the rows below the other equations without
their first unknown. -/
theorem eliminateColumn_eq_ok
    (large : ¬ Scalar.abs (es.get (Equation.pivot es)).lead < Equation.pivotThreshold)
    (regular : Scalar.isZero (es.get (Equation.pivot es)).lead = false) :
    let swapped := es.swap 0 (Equation.pivot es)
    ∃ t', eliminateColumn n t col = .ok t' ∧ t'.Shaped n ∧ (∀ i < col, SameRow n t i t' i) ∧
      t'.Spells col col (swapped.get 0) ∧ ∀ k : Fin m, t'.Spells (col + 1 + k) (col + 1)
        (Equation.eliminate (swapped.get 0) (swapped.get k.succ)) := by
  intro swapped
  have regular' : Scalar.isZero (swapped.get 0).lead = false := by
    rw [get_swap_zero]
    exact regular
  obtain ⟨t₁, raised, shaped₁, above, spells₁⟩ :=
    raiseRow_eq_ok shaped fits spells (Equation.pivot es)
  have diagonal : t₁.Spells col col (swapped.get 0) := spells₁ 0
  have lead : t₁.coeffs.get col col = .ok (swapped.get 0).lead := by
    obtain ⟨rows, cols, _⟩ := shaped₁
    rw [t₁.coeffs.get_eq_ok (by omega) (by omega), diagonal.lead]
  have start : Eliminated n col (swapped.get 0) (fun k => swapped.get k.succ) t₁ (col + 1) t₁ := by
    refine ⟨shaped₁, fun i _ => sameRow_refl n t₁ i, fun k early => by omega, fun k _ => ?_⟩
    have waiting := spells₁ k.succ
    rwa [add_succ_val] at waiting
  obtain ⟨t₂, looped, eliminated⟩ := Outcome.foldlM_range'_eq_ok (n - (col + 1)) start
    fun row below inside t' before => before.step fits regular' diagonal below (by omega)
  refine ⟨t₂, ?_, eliminated.shaped, ?_, ?_, ?_⟩
  · simp only [eliminateColumn, pivotRow_eq_ok shaped fits spells, largest_eq_ok shaped fits spells,
      Outcome.ok_bind, if_neg large, raised, lead, looped]
  · intro i high
    exact (above i high).trans (eliminated.above i (Nat.le_of_lt high))
  · exact diagonal.sameRow (eliminated.above col (Nat.le_refl col)) (by omega)
  · intro k
    exact eliminated.done k (by omega)

end Column

/-! ## All columns -/

/-- The rows from a place on the diagonal on hold equations, each in one unknown less than the one
before, and the values read off them from the last to the first are the given ones. -/
inductive Triangular (t : Tableau α) : (col : Nat) → {m : Nat} → Vector α m → Prop where
  | nil {col : Nat} {xs : Vector α 0} : Triangular t col xs
  | cons {col m : Nat} {top : Equation α (m + 1)} {xs : Vector α m}
      (spells : t.Spells col col top) (regular : Scalar.isZero top.lead = false)
      (rest : Triangular t (col + 1) xs) :
      Triangular t col ((#v[top.solveLead xs] ++ xs).cast (Nat.add_comm 1 m))

/-- No number that passes for a pivot is zero. -/
def RegularPivots (α : Type) [Scalar α] : Prop :=
  ∀ a : α, ¬ Scalar.abs a < Equation.pivotThreshold → Scalar.isZero a = false

/-- The elimination of all columns ends as that of the equations: it finds them singular, or it
makes the table triangular for their solution. -/
theorem foldlM_eliminateColumn (pivots : RegularPivots α) {m col : Nat}
    {es : Vector (Equation α m) m} (shaped : t.Shaped n) (fits : col + m = n)
    (spells : ∀ k : Fin m, t.Spells (col + k) col (es.get k)) :
    match Equation.solve m es with
    | none => (List.range' col m).foldlM (eliminateColumn n) t = .error .singular
    | some xs => ∃ t', (List.range' col m).foldlM (eliminateColumn n) t = .ok t' ∧ t'.Shaped n ∧
        (∀ i < col, SameRow n t i t' i) ∧ t'.Triangular col xs := by
  induction m generalizing col t with
  | zero => exact ⟨t, rfl, shaped, fun i _ => sameRow_refl n t i, .nil⟩
  | succ m inductionHypothesis =>
    rw [List.range'_succ, List.foldlM_cons]
    by_cases small : Scalar.abs (es.get (Equation.pivot es)).lead < Equation.pivotThreshold
    · have none : Equation.solve (m + 1) es = none := if_pos small
      rw [none, eliminateColumn_singular shaped fits spells small]
      rfl
    · obtain ⟨t₁, column, shaped₁, above, diagonal, below⟩ :=
        eliminateColumn_eq_ok shaped fits spells small (pivots _ small)
      let swapped := es.swap 0 (Equation.pivot es)
      let rest := Vector.ofFn fun i : Fin m =>
        Equation.eliminate (swapped.get 0) (swapped.get i.succ)
      have solved : Equation.solve (m + 1) es = match Equation.solve m rest with
        | none => none
        | some xs => some ((#v[(swapped.get 0).solveLead xs] ++ xs).cast (Nat.add_comm 1 m)) :=
        if_neg small
      have below' (k : Fin m) : t₁.Spells (col + 1 + k) (col + 1) (rest.get k) := by
        change t₁.Spells (col + 1 + k) (col + 1) (rest[k.val])
        simpa [rest] using below k
      have later := inductionHypothesis shaped₁ (by omega) below'
      rw [solved, column, Outcome.ok_bind]
      cases others : Equation.solve m rest with
      | none =>
        rw [others] at later
        exact later
      | some xs =>
        rw [others] at later
        obtain ⟨t₂, looped, shaped₂, same, triangular⟩ := later
        refine ⟨t₂, looped, shaped₂, ?_, .cons ?_ ?_ triangular⟩
        · intro i high
          exact (above i high).trans (same i (by omega))
        · exact diagonal.sameRow (same col (by omega)) (by omega)
        · rw [get_swap_zero]
          exact pivots _ small

/-! ## Back substitution -/

theorem addProduct_eq_ok (shaped : t.Shaped n) {x : Array α} (size : x.size = n) {row j : Nat}
    (inside : row < n) (inside' : j < n) (sum : α) :
    addProduct t.coeffs x row sum j = .ok (sum + t.coeffs.entry row j * x.getD j 0) := by
  obtain ⟨rows, cols, _⟩ := shaped
  simp only [addProduct, t.coeffs.get_eq_ok (rows ▸ inside) (cols ▸ inside'),
    read_eq_ok (size ▸ inside'), Outcome.ok_bind]
  rfl

theorem substitute_eq_ok (shaped : t.Shaped n) {col m : Nat} (fits : col + (m + 1) = n)
    {top : Equation α (m + 1)} (spells : t.Spells col col top)
    (regular : Scalar.isZero top.lead = false) {x : Array α} (size : x.size = n)
    (rhs : x.getD col 0 = top.rhs) {xs : Vector α m}
    (later : ∀ j : Fin m, x.getD (col + 1 + j) 0 = xs[j]) :
    substitute n t.coeffs x col = .ok (x.setIfInBounds col (top.solveLead xs)) := by
  let term (j : Nat) : α := top.coeffs.toArray.getD (j + 1) 0 * xs.toArray.getD j 0
  -- The sum runs over the columns after the diagonal, those of the solved unknowns.
  have step : ∀ i, col + 1 ≤ i → i < col + 1 + (n - (col + 1)) → ∀ sum,
      sum = Scalar.sumTo (i - (col + 1)) term → ∃ sum', addProduct t.coeffs x col sum i = .ok sum' ∧
        sum' = Scalar.sumTo (i + 1 - (col + 1)) term := by
    intro i passed inside sum before
    refine ⟨_, addProduct_eq_ok shaped size (by omega) (by omega) sum, ?_⟩
    obtain ⟨j, rfl⟩ := exists_below (m := m) passed (by omega)
    have steps : col + 1 + j.val + 1 - (col + 1) = col + 1 + j.val - (col + 1) + 1 := by omega
    rw [steps, Scalar.sumTo_succ, ← before, spells.coeff_succ, later j, Nat.add_sub_cancel_left]
    simp [term]
  obtain ⟨tail, looped, sum⟩ := Outcome.foldlM_range'_eq_ok _ (s := (0 : α)) (by simp) step
  have count : col + 1 + (n - (col + 1)) - (col + 1) = m := by omega
  rw [count] at sum
  obtain ⟨rows, cols, _⟩ := shaped
  simp only [substitute, looped, read_eq_ok (i := col) (v := x) (by omega), rhs,
    t.coeffs.get_eq_ok (i := col) (j := col) (by omega) (by omega), spells.lead,
    divide_eq_ok regular, Outcome.ok_bind]
  rw [write_eq_ok (by omega), sum]
  rfl

/-- Back substitution in a triangular table finds the values. -/
theorem Triangular.foldlM_substitute (shaped : t.Shaped n) {col m : Nat} {xs : Vector α m}
    (triangular : t.Triangular col xs) (fits : col + m = n) :
    ∃ x, (List.range' col m).reverse.foldlM (substitute n t.coeffs) t.rhs = .ok x ∧ x.size = n ∧
      (∀ i < col, x.getD i 0 = t.rhs.getD i 0) ∧ ∀ j : Fin m, x.getD (col + j) 0 = xs[j] := by
  induction triangular with
  | nil => exact ⟨t.rhs, rfl, shaped.size, fun _ _ => rfl, fun j => j.elim0⟩
  | @cons col m top xs spells regular rest inductionHypothesis =>
    obtain ⟨x, looped, size, before, later⟩ := inductionHypothesis (by omega)
    have rhs : x.getD col 0 = top.rhs := (before col (by omega)).trans spells.rhs
    have inside : col < x.size := by omega
    have found := substitute_eq_ok shaped fits spells regular size rhs later
    refine ⟨x.setIfInBounds col (top.solveLead xs), ?_, by simpa using size, ?_, ?_⟩
    · rw [List.range'_succ, List.reverse_cons, List.foldlM_append, looped, Outcome.ok_bind,
        List.foldlM_cons, found]
      rfl
    · intro i high
      rw [getD_setIfInBounds inside, if_neg (by omega)]
      exact before i (by omega)
    · intro j
      rw [getD_setIfInBounds inside]
      cases j using Fin.cases with
      | zero => simp
      | succ j =>
        rw [add_succ_val, later j, if_neg (by omega)]
        simp

/-! ## Pivots -/

theorem regularPivots_rat : RegularPivots ℚ := by
  intro a large
  rw [← Bool.not_eq_true, Scalar.isZero_iff]
  exact Equation.pivot_ne_zero large

open Float.Model

/-- A double equal to zero is one of the two zeros. -/
theorem unpack_of_isZero {a : Float} (zero : Scalar.isZero a = true) :
    ∃ sign, a.toModel.unpack = .zero sign := by
  have compared : (a.toModel.unpack.compare (.zero .positive) == some .eq) = true := zero
  rw [beq_iff_eq] at compared
  cases unpacked : a.toModel.unpack with
  | zero sign => exact ⟨sign, rfl⟩
  | notANumber =>
    rw [unpacked] at compared
    cases compared
  | infinity sign =>
    rw [unpacked] at compared
    cases sign <;> cases compared
  | finite sign m e _ =>
    rw [unpacked] at compared
    cases sign <;> cases compared

theorem regularPivots_float : RegularPivots Float := by
  intro a large
  rw [← Bool.not_eq_true]
  intro zero
  obtain ⟨sign, unpacked⟩ := unpack_of_isZero zero
  have magnitude : Scalar.abs a = ⟨pack (.zero .positive)⟩ := by
    change (⟨pack a.toModel.unpack.abs⟩ : Float) = _
    rw [unpacked]
    rfl
  apply large
  rw [magnitude]
  decide +kernel

end Tableau

namespace Matrix

section InPlace

variable {α : Type} [Scalar α]

/-- Elimination in place gives the answer of the elimination of equations, so no check fails that
the latter does not make. -/
theorem solveInPlace_eq (pivots : Tableau.RegularPivots α) (m : Matrix α) (b : Array α) :
    m.solveInPlace b = m.solve b := by
  simp only [solveInPlace, solve]
  split
  · next fits =>
    have shaped : Tableau.Shaped ⟨m, b⟩ m.rows := ⟨rfl, fits.1.symm, fits.2⟩
    have spells (k : Fin m.rows) :
        Tableau.Spells ⟨m, b⟩ (0 + k.val) 0 ((m.equations b).get k) := by
      change Tableau.Spells ⟨m, b⟩ (0 + k.val) 0 (m.equations b)[k.val]
      constructor
      · intro j
        simp [equations]
      · simp [equations]
    have down := Tableau.foldlM_eliminateColumn pivots shaped (Nat.zero_add _) spells
    rw [List.range_eq_range']
    cases solved : Equation.solve m.rows (m.equations b) with
    | none =>
      rw [solved] at down
      rw [down]
      rfl
    | some xs =>
      rw [solved] at down
      obtain ⟨t, looped, shaped', _, triangular⟩ := down
      obtain ⟨x, found, size, _, values⟩ := triangular.foldlM_substitute shaped' (Nat.zero_add _)
      rw [looped, Outcome.ok_bind, found]
      refine congrArg Except.ok (Array.ext (by simp [size]) ?_)
      intro i inside inside'
      have value := values ⟨i, by omega⟩
      simpa [inside] using value
  · rfl

/-- The two eliminations agree on doubles to the last bit, since they make the same operations in
the same order. -/
theorem solveInPlace_eq_float (m : Matrix Float) (b : Array Float) :
    m.solveInPlace b = m.solve b := solveInPlace_eq Tableau.regularPivots_float m b

end InPlace

/-! ## Soundness -/

variable {m : Matrix ℚ} {n : Nat}

theorem mulVec_eq_ok_iff (shape : m.IsSquare n) (y b : Array ℚ) :
    m.mulVec y = .ok b ↔
      y.size = n ∧ b.size = n ∧ m.square n *ᵥ values n y = values n b := by
  have entry (i : Fin n) : (m.square n *ᵥ values n y) i =
      ∑ j ∈ Finset.range n, m.entry i j * y.getD j 0 := by
    rw [Finset.sum_range]
    rfl
  rw [mulVec_eq_ok, shape.rows, shape.cols, funext_iff, Fin.forall_iff]
  simp only [entry, values]

theorem solve_eq_singular (shape : m.IsSquare n) (singular : (m.square n).det = 0) {b : Array ℚ}
    (fits : b.size = n) : m.solve b = .error .singular := by
  by_contra regular
  obtain ⟨x, solved⟩ := solve_ne_misuse (shape.rows.trans shape.cols.symm)
    (fits.trans shape.rows.symm) regular
  obtain ⟨_, _, solution⟩ := (mulVec_eq_ok_iff shape x b).mp ((solve_eq_ok solved x).mpr rfl)
  -- A vector that the matrix takes to zero leads from one solution to another.
  obtain ⟨v, nonzero, kernel⟩ := Matrix.exists_mulVec_eq_zero_iff.mpr singular
  have other : m.mulVec (Array.ofFn (values n x + v)) = .ok b := by
    rw [mulVec_eq_ok_iff shape, values_ofFn, Matrix.mulVec_add, kernel, add_zero]
    exact ⟨Array.size_ofFn, fits, solution⟩
  have same : values n x + v = values n x := by
    rw [← values_ofFn (values n x + v), (solve_eq_ok solved _).mp other]
  exact nonzero (add_eq_left.mp same)

/-- Where elimination in a square matrix gives an answer, the matrix takes it to the right side and
takes no other vector there; so a matrix without an inverse is found singular, whatever the right
side is. Carried out in place, with every access to the flat array and every divisor checked, the
elimination gives the same answers, and no check fails. -/
theorem solve_sound (square : m.rows = m.cols) :
    (∀ b x, m.solve b = .ok x → m.mulVec x = .ok b ∧ ∀ y, m.mulVec y = .ok b → y = x) ∧
    ((m.square m.rows).det = 0 → ∀ b : Array ℚ, b.size = m.rows →
      m.solve b = .error .singular) ∧
    ∀ b : Array ℚ, b.size = m.rows →
      m.solveInPlace b = m.solve b ∧ m.solveInPlace b ≠ .error .misuse := by
  refine ⟨?_, ?_, ?_⟩
  · intro b x solved
    exact ⟨(solve_eq_ok solved x).mpr rfl, fun y => (solve_eq_ok solved y).mp⟩
  · intro singular b fits
    exact solve_eq_singular ⟨rfl, square.symm⟩ singular fits
  · intro b fits
    have same := solveInPlace_eq Tableau.regularPivots_rat m b
    refine ⟨same, ?_⟩
    rw [same]
    intro failed
    obtain ⟨x, solved⟩ := solve_ne_misuse square fits (by simp [failed])
    rw [failed] at solved
    cases solved

/-- The first two columns ask for an exchange of rows, and one row has nothing to be subtracted from
it. In the other matrix one row is twice the other. -/
theorem solve_sound_exchange :
    let m : Matrix ℚ := ⟨3, 3, #[0, 2, 1, 1, 1, 0, 2, 0, 1], rfl⟩
    let k : Matrix ℚ := ⟨2, 2, #[1, 2, 2, 4], rfl⟩
    let b : Array ℚ := #[4, 3, 5]
    let x : Array ℚ := #[7 / 4, 5 / 4, 3 / 2]
    m.solve b = .ok x ∧ m.mulVec x = .ok b ∧ (∀ y, m.mulVec y = .ok b → y = x) ∧
      m.solveInPlace b = .ok x ∧ (k.square 2).det = 0 ∧
      ∀ b : Array ℚ, b.size = 2 → k.solve b = .error .singular := by
  intro m k b x
  have solved : m.solve b = .ok x := by decide +kernel
  obtain ⟨sound, _, inPlace⟩ := solve_sound (m := m) rfl
  obtain ⟨solution, only⟩ := sound b x solved
  have singular : (k.square 2).det = 0 := by
    rw [Matrix.det_fin_two]
    decide +kernel
  exact ⟨solved, solution, only, (inPlace b rfl).1.trans solved, singular,
    (solve_sound (m := k) rfl).2.1 singular⟩

end Matrix

end MarkovCheck
