import MarkovCheck.Scalar
import MarkovCheck.Error

/-!
# Matrices

Dense matrices in row-major order. The number of entries is tied to the dimensions by a proof, so
`entry` is the only way to look inside and no index arithmetic escapes this module.

Every operation has a total core and, where its arguments have to fit, a checked form that fails
with `Error.misuse` when they do not:

* `get`, `set`, `row`, `submatrix`: access, checked on the flat index `i * cols + j`
* `vecMul`, `mulVec`, `mul`, `pow`: products, checked on the dimensions
-/

namespace MarkovCheck

/-- A matrix with `rows * cols` entries in row-major order. -/
structure Matrix (α : Type) where
  rows : Nat
  cols : Nat
  data : Array α
  size_data : data.size = rows * cols

namespace Matrix

variable {α : Type} [Scalar α]

/-- The matrix with entry `f i j` in row `i` and column `j`. -/
@[specialize] def ofFn (rows cols : Nat) (f : Nat → Nat → α) : Matrix α :=
  ⟨rows, cols, Array.ofFn fun k : Fin (rows * cols) => f (k.val / cols) (k.val % cols), by simp⟩

/-- The entry at the flat index of `i` and `j`; zero beyond the last entry. -/
@[inline] def entry (m : Matrix α) (i j : Nat) : α := m.data.getD (i * m.cols + j) 0

omit [Scalar α] in
@[simp] theorem rows_ofFn (rows cols : Nat) (f : Nat → Nat → α) :
    (ofFn rows cols f).rows = rows := rfl

omit [Scalar α] in
@[simp] theorem cols_ofFn (rows cols : Nat) (f : Nat → Nat → α) :
    (ofFn rows cols f).cols = cols := rfl

/-- Inside the matrix, an entry is what the function says. -/
theorem entry_ofFn {rows cols : Nat} (f : Nat → Nat → α) {i j : Nat}
    (hi : i < rows) (hj : j < cols) : (ofFn rows cols f).entry i j = f i j := by
  have inside : i * cols + j < rows * cols :=
    calc i * cols + j < i * cols + cols := by omega
      _ = (i + 1) * cols := by rw [Nat.succ_mul]
      _ ≤ rows * cols := Nat.mul_le_mul_right cols hi
  have quotient : (i * cols + j) / cols = i := by
    rw [Nat.mul_comm, Nat.mul_add_div (by omega), Nat.div_eq_of_lt hj, Nat.add_zero]
  have remainder : (i * cols + j) % cols = j := by
    rw [Nat.mul_comm, Nat.mul_add_mod, Nat.mod_eq_of_lt hj]
  simp [entry, ofFn, inside, quotient, remainder]

@[specialize] def zeros (rows cols : Nat) : Matrix α := ofFn rows cols fun _ _ => 0

@[specialize] def identity (n : Nat) : Matrix α := ofFn n n fun i j => if i = j then 1 else 0

omit [Scalar α] in
theorem length_flatten_of_equal {rows : List (List α)} {cols : Nat}
    (equal : ∀ r ∈ rows, r.length = cols) : rows.flatten.length = rows.length * cols := by
  induction rows with
  | nil => simp
  | cons r rows inductionHypothesis =>
    have here : r.length = cols := equal r (by simp)
    have there := inductionHypothesis fun r' h => equal r' (by simp [h])
    rw [List.flatten_cons, List.length_append, here, there, List.length_cons, Nat.succ_mul]
    omega

omit [Scalar α] in
/-- The matrix with the given rows, which have to be equally long. -/
def ofRows (rows : List (List α)) : Except (Error α) (Matrix α) :=
  let cols := (rows.head?.map List.length).getD 0
  if equal : ∀ r ∈ rows, r.length = cols then
    .ok ⟨rows.length, cols, rows.flatten.toArray, by
      rw [List.size_toArray]; exact length_flatten_of_equal equal⟩
  else .error .raggedRows

@[specialize] def toRows (m : Matrix α) : List (List α) :=
  (List.range m.rows).map fun i => (List.range m.cols).map fun j => m.entry i j

/-! ## Access -/

omit [Scalar α] in
/-- The entry at the flat index of `i` and `j`. -/
def get (m : Matrix α) (i j : Nat) : Except (Error α) α :=
  match m.data[i * m.cols + j]? with
  | some a => .ok a
  | none => .error .misuse

omit [Scalar α] in
/-- The matrix with the entry at the flat index of `i` and `j` replaced, if there is one. -/
def put (m : Matrix α) (i j : Nat) (a : α) : Matrix α :=
  ⟨m.rows, m.cols, m.data.setIfInBounds (i * m.cols + j) a, by simp [m.size_data]⟩

omit [Scalar α] in
/-- The matrix with the entry at the flat index of `i` and `j` replaced. -/
def set (m : Matrix α) (i j : Nat) (a : α) : Except (Error α) (Matrix α) :=
  if i * m.cols + j < m.data.size then .ok (m.put i j a) else .error .misuse

@[specialize] def row (m : Matrix α) (i : Nat) : Except (Error α) (List α) :=
  if (i + 1) * m.cols ≤ m.data.size then
    .ok ((List.range m.cols).map fun j => m.entry i j)
  else .error .misuse

/-- The entries at the crossings of the given rows and columns. -/
@[specialize] def crossings (m : Matrix α) (is js : Array Nat) : Matrix α :=
  ofFn is.size js.size fun a b => m.entry (is.getD a 0) (js.getD b 0)

/-- The restriction to the given rows and columns, in the given order. -/
@[specialize] def submatrix (m : Matrix α) (is js : Array Nat) : Except (Error α) (Matrix α) :=
  if is.all fun i => js.all fun j => decide (i * m.cols + j < m.data.size) then
    .ok (m.crossings is js)
  else .error .misuse

/-! ## Products -/

/-- `f 0 * g 0 + … + f (n - 1) * g (n - 1)` from the left, without the terms whose first factor is
zero. -/
@[specialize] def sparseDot (n : Nat) (f g : Nat → α) : α :=
  n.fold (fun k _ acc => if Scalar.isZero (f k) then acc else acc + f k * g k) 0

@[specialize] def applyLeft (m : Matrix α) (v : Array α) : Array α :=
  Array.ofFn fun j : Fin m.cols => sparseDot m.rows (fun i => v.getD i 0) fun i => m.entry i j.val

@[specialize] def applyRight (m : Matrix α) (v : Array α) : Array α :=
  Array.ofFn fun i : Fin m.rows => Scalar.sumTo m.cols fun j => m.entry i.val j * v.getD j 0

@[specialize] def product (m k : Matrix α) : Matrix α :=
  ofFn m.rows k.cols fun i j => sparseDot m.cols (m.entry i) fun l => k.entry l j

@[specialize] def powerFrom (result base : Matrix α) (e : Nat) : Matrix α :=
  if h : e = 0 then result
  else
    powerFrom (if e % 2 = 1 then result.product base else result)
      (if e / 2 = 0 then base else base.product base) (e / 2)
termination_by e
decreasing_by exact Nat.div_lt_self (Nat.pos_of_ne_zero h) (by decide)

@[specialize] def power (m : Matrix α) (e : Nat) : Matrix α := powerFrom (identity m.rows) m e

@[simp] theorem size_applyLeft (m : Matrix α) (v : Array α) : (m.applyLeft v).size = m.cols := by
  simp [applyLeft]

@[simp] theorem size_applyRight (m : Matrix α) (v : Array α) :
    (m.applyRight v).size = m.rows := by
  simp [applyRight]

@[specialize] def vecMul (m : Matrix α) (v : Array α) : Except (Error α) (Array α) :=
  if v.size = m.rows then .ok (m.applyLeft v) else .error .misuse

@[specialize] def mulVec (m : Matrix α) (v : Array α) : Except (Error α) (Array α) :=
  if v.size = m.cols then .ok (m.applyRight v) else .error .misuse

@[specialize] def mul (m k : Matrix α) : Except (Error α) (Matrix α) :=
  if m.cols = k.rows then .ok (m.product k) else .error .misuse

/-- A power of the matrix, which has to be square. -/
@[specialize] def pow (m : Matrix α) (e : Nat) : Except (Error α) (Matrix α) :=
  if m.rows = m.cols then .ok (m.power e) else .error .misuse

/-! ## Comparison and text -/

/-- Have two matrices the same dimensions and numerically equal entries? -/
@[specialize] def equal (m k : Matrix α) : Bool :=
  decide (m.rows = k.rows) && decide (m.cols = k.cols) &&
    (m.data.toList.zip k.data.toList).all fun (a, b) => Scalar.equal a b

/-- The rows in brackets, the entries with a point. -/
def text (m : Matrix Float) : String :=
  Text.enclosed "[" "]" <| m.toRows.map fun r =>
    Text.enclosed "[" "]" (r.map Decimal.pointed.text)

end Matrix

end MarkovCheck
