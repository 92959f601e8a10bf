import MarkovCheck.Matrix.Elimination

/-!
# Elimination in place

The same elimination carried out in one table of coefficients and one vector, both overwritten as it
goes on. Column by column, the row with the largest entry is exchanged with the row on the diagonal,
and multiples of it are subtracted from the rows below; what they leave below the diagonal is not
looked at again. Then the unknowns replace the right sides from the last to the first.

Every access is checked to lie inside the flat array, and every divisor to differ from zero. A check
that fails is a misuse.

* `Tableau.pivotRow`, `Tableau.raiseRow`, `Tableau.eliminateRow`: the parts of a column's step
* `Tableau.eliminateColumn`, `Tableau.substitute`: one step down, one step up
* `Matrix.solveInPlace`: all steps
-/

namespace MarkovCheck

/-- The coefficients and the right sides of some equations. -/
structure Tableau (α : Type) where
  coeffs : Matrix α
  rhs : Array α

namespace Tableau

variable {α : Type} [Scalar α]

omit [Scalar α] in
def read (v : Array α) (i : Nat) : Except (Error α) α :=
  match v[i]? with
  | some a => .ok a
  | none => .error .misuse

omit [Scalar α] in
def write (v : Array α) (i : Nat) (a : α) : Except (Error α) (Array α) :=
  if i < v.size then .ok (v.setIfInBounds i a) else .error .misuse

@[specialize] def divide (a b : α) : Except (Error α) α :=
  if Scalar.isZero b then .error .misuse else .ok (a / b)

/-! ## Down -/

@[specialize] def largerRow (a : Matrix α) (col best row : Nat) : Except (Error α) Nat := do
  let largest ← a.get best col
  let next ← a.get row col
  return if Scalar.magnitudeLe largest next then row else best

/-- The last row from the diagonal down whose entry in the column is largest in magnitude. -/
@[specialize] def pivotRow (n : Nat) (a : Matrix α) (col : Nat) : Except (Error α) Nat :=
  (List.range' (col + 1) (n - (col + 1))).foldlM (largerRow a col) col

omit [Scalar α] in
def exchangeAt (p q : Nat) (a : Matrix α) (j : Nat) : Except (Error α) (Matrix α) := do
  let upper ← a.get p j
  let lower ← a.get q j
  let a ← a.set p j lower
  a.set q j upper

omit [Scalar α] in
def exchangeRows (n : Nat) (t : Tableau α) (p q : Nat) : Except (Error α) (Tableau α) := do
  let coeffs ← (List.range n).foldlM (exchangeAt p q) t.coeffs
  let upper ← read t.rhs p
  let lower ← read t.rhs q
  let rhs ← write t.rhs p lower
  let rhs ← write rhs q upper
  return ⟨coeffs, rhs⟩

omit [Scalar α] in
/-- Brings a row up to the diagonal in exchange for the one that is there. -/
def raiseRow (n : Nat) (t : Tableau α) (col p : Nat) : Except (Error α) (Tableau α) :=
  if p = col then .ok t else t.exchangeRows n col p

@[specialize] def subtractAt (col row : Nat) (factor : α) (a : Matrix α) (j : Nat) :
    Except (Error α) (Matrix α) := do
  let upper ← a.get col j
  let lower ← a.get row j
  a.set row j (lower - factor * upper)

/-- Subtracts the multiple of the row on the diagonal that cancels a row's entry in the column. -/
@[specialize] def eliminateRow (n col : Nat) (diagonal : α) (t : Tableau α) (row : Nat) :
    Except (Error α) (Tableau α) := do
  let lead ← t.coeffs.get row col
  let factor ← divide lead diagonal
  if Scalar.isZero factor then return t
  else
    let coeffs ← (List.range' col (n - col)).foldlM (subtractAt col row factor) t.coeffs
    let upper ← read t.rhs col
    let lower ← read t.rhs row
    let rhs ← write t.rhs row (lower - factor * upper)
    return ⟨coeffs, rhs⟩

/-- Makes the entries of a column below the diagonal disappear, unless all entries from the diagonal
down are below the threshold. -/
@[specialize] def eliminateColumn (n : Nat) (t : Tableau α) (col : Nat) :
    Except (Error α) (Tableau α) := do
  let p ← pivotRow n t.coeffs col
  let largest ← t.coeffs.get p col
  if Scalar.abs largest < Equation.pivotThreshold then .error .singular
  else
    let t ← t.raiseRow n col p
    let diagonal ← t.coeffs.get col col
    (List.range' (col + 1) (n - (col + 1))).foldlM (eliminateRow n col diagonal) t

/-! ## Up -/

@[specialize] def addProduct (a : Matrix α) (x : Array α) (row : Nat) (sum : α) (j : Nat) :
    Except (Error α) α := do
  let coeff ← a.get row j
  let value ← read x j
  return sum + coeff * value

/-- Replaces the right side of a row by the value of its unknown, given those of the later ones. -/
@[specialize] def substitute (n : Nat) (a : Matrix α) (x : Array α) (row : Nat) :
    Except (Error α) (Array α) := do
  let tail ← (List.range' (row + 1) (n - (row + 1))).foldlM (addProduct a x row) 0
  let rhs ← read x row
  let diagonal ← a.get row row
  let value ← divide (rhs - tail) diagonal
  write x row value

end Tableau

/-- Solves `m x = b` for a square matrix and a vector of matching length, overwriting both. -/
@[specialize] def Matrix.solveInPlace {α : Type} [Scalar α] (m : Matrix α) (b : Array α) :
    Except (Error α) (Array α) :=
  if m.rows = m.cols ∧ b.size = m.rows then do
    let t ← (List.range m.rows).foldlM (Tableau.eliminateColumn m.rows) ⟨m, b⟩
    (List.range m.rows).reverse.foldlM (Tableau.substitute m.rows t.coeffs) t.rhs
  else .error .misuse

end MarkovCheck
