import MarkovCheck.Matrix.Basic

/-!
# Gaussian elimination

A system of `n + 1` equations is solved by choosing the equation with the largest leading
coefficient, subtracting multiples of it from the others so that their leading unknown disappears,
solving the `n` equations that remain, and reading the leading unknown off the chosen equation.
The system counts as singular when no leading coefficient reaches `1e-12`.
-/

namespace MarkovCheck

structure Equation (α : Type) (n : Nat) where
  coeffs : Vector α n
  rhs : α

namespace Equation

variable {α : Type} [Scalar α] {n : Nat}

omit [Scalar α] in
@[inline] def lead (e : Equation α (n + 1)) : α := e.coeffs[0]

@[inline] def pivotThreshold : α := 1e-12

/-- The last of the equations whose leading coefficient is largest in magnitude. -/
@[specialize] def pivot (es : Vector (Equation α (n + 1)) (n + 1)) : Fin (n + 1) :=
  Fin.foldl n (fun best i =>
    if Scalar.magnitudeLe es[best].lead es[i.succ].lead then i.succ else best) 0

/-- Subtracts the multiple of `top` that cancels the first unknown of `e`, and drops it. -/
@[specialize] def eliminate (top e : Equation α (n + 1)) : Equation α n :=
  let factor := e.lead / top.lead
  if Scalar.isZero factor then ⟨e.coeffs.tail, e.rhs⟩
  else
    ⟨Vector.ofFn fun j : Fin n => e.coeffs[j.succ] - factor * top.coeffs[j.succ],
      e.rhs - factor * top.rhs⟩

/-- The first unknown, given the values of the others. -/
@[specialize] def solveLead (e : Equation α (n + 1)) (xs : Vector α n) : α :=
  (e.rhs - Scalar.sumTo n fun j => e.coeffs.toArray.getD (j + 1) 0 * xs.toArray.getD j 0) / e.lead

/-- Solves `n` equations in `n` unknowns, unless a pivot falls below the threshold. -/
@[specialize] def solve : (n : Nat) → Vector (Equation α n) n → Option (Vector α n)
  | 0, _ => some #v[]
  | n + 1, es =>
    let p := pivot es
    if Scalar.abs es[p].lead < pivotThreshold then none
    else
      let swapped := es.swap 0 p.val
      let top := swapped[0]
      match solve n (Vector.ofFn fun i : Fin n => eliminate top swapped[i.succ]) with
      | none => none
      | some xs => some (#v[solveLead top xs] ++ xs |>.cast (Nat.add_comm 1 n))

end Equation

namespace Matrix

variable {α : Type} [Scalar α]

@[specialize] def equations (m : Matrix α) (b : Array α) : Vector (Equation α m.rows) m.rows :=
  Vector.ofFn fun i => ⟨Vector.ofFn fun j => m.entry i.val j.val, b.getD i.val 0⟩

/-- Solves `m x = b` for a square matrix and a vector of matching length. -/
@[specialize] def solve (m : Matrix α) (b : Array α) : Except (Error α) (Array α) :=
  if m.rows = m.cols ∧ b.size = m.rows then
    match Equation.solve m.rows (m.equations b) with
    | some x => .ok x.toArray
    | none => .error .singular
  else .error .misuse

end Matrix

end MarkovCheck
