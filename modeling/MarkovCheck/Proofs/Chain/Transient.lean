import Mathlib.Logic.Function.Iterate
import MarkovCheck.Chain.Transient
import MarkovCheck.Proofs.Chain.WellFormed
import MarkovCheck.Proofs.Matrix.Power

/-!
# Transient analysis

A distribution is moved along a chain by repeated steps, or at once by a power of the transition
matrix that is found by squaring; which of the two is cheaper depends on the number of states and of
steps. At the rationals both apply the same power, so the choice shows in no result, and the steps
of two analyses add up.

* `Chain.kernel`: the transition probabilities as a square matrix
* `Chain.stepBy_eq_ok`, `Chain.pow_vecMul_eq_ok`: the two strategies
* `Chain.WellFormed.transient_eq_ok`: transient analysis applies the power of the kernel
* `Chain.transient_strategies`: it repeats one step, and it composes
-/

open scoped Matrix

namespace MarkovCheck

namespace Chain

/-- Steps taken one by one repeat the product with the matrix, whatever the numbers are. -/
theorem stepBy_eq_iterate {α : Type} [Scalar α] (m : Matrix α) (k : Nat) (d : Distribution α) :
    stepBy m k d = (fun result => result >>= m.vecMul)^[k] (.ok d) := by
  induction k generalizing d with
  | zero => rfl
  | succ k inductionHypothesis =>
    rw [Function.iterate_succ_apply]
    change (m.vecMul d >>= stepBy m k) = (fun result => result >>= m.vecMul)^[k] (m.vecMul d)
    cases m.vecMul d with
    | ok d' => exact inductionHypothesis d'
    | error e => exact (Function.iterate_fixed rfl k).symm

variable {c : Chain ℚ}

def kernel (c : Chain ℚ) : SquareMatrix c.size := c.transitionMatrix.square c.size

theorem WellFormed.isSquare_transitionMatrix (made : c.WellFormed) :
    c.transitionMatrix.IsSquare c.size :=
  ⟨made.rows_transitionMatrix, made.cols_transitionMatrix⟩

theorem WellFormed.kernel_apply (made : c.WellFormed) (s t : Fin c.size) :
    c.kernel s t = c.probability s t :=
  made.entry_transitionMatrix s.isLt t.isLt

/-- Steps taken one by one apply the power of the matrix. -/
theorem stepBy_eq_ok {m : Matrix ℚ} {n : Nat} (shape : m.IsSquare n) (k : Nat)
    {d : Distribution ℚ} (size : d.size = n) :
    stepBy m k d = .ok (Array.ofFn (Matrix.values n d ᵥ* m.square n ^ k)) := by
  induction k generalizing d with
  | zero =>
    rw [stepBy, pow_zero, Matrix.vecMul_one]
    exact congrArg Except.ok (Matrix.eq_ofFn_values size)
  | succ k inductionHypothesis =>
    refine Outcome.bind_eq_ok.mpr ⟨_, Matrix.vecMul_eq_ok shape size, ?_⟩
    rw [inductionHypothesis Array.size_ofFn, Matrix.values_ofFn, Matrix.vecMul_vecMul, ← pow_succ']

/-- The power of the matrix by squaring, applied once. -/
theorem pow_vecMul_eq_ok {m : Matrix ℚ} {n : Nat} (shape : m.IsSquare n) (k : Nat)
    {d : Distribution ℚ} (size : d.size = n) : (do
      let power ← m.pow k
      power.vecMul d) = .ok (Array.ofFn (Matrix.values n d ᵥ* m.square n ^ k)) := by
  obtain ⟨powerShape, value⟩ := Matrix.square_power shape k
  refine Outcome.bind_eq_ok.mpr ⟨m.power k, if_pos (shape.rows.trans shape.cols.symm), ?_⟩
  rw [Matrix.vecMul_eq_ok powerShape size, value]

theorem WellFormed.transient_eq_ok (made : c.WellFormed) (nonempty : 0 < c.size) (k : Nat)
    {d : Distribution ℚ} (size : d.size = c.size) :
    c.transient k d = .ok (Array.ofFn (Matrix.values c.size d ᵥ* c.kernel ^ k)) := by
  have shape := made.isSquare_transitionMatrix
  rw [transient, if_neg (Nat.ne_of_gt nonempty), if_neg (not_not.mpr size)]
  simp only
  split
  · exact pow_vecMul_eq_ok shape k size
  · exact stepBy_eq_ok shape k size

/-- Transient analysis of a distribution with one mass for each state returns what the product with
the transition matrix gives when it is repeated step by step, and so does the power of the matrix
found by squaring; and two analyses one after the other take the steps of both, whichever strategy
each of them prefers. -/
theorem transient_strategies (constructed : Constructed c) (nonempty : 0 < c.size)
    {d : Distribution ℚ} (size : d.size = c.size) :
    (∀ k, ∃ d', c.transient k d = .ok d' ∧ d'.size = c.size ∧
      (fun result => result >>= c.transitionMatrix.vecMul)^[k] (.ok d) = .ok d' ∧
      (c.transitionMatrix.pow k >>= fun power => power.vecMul d) = .ok d') ∧
    ∀ j k, c.transient (j + k) d = c.transient j d >>= c.transient k := by
  have made := constructed.wellFormed
  have shape := made.isSquare_transitionMatrix
  constructor
  · intro k
    refine ⟨_, made.transient_eq_ok nonempty k size, Array.size_ofFn, ?_,
      pow_vecMul_eq_ok shape k size⟩
    rw [← stepBy_eq_iterate]
    exact stepBy_eq_ok shape k size
  · intro j k
    have first := made.transient_eq_ok nonempty j size
    have second := made.transient_eq_ok nonempty k
      (d := Array.ofFn (Matrix.values c.size d ᵥ* c.kernel ^ j)) Array.size_ofFn
    rw [made.transient_eq_ok nonempty (j + k) size]
    refine (Outcome.bind_eq_ok.mpr ⟨_, first, ?_⟩).symm
    rw [second, Matrix.values_ofFn, Matrix.vecMul_vecMul, pow_add]

/-- Masses that do not sum to one, moved two steps one by one and then forty by a power of the
matrix: together they take forty-two, by a power. -/
theorem transient_strategies_mixed :
    let c : Chain ℚ := ⟨0, 5, #[⟨0, "wait", []⟩, ⟨1, "done", []⟩],
      [⟨0, 0, 1 / 2⟩, ⟨0, 1, 1 / 2⟩, ⟨1, 1, 1⟩], some 0, none⟩
    let d : Distribution ℚ := #[3, 1 / 4]
    Constructed c ∧ 0 < c.size ∧ d.size = c.size ∧
      prefersPower c.size 2 = false ∧ prefersPower c.size 40 = true ∧
      c.transient 2 d = .ok #[3 / 4, 5 / 2] ∧
      (fun result => result >>= c.transitionMatrix.vecMul)^[2] (.ok d) = .ok #[3 / 4, 5 / 2] ∧
      c.transient 42 d = c.transient 40 #[3 / 4, 5 / 2] := by
  intro c d
  have constructed : Constructed c := constructed_of_addAll (by with_unfolding_all rfl)
  have nonempty : 0 < c.size := by decide
  have size : d.size = c.size := by decide
  obtain ⟨steps, composes⟩ := transient_strategies constructed nonempty size
  have moved : c.transient 2 d = .ok #[3 / 4, 5 / 2] := by decide +kernel
  obtain ⟨d', found, _, repeated, _⟩ := steps 2
  cases moved.symm.trans found
  have whole := composes 2 40
  rw [moved] at whole
  exact ⟨constructed, nonempty, size, by decide +kernel, by decide +kernel, moved, repeated, whole⟩

end Chain

end MarkovCheck
