import Mathlib.Order.Nat
import MarkovCheck.Proofs.Formula.Allowance
import MarkovCheck.Proofs.Reachability.Safety

/-!
# When iteration stops

Iteration goes through the vectors that begin with zero and in which each comes from the one before
by `x ↦ A x + b`, and stops at the first that differs little from the one before it. The allowance
decides only whether it gets there, so an answer stays the same under every larger allowance.
Nothing is assumed about the numbers: the test for a small change may be any test.

* `Reachability.iterates`: the vectors in order
* `Reachability.Square.iterate_succ`: one iteration
* `Reachability.Square.iterate_of_small`, `Reachability.Square.iterate_of_none_small`: all iterations
* `Reachability.iterate_first_small`: when iteration returns, and what
-/

namespace MarkovCheck.Reachability

variable {α : Type} [Scalar α] {a : Matrix α} {b : Array α} {n : Nat} {o : Options α}

/-- The vector after some applications of `x ↦ A x + b` to zero. -/
def iterates (a : Matrix α) (b : Array α) : Nat → Array α
  | 0 => start b.size
  | j + 1 => Array.zipWith (· + ·) (a.applyRight (iterates a b j)) b

/-- The change made by the last of some iterations, if there was one. -/
def lastChange (a : Matrix α) (b : Array α) : Nat → Option α
  | 0 => none
  | j + 1 => some (change (iterates a b (j + 1)) (iterates a b j))

/-- The iteration after `j` others changes less than the tolerance. -/
def IsSmall (a : Matrix α) (b : Array α) (o : Options α) (j : Nat) : Prop :=
  change (iterates a b (j + 1)) (iterates a b j) < o.tolerance

instance (a : Matrix α) (b : Array α) (o : Options α) : DecidablePred (IsSmall a b o) :=
  fun _ => inferInstanceAs (Decidable (_ < _))

namespace Square

variable (square : Square a b n)
include square

theorem size_iterates (j : Nat) : (iterates a b j).size = n := by
  cases j with
  | zero => exact Array.size_replicate.trans square.size
  | succ j => simp [iterates, square.rows, square.size]

theorem step_iterates (j : Nat) : step a b (iterates a b j) = .ok (iterates a b (j + 1)) := by
  have product : a.mulVec (iterates a b j) = .ok (a.applyRight (iterates a b j)) :=
    if_pos ((square.size_iterates j).trans square.cols.symm)
  exact Outcome.bind_eq_ok.mpr ⟨_, product, rfl⟩

variable (running : o.cancelledAfter = none)
include running

theorem bounded_iterates (k j : Nat) :
    bounded a b o k (iterates a b j) = .ok (iterates a b (j + k)) := by
  induction k generalizing j with
  | zero => rfl
  | succ k inductionHypothesis =>
    rw [bounded_succ running, square.step_iterates]
    refine (inductionHypothesis (j + 1)).trans ?_
    rw [Nat.add_right_comm, Nat.add_assoc]

/-- An iteration with a small change is the last one. -/
theorem iterate_succ (left j : Nat) (last : Option α) :
    iterate a b o (left + 1) (iterates a b j) last =
      if IsSmall a b o j then .ok (iterates a b (j + 1))
      else iterate a b o left (iterates a b (j + 1)) (lastChange a b (j + 1)) := by
  rw [Reachability.iterate_succ running, square.step_iterates]
  by_cases small : IsSmall a b o j
  · rw [if_pos small]
    exact if_pos small
  · rw [if_neg small]
    exact if_neg small

/-- Iteration gets to the first small change if the allowance lasts so far. -/
theorem iterate_of_small {left j k : Nat} (later : j ≤ k) (within : k < j + left)
    (small : IsSmall a b o k) (first : ∀ i, j ≤ i → i < k → ¬ IsSmall a b o i)
    (last : Option α) :
    iterate a b o left (iterates a b j) last = .ok (iterates a b (k + 1)) := by
  induction left generalizing j last with
  | zero => omega
  | succ left inductionHypothesis =>
    rw [square.iterate_succ running]
    obtain rfl | before := Nat.eq_or_lt_of_le later
    · rw [if_pos small]
    · rw [if_neg (first j (Nat.le_refl j) before)]
      exact inductionHypothesis before (by omega) (fun i after => first i (by omega)) _

/-- Without a small change, iteration uses up its allowance. -/
theorem iterate_of_none_small {left j : Nat}
    (none : ∀ i, j ≤ i → i < j + left → ¬ IsSmall a b o i) :
    iterate a b o left (iterates a b j) (lastChange a b j) =
      .error (.notConverged o.maxIterations (lastChange a b (j + left))) := by
  induction left generalizing j with
  | zero => rfl
  | succ left inductionHypothesis =>
    rw [square.iterate_succ running, if_neg (none j (Nat.le_refl j) (by omega)),
      inductionHypothesis fun i after within => none i (by omega) (by omega), Nat.add_right_comm,
      Nat.add_assoc]

end Square

/-- Iteration with a matrix and a vector that fit returns exactly if one of the iterations allowed
changes less than the tolerance, and then it returns the vector of the first such iteration, which
is also the vector of that number of steps. Otherwise it reports its allowance and the last change,
if there was an iteration. So whatever an analysis returns, it returns under all settings that ask
for the same method and tolerance, allow as many iterations or more, and do not tell it to stop. -/
theorem iterate_first_small (square : Square a b n) (running : o.cancelledAfter = none) :
    let x := iterates a b
    let small := IsSmall a b o
    let result := iterate a b o o.maxIterations (start b.size) none
    (∀ j, bounded a b o j (start b.size) = .ok (x j)) ∧
    ((∃ v, result = .ok v) ↔ ∃ j < o.maxIterations, small j) ∧
    (∀ j < o.maxIterations, small j → (∀ i < j, ¬ small i) → result = .ok (x (j + 1))) ∧
    ((∀ j < o.maxIterations, ¬ small j) →
      result = .error (.notConverged o.maxIterations (lastChange a b o.maxIterations))) ∧
    ∀ (c : Chain α) (goal forbidden : StateSet) (steps : Option Nat) (narrow wide : Options α)
      (v : Array α), c.reachability goal forbidden steps narrow = .ok v →
      wide.method = narrow.method → wide.tolerance = narrow.tolerance →
      narrow.maxIterations ≤ wide.maxIterations → wide.cancelledAfter = none →
      c.reachability goal forbidden steps wide = .ok v := by
  intro x small result
  have first : ∀ j < o.maxIterations, small j → (∀ i < j, ¬ small i) → result = .ok (x (j + 1)) :=
    fun j within here before => square.iterate_of_small running j.zero_le (by omega) here
      (fun i _ => before i) none
  have exhausted : (∀ j < o.maxIterations, ¬ small j) →
      result = .error (.notConverged o.maxIterations (lastChange a b o.maxIterations)) := by
    intro none
    have never : ∀ i, 0 ≤ i → i < 0 + o.maxIterations → ¬ IsSmall a b o i :=
      fun i _ within => none i (by omega)
    have ends := square.iterate_of_none_small running never
    rwa [Nat.zero_add] at ends
  refine ⟨?_, ?_, first, exhausted, ?_⟩
  · intro j
    have steps := square.bounded_iterates running j 0
    rwa [Nat.zero_add] at steps
  · constructor
    · rintro ⟨v, returned⟩
      by_contra none
      push Not at none
      rw [exhausted none] at returned
      cases returned
    · rintro ⟨j, within, here⟩
      -- The first small change comes no later than the one given.
      have some : ∃ j, IsSmall a b o j := ⟨j, here⟩
      have early : Nat.find some < o.maxIterations :=
        Nat.lt_of_le_of_lt (Nat.find_min' some here) within
      exact ⟨_, first _ early (Nat.find_spec some) fun i => Nat.find_min some⟩
  · intro c goal forbidden steps narrow wide v returned method tolerance allowance told
    exact c.reachability_widens (Options.widens_of_running told method tolerance allowance) goal
      forbidden steps returned

/-- A state that is left with probability one half: three iterations are needed, and three are
enough; two are reported with the change of the second, none with no change. -/
theorem iterate_first_small_half :
    let a : Matrix ℚ := ⟨1, 1, #[1 / 2], rfl⟩
    let b : Array ℚ := #[1 / 4]
    let allow (allowance : Nat) : Options ℚ := ⟨.iterative, 1 / 10, allowance, none⟩
    let c : Chain ℚ := ⟨0, 5, #[⟨0, "try", []⟩, ⟨1, "done", []⟩],
      [⟨0, 0, 1 / 2⟩, ⟨0, 1, 1 / 4⟩], some 0, none⟩
    Square a b 1 ∧
      iterate a b (allow 3) 3 (start 1) none = .ok #[7 / 16] ∧
      bounded a b (allow 3) 3 (start 1) = .ok #[7 / 16] ∧
      iterate a b (allow 2) 2 (start 1) none = .error (.notConverged 2 (some (1 / 8))) ∧
      iterate a b (allow 0) 0 (start 1) none = .error (.notConverged 0 none) ∧
      c.reachability (.ofList [1]) .empty none (allow 3) = .ok #[7 / 16, 1] ∧
      c.reachability (.ofList [1]) .empty none (allow 1000) = .ok #[7 / 16, 1] := by
  intro a b allow c
  have square : Square a b 1 := ⟨rfl, rfl, rfl⟩
  obtain ⟨steps, _, first, _, widens⟩ := iterate_first_small (o := allow 3) square rfl
  obtain ⟨_, _, _, exhausted, _⟩ := iterate_first_small (o := allow 2) square rfl
  obtain ⟨_, _, _, unused, _⟩ := iterate_first_small (o := allow 0) square rfl
  have third : iterates a b 3 = #[7 / 16] := by decide +kernel
  have second : lastChange a b 2 = some (1 / 8) := by decide +kernel
  have returned : c.reachability (.ofList [1]) .empty none (allow 3) = .ok #[7 / 16, 1] := by
    decide +kernel
  refine ⟨square, ?_, ?_, ?_, unused (by simp [allow]), returned, ?_⟩
  · rw [← third]
    exact first 2 (by decide) (by decide +kernel) (by decide +kernel)
  · rw [← third]
    exact steps 3
  · rw [← second]
    exact exhausted (by decide +kernel)
  · exact widens c _ _ none (allow 3) (allow 1000) _ returned rfl rfl (by decide) rfl

end MarkovCheck.Reachability
