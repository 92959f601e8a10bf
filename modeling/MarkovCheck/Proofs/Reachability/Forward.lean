import MarkovCheck.Proofs.Chain.OneStep
import MarkovCheck.Proofs.Chain.Transient
import MarkovCheck.Proofs.Reachability.PathWeight

/-!
# Forward and backward analysis agree

Transient analysis pushes the mass of one state forward along the chain, and then the mass in the
goal can be summed up. Reachability within a number of steps works backward from the goal. If mass
that has arrived in the goal or in a forbidden state stays where it is, the two give the same
numbers: a power of the transition matrix, applied to the indicator of the goal, is the weight of
the paths.

* `Chain.Absorbing`: what arrives in the goal or in a forbidden state stays
* `Chain.reachability_transient`: both analyses agree
-/

open scoped Matrix

namespace MarkovCheck

namespace Chain

variable {c : Chain ℚ} {goal forbidden : StateSet}

/-! ## Mass that a state sends out -/

theorem point_eq_ok (s : Fin c.size) :
    Distribution.point c s = .ok (Array.ofFn (Pi.single s 1)) := by
  have fits : s.val < (Array.replicate c.size (0 : ℚ)).size := by simp
  refine Outcome.bind_eq_ok.mpr ⟨_, if_pos fits, congrArg Except.ok ?_⟩
  refine Array.ext (by simp) ?_
  intro t _ inside
  rw [Array.getElem_setIfInBounds (by simpa using inside)]
  simp [Pi.single_apply, Fin.ext_iff, eq_comm (a := t)]

def indicator (set : StateSet) (n : Nat) : Fin n → ℚ := fun t => if set.contains t then 1 else 0

theorem massOf_ofFn {set : StateSet} (own : set.Within c.size) (f : Fin c.size → ℚ) :
    Distribution.massOf (Array.ofFn f) set = f ⬝ᵥ indicator set c.size := by
  have listed : set.toFinset = (Finset.range c.size).filter fun t => set.contains t = true := by
    ext t
    rw [StateSet.mem_toFinset, Finset.mem_filter, Finset.mem_range]
    exact ⟨fun member => ⟨own t member, member⟩, And.right⟩
  rw [massOf_eq_sum Array.size_ofFn own, listed, Finset.sum_filter, Finset.sum_range]
  simp [dotProduct, indicator]

/-- The mass that a point sends into a set by a matrix, read off the row of the point. -/
theorem massOf_point_vecMul {set : StateSet} (own : set.Within c.size) (s : Fin c.size)
    (M : SquareMatrix c.size) :
    Distribution.massOf (Array.ofFn (Matrix.values c.size (Array.ofFn (Pi.single s 1)) ᵥ* M)) set =
      (M *ᵥ indicator set c.size) s := by
  rw [massOf_ofFn own, Matrix.values_ofFn, Matrix.single_one_vecMul]
  rfl

/-! ## Mass that stays -/

/-- The only transition of a goal state is a loop of probability one, and no transition leads from a
forbidden state outside the goal to another state. -/
structure Absorbing (c : Chain ℚ) (goal forbidden : StateSet) : Prop where
  loop : ∀ s, goal.contains s = true → c.probability s s = 1
  goalStays : ∀ s, goal.contains s = true → ∀ t, c.Edge s t → t = s
  forbiddenStays : ∀ s, forbidden.contains s = true → goal.contains s = false →
    ∀ t, c.Edge s t → t = s

theorem sum_of_stays {s : Nat} (own : s < c.size) (stays : ∀ t, c.Edge s t → t = s) (x : Nat → ℚ) :
    ∑ t ∈ Finset.range c.size, c.probability s t * x t = c.probability s s * x s := by
  apply Finset.sum_eq_single_of_mem s (Finset.mem_range.mpr own)
  intro t _ other
  rw [probability_of_not_edge fun edge => other (stays t edge), zero_mul]

/-- The power of the transition matrix collects the weight of the paths into the goal. -/
theorem Absorbing.kernel_pow_mulVec (absorbing : c.Absorbing goal forbidden) (made : c.WellFormed)
    (k : Nat) (s : Fin c.size) : (c.kernel ^ k *ᵥ indicator goal c.size) s =
      c.pathWeight goal.members forbidden.members k s := by
  induction k generalizing s with
  | zero =>
    rw [pow_zero, Matrix.one_mulVec, indicator]
    split
    · next inGoal => exact (pathWeight_of_goal s.isLt inGoal 0).symm
    · next noGoal => exact (pathWeight_zero noGoal).symm
  | succ k inductionHypothesis =>
    -- The first step is taken last, as in the weight of the paths.
    have step : (c.kernel ^ (k + 1) *ᵥ indicator goal c.size) s =
        ∑ t ∈ Finset.range c.size,
          c.probability s t * c.pathWeight goal.members forbidden.members k t := by
      rw [pow_succ', ← Matrix.mulVec_mulVec, Finset.sum_range]
      change ∑ t, c.kernel s t * (c.kernel ^ k *ᵥ indicator goal c.size) t = _
      apply Finset.sum_congr rfl
      intro t _
      rw [made.kernel_apply, inductionHypothesis t]
    rw [step]
    by_cases inGoal : goal.contains s = true
    · rw [sum_of_stays s.isLt (absorbing.goalStays s inGoal), absorbing.loop s inGoal,
        pathWeight_of_goal s.isLt inGoal, pathWeight_of_goal s.isLt inGoal, mul_one]
    · by_cases isForbidden : forbidden.contains s = true
      · have stays := absorbing.forbiddenStays s isForbidden (Bool.not_eq_true _ ▸ inGoal)
        rw [sum_of_stays s.isLt stays, pathWeight_of_blocked isForbidden inGoal,
          pathWeight_of_blocked isForbidden inGoal, mul_zero]
      · exact (pathWeight_succ s.isLt inGoal isForbidden k).symm

/-! ## The two analyses -/

/-- Let mass in the goal and in forbidden states stay there. Then the value in a state of an
analysis with a step bound is the mass that the state sends into the goal within that many steps,
clamped to the unit interval, whether the steps are taken one by one or by a power of the matrix. -/
theorem reachability_transient (constructed : Constructed c) (ownGoal : goal.Within c.size)
    (ownForbidden : forbidden.Within c.size) (absorbing : c.Absorbing goal forbidden) (k : Nat)
    {s : Nat} (own : s < c.size) {o : Options ℚ} (running : o.cancelledAfter = none) :
    ∃ v d d', c.reachability goal forbidden (some k) o = .ok v ∧
      Distribution.point c s = .ok d ∧ c.transient k d = .ok d' ∧
      stepBy c.transitionMatrix k d = .ok d' ∧
      (c.transitionMatrix.pow k >>= fun power => power.vecMul d) = .ok d' ∧
      v[s]? = some (max 0 (min 1 (d'.massOf goal))) := by
  have made := constructed.wellFormed
  have nonempty : 0 < c.size := Nat.zero_lt_of_lt own
  have shape := made.isSquare_transitionMatrix
  refine ⟨_, _, _, made.reachability_bounded nonempty ownGoal ownForbidden k running,
    point_eq_ok ⟨s, own⟩, made.transient_eq_ok nonempty k Array.size_ofFn,
    stepBy_eq_ok shape k Array.size_ofFn, pow_vecMul_eq_ok shape k Array.size_ofFn, ?_⟩
  rw [Array.getElem?_ofFn, dif_pos own, Scalar.clampUnit_eq, massOf_point_vecMul ownGoal,
    absorbing.kernel_pow_mulVec made]

/-- A game that is repeated with probability one half, whose loser leaves with probability one half:
two steps are taken one by one, forty by a power of the matrix. -/
theorem reachability_transient_game :
    let c : Chain ℚ := ⟨0, 8, #[⟨0, "play", []⟩, ⟨1, "won", []⟩, ⟨2, "lost", []⟩],
      [⟨0, 0, 1 / 2⟩, ⟨0, 1, 1 / 4⟩, ⟨0, 2, 1 / 4⟩, ⟨1, 1, 1⟩, ⟨2, 2, 1 / 2⟩], some 0, none⟩
    Constructed c ∧ c.Absorbing (.ofList [1]) (.ofList [2]) ∧
      prefersPower c.size 2 = false ∧ prefersPower c.size 40 = true ∧
      c.reachability (.ofList [1]) (.ofList [2]) (some 2) Options.default = .ok #[3 / 8, 1, 0] ∧
      ∀ k ∈ [2, 40], ∃ v d d',
        c.reachability (.ofList [1]) (.ofList [2]) (some k) Options.default = .ok v ∧
        Distribution.point c 0 = .ok d ∧ c.transient k d = .ok d' ∧
        v[0]? = some (max 0 (min 1 (d'.massOf (.ofList [1])))) := by
  intro c
  have constructed : Constructed c := constructed_of_addAll (by with_unfolding_all rfl)
  have absorbing : c.Absorbing (.ofList [1]) (.ofList [2]) := by
    refine ⟨?_, ?_, ?_⟩
    · intro s member
      obtain rfl : s = 1 := by simpa [StateSet.contains_ofList] using member
      decide +kernel
    · intro s member t edge
      obtain rfl : s = 1 := by simpa [StateSet.contains_ofList] using member
      simpa [Edge, c, eq_comm] using edge
    · intro s member _ t edge
      obtain rfl : s = 2 := by simpa [StateSet.contains_ofList] using member
      simpa [Edge, c, eq_comm] using edge
  refine ⟨constructed, absorbing, by decide +kernel, by decide +kernel, by decide +kernel, ?_⟩
  intro k _
  obtain ⟨v, d, d', returned, point, moved, _, _, agree⟩ := reachability_transient constructed
    (StateSet.within_ofList [1] (by decide)) (StateSet.within_ofList [2] (by decide)) absorbing k
    (show 0 < c.size by decide) (show (Options.default : Options ℚ).cancelledAfter = none from rfl)
  exact ⟨v, d, d', returned, point, moved, agree⟩

end Chain

end MarkovCheck
