import Mathlib.Data.Finset.Sort
import MarkovCheck.StateSet.Cursor
import MarkovCheck.Proofs.StateSet.Members

/-!
# Listing the members of a set

A cursor that starts before the first member of a set gives the members one after the other, in
increasing order, and then ends. A word is listed by giving its lowest bit and clearing it, so what
is left to list gets shorter by its head at each step.

The largest member is found from the other end: the last word that is not zero has its highest bit
right under its leading zeros.

* `StateSet.Yields`: the numbers that a cursor still gives, up to the end
* `StateSet.cursor_yields`: from the start these are the numbers of `toList`
* `StateSet.max?_eq_getLast?`, `StateSet.max?_eq_some`: the search from the end finds the last of
  them, which is the largest
-/

namespace MarkovCheck

namespace Word

/-- Below its lowest bit a word is zero, and the bit itself is one. -/
theorem toNat_eq (w : Word) (some : w ≠ 0) :
    ∃ q, w.toNat = 2 ^ w.lowest * (2 * q + 1) := by
  have lower : w.toNat % 2 ^ w.lowest = 0 := by
    apply Nat.eq_of_testBit_eq
    intro i
    rw [Nat.testBit_mod_two_pow, Nat.zero_testBit]
    by_cases below : i < w.lowest
    · have clear : w.toNat.testBit i = false := BitVec.getLsbD_false_of_lt_ctz below
      simp [below, clear]
    · simp [below]
  have odd : w.toNat / 2 ^ w.lowest % 2 = 1 := by
    have set : w.toNat.testBit w.lowest = true := BitVec.getLsbD_true_ctz_of_ne_zero some
    simpa [Nat.testBit_eq_decide_div_mod_eq] using set
  refine ⟨w.toNat / 2 ^ w.lowest / 2, ?_⟩
  have quotient : 2 ^ w.lowest * (w.toNat / 2 ^ w.lowest) = w.toNat :=
    Nat.mul_div_cancel' (Nat.dvd_of_mod_eq_zero lower)
  have half : w.toNat / 2 ^ w.lowest = 2 * (w.toNat / 2 ^ w.lowest / 2) + 1 := by omega
  rw [← half, quotient]

/-- Clearing the lowest bit clears that bit and no other. -/
theorem getLsbD_clearLowest {w : Word} (some : w ≠ 0) (j : Nat) :
    w.clearLowest.getLsbD j = (w.getLsbD j && decide (j ≠ w.lowest)) := by
  obtain ⟨q, value⟩ := w.toNat_eq some
  have positive : 0 < 2 ^ w.lowest := Nat.two_pow_pos _
  -- Taking one away turns the lowest bit into zero and the zeros below it into ones.
  have less : (w - 1#64).toNat = 2 ^ w.lowest * (2 * q) + (2 ^ w.lowest - 1) := by
    have notZero : 1 ≤ w.toNat := by
      rw [value]
      exact Nat.mul_pos positive (by omega)
    rw [BitVec.toNat_sub_of_le (by simpa [BitVec.le_def] using notZero), value]
    simp only [BitVec.toNat_ofNat, Nat.mul_add, Nat.mul_one]
    omega
  have bits : w.toNat.testBit j =
      if j < w.lowest then false else (2 * q + 1).testBit (j - w.lowest) := by
    have split := Nat.testBit_two_pow_mul_add (2 * q + 1) positive j
    rwa [Nat.add_zero, Nat.zero_testBit, ← value] at split
  have lessBits : (w - 1#64).toNat.testBit j =
      if j < w.lowest then (2 ^ w.lowest - 1).testBit j else (2 * q).testBit (j - w.lowest) := by
    rw [less, Nat.testBit_two_pow_mul_add _ (by omega)]
  simp only [clearLowest, BitVec.getLsbD_and]
  simp only [BitVec.getLsbD, bits, lessBits]
  by_cases below : j < w.lowest
  · simp [below]
  · by_cases here : j = w.lowest
    · simp [here]
    · -- Above the lowest bit the two numbers agree.
      obtain ⟨i, rfl⟩ : ∃ i, j = w.lowest + (i + 1) := ⟨j - w.lowest - 1, by omega⟩
      have doubled : (2 * q).testBit (i + 1) = q.testBit i := by
        rw [Nat.testBit_succ, Nat.mul_div_cancel_left _ (by decide)]
      have doubledOdd : (2 * q + 1).testBit (i + 1) = q.testBit i := by
        rw [Nat.testBit_succ]
        congr 1
        omega
      rw [if_neg below, if_neg below, Nat.add_sub_cancel_left, doubled, doubledOdd]
      simp

@[simp] theorem positions_zero : positions 0#64 = [] := by
  simp [positions]

/-- The positions of a word, the lowest one first. -/
theorem positions_eq_cons {w : Word} (some : w ≠ 0) :
    w.positions = w.lowest :: w.clearLowest.positions := by
  have lowest_mem : w.getLsbD w.lowest = true := BitVec.getLsbD_true_ctz_of_ne_zero some
  -- Both sides are increasing and have the same members.
  refine w.pairwise_positions.eq_of_mem_iff (List.pairwise_cons.mpr ⟨?_, pairwise_positions _⟩) ?_
  · intro j member
    rw [mem_positions, getLsbD_clearLowest some, Bool.and_eq_true, decide_eq_true_eq] at member
    by_contra notAbove
    have below : j < w.ctz.toNat := by
      have different := member.2
      simp only [lowest] at notAbove different
      omega
    rw [BitVec.getLsbD_false_of_lt_ctz below] at member
    exact absurd member.1 (by decide)
  · intro j
    rw [List.mem_cons, mem_positions, mem_positions, getLsbD_clearLowest some]
    by_cases here : j = w.lowest
    · simp [here, lowest_mem]
    · simp [here]

/-! ## The highest bit -/

theorem leadingZeros_lt {w : Word} (some : w ≠ 0) : w.leadingZeros < 64 :=
  BitVec.clz_lt_iff_ne_zero.mpr some

/-- The bit under the leading zeros is one. -/
theorem getLsbD_highest {w : Word} (some : w ≠ 0) : w.getLsbD (63 - w.leadingZeros) = true :=
  BitVec.getLsbD_true_clz_of_ne_zero (by decide) some

/-- No bit that is one lies among the leading zeros. -/
theorem le_highest {w : Word} {j : Nat} (set : w.getLsbD j = true) : j ≤ 63 - w.leadingZeros := by
  have small : w.toNat < 2 ^ (64 - w.leadingZeros) := BitVec.toNat_lt_two_pow_sub_clz
  have large : 2 ^ j ≤ w.toNat := Nat.ge_two_pow_of_testBit set
  have below : j < 64 - w.leadingZeros :=
    (Nat.pow_lt_pow_iff_right (by decide)).mp (Nat.lt_of_le_of_lt large small)
  omega

/-- The last position of a word is the one under its leading zeros. -/
theorem getLast?_positions {w : Word} (some : w ≠ 0) :
    w.positions.getLast? = .some (63 - w.leadingZeros) := by
  have listed : 63 - w.leadingZeros ∈ w.positions :=
    (w.mem_positions _).mpr (getLsbD_highest some)
  obtain ⟨before, after, split⟩ := List.append_of_mem listed
  have ordered := w.pairwise_positions
  rw [split, List.pairwise_append, List.pairwise_cons] at ordered
  -- Whatever came after it would be a higher bit.
  have last : after = [] := by
    refine List.eq_nil_iff_forall_not_mem.mpr ?_
    intro j member
    have above := ordered.2.1.1 j member
    have set : w.getLsbD j = true := (w.mem_positions j).mp (by simp [split, member])
    have notAbove := le_highest set
    omega
  rw [split, last]
  exact List.getLast?_concat

end Word

namespace StateSet

/-! ## Cursors -/

/-- What is left to list: the rest of the cursor's word, and the words after it. -/
def ahead (s : StateSet) (c : Cursor) : List Nat :=
  c.pending.positions.map (64 * c.place + ·) ++
    (List.range' (c.place + 1) (s.words.size - (c.place + 1))).flatMap fun i =>
      (s.wordAt i).positions.map (64 * i + ·)

theorem ahead_of_pending (s : StateSet) {c : Cursor} (some : c.pending ≠ 0) :
    s.ahead c = (64 * c.place + c.pending.lowest) ::
      s.ahead ⟨c.place, c.pending.clearLowest⟩ := by
  simp only [ahead]
  rw [Word.positions_eq_cons some]
  rfl

theorem ahead_of_passed (s : StateSet) {c : Cursor} (none : c.pending = 0)
    (more : c.place + 1 < s.words.size) :
    s.ahead c = s.ahead ⟨c.place + 1, s.wordAt (c.place + 1)⟩ := by
  have words : s.words.size - (c.place + 1) = s.words.size - (c.place + 1 + 1) + 1 := by omega
  have listed : c.pending.positions = [] := by simp [none]
  simp only [ahead]
  rw [listed, words, List.range'_succ]
  rfl

/-- The numbers that a cursor gives, step by step until there is no further step. -/
inductive Yields (s : StateSet) : Cursor → List Nat → Prop where
  | done {c : Cursor} (ended : s.next? c = none) : Yields s c []
  | step {c c' : Cursor} {x : Nat} {xs : List Nat} (given : s.next? c = some (x, c'))
      (rest : Yields s c' xs) : Yields s c (x :: xs)

/-- A step gives the head of what is left to list, and leaves its tail. -/
theorem next?_ahead (s : StateSet) (c : Cursor) :
    match s.next? c with
    | none => s.ahead c = []
    | some (x, c') => s.ahead c = x :: s.ahead c' := by
  fun_induction next? s c with
  | case1 c none more inductionHypothesis =>
    rw [s.ahead_of_passed none more]
    exact inductionHypothesis
  | case2 c none last =>
    have words : s.words.size - (c.place + 1) = 0 := by omega
    simp [ahead, none, words]
  | case3 c some => exact s.ahead_of_pending some

theorem yields_ahead (s : StateSet) (c : Cursor) : s.Yields c (s.ahead c) := by
  -- The induction is on what is left to list; passing over empty words leaves it as it is.
  generalize left : s.ahead c = xs
  induction xs generalizing c with
  | nil =>
    have step := s.next?_ahead c
    cases given : s.next? c with
    | none => exact .done given
    | some result =>
      rw [given] at step
      rw [step] at left
      cases left
  | cons x xs inductionHypothesis =>
    have step := s.next?_ahead c
    cases given : s.next? c with
    | none =>
      rw [given] at step
      rw [step] at left
      cases left
    | some result =>
      obtain ⟨y, c'⟩ := result
      rw [given] at step
      rw [step] at left
      obtain ⟨rfl, rest⟩ := List.cons.inj left
      exact .step given (inductionHypothesis c' rest)

theorem ahead_cursor (s : StateSet) : s.ahead s.cursor = s.toList := by
  simp only [ahead, cursor, toList]
  by_cases none : s.words.size = 0
  · have zero : s.wordAt 0 = 0 := by simp [wordAt, Array.getD, none]
    simp [none, zero]
  · obtain ⟨n, size⟩ := Nat.exists_eq_succ_of_ne_zero none
    rw [size, List.range_eq_range', List.range'_succ]
    simp

/-- From the start a cursor gives the numbers that are listed. -/
theorem cursor_yields (s : StateSet) : s.Yields s.cursor s.toList := by
  rw [← ahead_cursor]
  exact s.yields_ahead s.cursor

/-! ## The largest member -/

/-- The numbers of a word end with the one of its highest bit. -/
theorem getLast?_wordNumbers (s : StateSet) {i : Nat} (some : s.wordAt i ≠ 0) :
    ((s.wordAt i).positions.map (64 * i + ·)).getLast? =
      .some (64 * i + 63 - (s.wordAt i).leadingZeros) := by
  have inside := Word.leadingZeros_lt some
  rw [List.getLast?_map, Word.getLast?_positions some, Option.map_some]
  congr 1
  omega

/-- The search from the end finds the last number listed. -/
theorem max?_eq_getLast? (s : StateSet) : s.max? = s.toList.getLast? := by
  simp only [max?, toList]
  -- The induction is on how many words are left to search, the last one first.
  induction s.words.size with
  | zero => rfl
  | succ n inductionHypothesis =>
    rw [List.range_succ, List.reverse_append, List.flatMap_append, List.getLast?_append,
      ← inductionHypothesis, List.reverse_singleton, List.singleton_append, List.find?_cons,
      List.flatMap_singleton]
    by_cases zero : s.wordAt n = 0
    · simp [zero]
    · rw [s.getLast?_wordNumbers zero, decide_eq_true zero]
      rfl

theorem max?_eq_none {s : StateSet} : s.max? = none ↔ s.toFinset = ∅ := by
  rw [max?_eq_getLast?, List.getLast?_eq_none_iff, toFinset, List.toFinset_eq_empty_iff]

/-- The last number listed is the largest. -/
theorem max?_eq_some {s : StateSet} {x : Nat} :
    s.max? = some x ↔ IsGreatest (s.toFinset : Set Nat) x := by
  have mem {y : Nat} : y ∈ (s.toFinset : Set Nat) ↔ y ∈ s.toList := by simp [mem_toList]
  have greatest {y : Nat} (last : s.max? = some y) : IsGreatest (s.toFinset : Set Nat) y := by
    obtain ⟨front, listed⟩ := List.getLast?_eq_some_iff.mp (s.max?_eq_getLast? ▸ last)
    have ordered := s.pairwise_toList
    rw [listed, List.pairwise_append] at ordered
    refine ⟨mem.mpr (by simp [listed]), ?_⟩
    intro z member
    rw [mem, listed, List.mem_append, List.mem_singleton] at member
    obtain before | rfl := member
    · exact Nat.le_of_lt (ordered.2.2 z before y List.mem_cons_self)
    · exact Nat.le_refl z
  constructor
  · exact greatest
  · intro isGreatest
    cases last : s.max? with
    | none =>
      have member := isGreatest.1
      rw [max?_eq_none.mp last] at member
      simp at member
    | some y => rw [(greatest last).unique isGreatest]

end StateSet

end MarkovCheck
