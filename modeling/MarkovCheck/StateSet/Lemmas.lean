import MarkovCheck.StateSet.Basic

/-!
# Membership in sets of states

What each operation on sets does to `contains`, and that `toList` lists the members. After these
lemmas nothing has to look at words.
-/

namespace MarkovCheck

namespace Word

theorem getLsbD_low (k j : Nat) (h : j < 64) : (low k).getLsbD j = decide (j < k) := by
  unfold low
  split
  · next hk =>
    rw [BitVec.getLsbD_allOnes]
    have : j < k := by omega
    simp [h, this]
  · next hk =>
    have bound : k < 64 := by omega
    have value : ((1#64 <<< k) - 1#64).toNat = 2 ^ k - 1 := by
      have small : 2 ^ k < 2 ^ 64 := Nat.pow_lt_pow_right (by decide) bound
      have positive : 0 < 2 ^ k := Nat.two_pow_pos k
      rw [BitVec.toNat_sub, BitVec.toNat_shiftLeft]
      simp only [BitVec.toNat_ofNat, Nat.shiftLeft_eq]
      omega
    rw [BitVec.getLsbD, value, Nat.testBit_two_pow_sub_one]

theorem getLsbD_bit (i j : Nat) (hj : j < 64) (hi : i < 64) :
    (1#64 <<< i).getLsbD j = decide (j = i) := by
  rw [BitVec.getLsbD_shiftLeft]
  by_cases same : j = i
  · subst same; simp [hj]
  · by_cases before : j < i
    · simp [before, same]
    · have away : j - i ≠ 0 := by omega
      simp [hj, before, same, away]

/-- The positions are those of the bits that are set. -/
theorem mem_positions (w : Word) (j : Nat) : j ∈ w.positions ↔ w.getLsbD j = true := by
  simp only [positions, List.mem_filter, List.mem_range, and_iff_right_iff_imp]
  intro set
  exact Nat.lt_of_not_le fun above => by simp [BitVec.getLsbD_of_ge w j above] at set

end Word

namespace StateSet

theorem wordAt_eq_getElem? (s : StateSet) (i : Nat) : s.wordAt i = s.words[i]?.getD 0 := by
  simp [wordAt]

/-- An operation that keeps zero acts on each word. -/
theorem wordAt_combine (op : Word → Word → Word) (zero : op 0 0 = 0) (s t : StateSet) (i : Nat) :
    (combine op s t).wordAt i = op (s.wordAt i) (t.wordAt i) := by
  unfold combine wordAt
  by_cases inside : i < max s.words.size t.words.size
  · simp [Array.getD, inside]
  · have left : ¬ i < s.words.size := by omega
    have right : ¬ i < t.words.size := by omega
    simpa [Array.getD, inside, left, right] using zero.symm

@[simp] theorem contains_empty (x : Nat) : empty.contains x = false := by
  simp [contains, wordAt, empty, Array.getD]

@[simp] theorem contains_withCapacity (n x : Nat) : (withCapacity n).contains x = false := by
  have zero : (withCapacity n).wordAt (x / 64) = 0 := by
    by_cases inside : x / 64 < wordsFor n <;> simp [wordAt_eq_getElem?, withCapacity, inside]
  rw [contains, zero]
  simp

@[simp] theorem contains_union (s t : StateSet) (x : Nat) :
    (s.union t).contains x = (s.contains x || t.contains x) := by
  rw [contains, union, wordAt_combine _ (by decide), BitVec.getLsbD_or]
  rfl

@[simp] theorem contains_inter (s t : StateSet) (x : Nat) :
    (s.inter t).contains x = (s.contains x && t.contains x) := by
  rw [contains, inter, wordAt_combine _ (by decide), BitVec.getLsbD_and]
  rfl

@[simp] theorem contains_diff (s t : StateSet) (x : Nat) :
    (s.diff t).contains x = (s.contains x && !t.contains x) := by
  rw [contains, diff, wordAt_combine _ (by decide), BitVec.getLsbD_and, BitVec.getLsbD_not]
  have below : x % 64 < 64 := Nat.mod_lt _ (by decide)
  simp [contains, below]

@[simp] theorem contains_full (n x : Nat) : (full n).contains x = decide (x < n) := by
  have below : x % 64 < 64 := Nat.mod_lt _ (by decide)
  by_cases inside : x / 64 < wordsFor n
  · have word : (full n).wordAt (x / 64) = Word.low (n - 64 * (x / 64)) := by
      simp [wordAt_eq_getElem?, full, inside]
    rw [contains, word, Word.getLsbD_low _ _ below]
    apply decide_eq_decide.mpr
    omega
  · have word : (full n).wordAt (x / 64) = 0 := by
      simp [wordAt_eq_getElem?, full, inside]
    have above : ¬ x < n := by unfold wordsFor at inside; omega
    rw [contains, word]
    simp [above]

@[simp] theorem contains_complement (s : StateSet) (n x : Nat) :
    (s.complement n).contains x = (decide (x < n) && !s.contains x) := by
  rw [complement, contains_diff, contains_full]

theorem wordAt_grown (words : Array Word) (k i : Nat) :
    (words ++ Array.replicate k (0 : Word))[i]?.getD 0 = words[i]?.getD 0 := by
  rw [Array.getElem?_append]
  split
  · rfl
  · next above =>
    by_cases inside : i - words.size < k <;>
      simp [inside, Array.getElem?_eq_none (Nat.le_of_not_lt above)]

/-- Growing a row of words and setting one bit sets that bit and no other. -/
theorem contains_setBit (words : Array Word) (x y n m k : Nat)
    (room : x / 64 < words.size + k) :
    (⟨(words ++ Array.replicate k (0 : Word)).modify (x / 64) (· ||| (1#64 <<< (x % 64))), n⟩ :
        StateSet).contains y
      = (decide (y = x) || (⟨words, m⟩ : StateSet).contains y) := by
  have below : y % 64 < 64 := Nat.mod_lt _ (by decide)
  have belowX : x % 64 < 64 := Nat.mod_lt _ (by decide)
  simp only [contains, wordAt_eq_getElem?]
  by_cases sameWord : x / 64 = y / 64
  · have roomY : y / 64 < (words ++ Array.replicate k (0 : Word)).size := by
      simp only [Array.size_append, Array.size_replicate]
      omega
    rw [sameWord, Array.getElem?_eq_getElem (by simpa using roomY), Array.getElem_modify_self,
      Option.getD_some, BitVec.getLsbD_or, Word.getLsbD_bit _ _ below belowX]
    have old : (words ++ Array.replicate k (0 : Word))[y / 64] = words[y / 64]?.getD 0 := by
      rw [← wordAt_grown words k (y / 64), Array.getElem?_eq_getElem roomY, Option.getD_some]
    rw [old, Bool.or_comm]
    congr 1
    apply decide_eq_decide.mpr
    omega
  · have different : y ≠ x := fun same => sameWord (by rw [same])
    have untouched : ((words ++ Array.replicate k (0 : Word)).modify (x / 64)
        (· ||| (1#64 <<< (x % 64))))[y / 64]?
          = (words ++ Array.replicate k (0 : Word))[y / 64]? := by
      rw [Array.getElem?_modify, if_neg sameWord]
    rw [untouched, wordAt_grown]
    simp [different]

@[simp] theorem contains_insert (s : StateSet) (x y : Nat) :
    (s.insert x).contains y = (decide (y = x) || s.contains y) := by
  unfold insert insertNew
  by_cases present : s.contains x = true
  · rw [if_pos present]
    have grown : (⟨s.words ++ Array.replicate (x / 64 + 1 - s.words.size) (0 : Word), s.size⟩ :
        StateSet).contains y = s.contains y := by
      simp only [contains, wordAt_eq_getElem?, wordAt_grown]
    rw [grown]
    by_cases same : y = x <;> simp [same, present]
  · rw [if_neg present]
    exact contains_setBit s.words x y (s.size + 1) s.size _ (by omega)

theorem contains_extend (s : StateSet) (xs : List Nat) (y : Nat) :
    (s.extend xs).contains y = (xs.contains y || s.contains y) := by
  induction xs generalizing s with
  | nil => simp [extend]
  | cons x xs inductionHypothesis =>
    have step : s.extend (x :: xs) = (s.insert x).extend xs := rfl
    rw [step, inductionHypothesis, contains_insert, List.contains_cons]
    by_cases same : y = x
    · simp [same]
    · have apart : (y == x) = false := by simpa using same
      simp [same, apart]

/-- The set of a list has the members of the list. -/
theorem contains_ofList (xs : List Nat) (y : Nat) : (ofList xs).contains y = xs.contains y := by
  rw [ofList, contains_extend, contains_empty, Bool.or_false]

/-- The list of a set has the members of the set. -/
theorem mem_toList (s : StateSet) (x : Nat) : x ∈ s.toList ↔ s.contains x = true := by
  simp only [toList, List.mem_flatMap, List.mem_range, List.mem_map, Word.mem_positions, contains]
  constructor
  · rintro ⟨i, inside, j, set, rfl⟩
    have below : j < 64 := Nat.lt_of_not_le fun above => by
      simp [BitVec.getLsbD_of_ge _ j above] at set
    have quotient : (64 * i + j) / 64 = i := by omega
    have remainder : (64 * i + j) % 64 = j := by omega
    rw [quotient, remainder]
    exact set
  · intro set
    have inside : x / 64 < s.words.size := Nat.lt_of_not_le fun above => by
      simp [wordAt_eq_getElem?, Array.getElem?_eq_none above] at set
    exact ⟨x / 64, inside, x % 64, set, Nat.div_add_mod x 64⟩

end StateSet
end MarkovCheck
