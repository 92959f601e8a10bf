import Mathlib.Data.Finset.Card
import Mathlib.Data.Finset.Dedup
import MarkovCheck.StateSet.Lemmas

/-!
# Sets of states as finite sets

The members of a set of states as a finite set of numbers, listed by `toList` in increasing order,
and counted by `size`: an insertion counts a new member, and combining two sets counts anew.
-/

namespace MarkovCheck

theorem Word.pairwise_positions (w : Word) : w.positions.Pairwise (· < ·) :=
  List.Pairwise.filter _ List.pairwise_lt_range

namespace StateSet

theorem pairwise_toList (s : StateSet) : s.toList.Pairwise (· < ·) := by
  refine List.pairwise_flatMap.mpr ⟨?_, ?_⟩
  · intro i _
    refine List.Pairwise.map _ ?_ (s.wordAt i).pairwise_positions
    intro j k before
    omega
  · -- Every position is below 64, so the numbers of one word are below those of the next.
    refine List.Pairwise.imp ?_ List.pairwise_lt_range
    intro i i' before x inFirst y inSecond
    obtain ⟨j, position, rfl⟩ := List.mem_map.mp inFirst
    obtain ⟨j', _, rfl⟩ := List.mem_map.mp inSecond
    have below : j < 64 := List.mem_range.mp (List.mem_of_mem_filter position)
    omega

theorem nodup_toList (s : StateSet) : s.toList.Nodup :=
  s.pairwise_toList.imp fun before => Nat.ne_of_lt before

def toFinset (s : StateSet) : Finset Nat := s.toList.toFinset

@[simp] theorem mem_toFinset {s : StateSet} {x : Nat} :
    x ∈ s.toFinset ↔ s.contains x = true := by
  rw [toFinset, List.mem_toFinset, mem_toList]

/-- The set of the members. -/
def members (s : StateSet) : Set Nat := {x | s.contains x = true}

@[simp] theorem mem_members {s : StateSet} {x : Nat} :
    x ∈ s.members ↔ s.contains x = true := Iff.rfl

/-! ## Sets of numbers below a bound -/

/-- All members are below `n`. -/
def Within (s : StateSet) (n : Nat) : Prop := ∀ x, s.contains x = true → x < n

theorem Within.union {s t : StateSet} {n : Nat} (left : s.Within n) (right : t.Within n) :
    (s.union t).Within n := by
  intro x member
  rw [contains_union, Bool.or_eq_true] at member
  exact member.elim (left x) (right x)

theorem within_ofList (xs : List Nat) {n : Nat} (below : ∀ x ∈ xs, x < n) :
    (ofList xs).Within n := by
  intro x member
  rw [contains_ofList, List.contains_iff_mem] at member
  exact below x member

theorem within_empty (n : Nat) : empty.Within n := by
  intro x member
  rw [contains_empty] at member
  cases member

theorem within_complement (s : StateSet) (n : Nat) : (s.complement n).Within n := by
  intro x member
  rw [contains_complement, Bool.and_eq_true] at member
  exact of_decide_eq_true member.1

theorem Within.subset_range {s : StateSet} {n : Nat} (within : s.Within n) :
    s.toFinset ⊆ Finset.range n := by
  intro x member
  exact Finset.mem_range.mpr (within x (mem_toFinset.mp member))

/-! ## Sizes -/

/-- The size is the number of members. -/
def Counted (s : StateSet) : Prop := s.size = s.toFinset.card

theorem counted_withCapacity (n : Nat) : (withCapacity n).Counted := by
  have none : (withCapacity n).toFinset = ∅ := by
    apply Finset.eq_empty_of_forall_notMem
    intro x member
    simp at member
  rw [Counted, none]
  rfl

theorem size_insert (s : StateSet) (x : Nat) :
    (s.insert x).size = if s.contains x = true then s.size else s.size + 1 := by
  simp only [insert, insertNew]
  split
  · rfl
  · rfl

theorem toFinset_insert (s : StateSet) (x : Nat) : (s.insert x).toFinset = {x} ∪ s.toFinset := by
  ext y
  simp

theorem Counted.insert {s : StateSet} (counted : s.Counted) (x : Nat) : (s.insert x).Counted := by
  rw [Counted, size_insert, toFinset_insert, counted]
  split
  · next present =>
    -- A member is not counted again.
    have member : {x} ⊆ s.toFinset := by simpa using present
    rw [Finset.union_eq_right.mpr member]
  · next absent =>
    have fresh : x ∉ s.toFinset := by simpa using absent
    rw [Finset.singleton_union, Finset.card_insert_of_notMem fresh]

theorem Counted.extend {s : StateSet} (counted : s.Counted) (xs : List Nat) :
    (s.extend xs).Counted := by
  induction xs generalizing s with
  | nil => exact counted
  | cons x xs inductionHypothesis => exact inductionHypothesis (counted.insert x)

theorem counted_ofList (xs : List Nat) : (ofList xs).Counted :=
  Counted.extend (counted_withCapacity 0) xs

theorem toFinset_full (n : Nat) : (full n).toFinset = Finset.range n := by
  ext x
  simp

theorem counted_full (n : Nat) : (full n).Counted := by
  rw [Counted, toFinset_full, Finset.card_range]
  rfl

/-- The populations of the words add up to the number of members. -/
theorem card_toFinset (s : StateSet) :
    s.toFinset.card = (s.words.toList.map Word.population).foldl (· + ·) 0 := by
  have words : (List.range s.words.size).map s.wordAt = s.words.toList := by
    apply List.ext_getElem (by simp)
    intro i inside inside'
    have bound : i < s.words.size := by simpa using inside'
    simp [wordAt, Array.getD, bound]
  rw [toFinset, List.toFinset_card_of_nodup s.nodup_toList, toList, List.length_flatMap, ← words,
    List.map_map, ← List.sum_eq_foldl]
  congr 1
  apply List.map_congr_left
  intro i _
  simp [Word.positions, Word.population, List.countP_eq_length_filter]

theorem counted_combine (op : Word → Word → Word) (s t : StateSet) :
    (combine op s t).Counted := by
  rw [Counted, card_toFinset, List.foldl_map, Array.foldl_toList]
  rfl

end StateSet

end MarkovCheck
