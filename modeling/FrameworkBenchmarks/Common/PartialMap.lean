import Mathlib.Data.Finset.Card
import Mathlib.Data.Finset.Range

/-!
# Partial maps

A hash map read and written by key is modelled as the function that returns the stored value.
-/

namespace FrameworkBenchmarks.Common

/-- A finite map seen through its lookup function. -/
abbrev PartialMap (κ ν : Type*) := κ → Option ν

namespace PartialMap

variable {κ ν : Type*} [DecidableEq κ]

/-- The map without any entry. -/
def empty : PartialMap κ ν := fun _ => none

/-- Store a value, replacing an earlier one under the same key. -/
def insert (m : PartialMap κ ν) (k : κ) (v : ν) : PartialMap κ ν :=
  fun j => if j = k then some v else m j

/-- Drop the entry of a key. -/
def erase (m : PartialMap κ ν) (k : κ) : PartialMap κ ν :=
  fun j => if j = k then none else m j

omit [DecidableEq κ] in
@[simp] theorem empty_apply (k : κ) : (empty : PartialMap κ ν) k = none := rfl

theorem insert_apply (m : PartialMap κ ν) (k j : κ) (v : ν) :
    m.insert k v j = if j = k then some v else m j := rfl

theorem erase_apply (m : PartialMap κ ν) (k j : κ) :
    m.erase k j = if j = k then none else m j := rfl

@[simp] theorem insert_self (m : PartialMap κ ν) (k : κ) (v : ν) : m.insert k v k = some v := by
  simp [insert]

@[simp] theorem insert_of_ne (m : PartialMap κ ν) {k j : κ} (v : ν) (h : j ≠ k) :
    m.insert k v j = m j := by
  simp [insert, h]

/-- Storing what is there already. -/
theorem insert_eq_self {m : PartialMap κ ν} {k : κ} {v : ν} (h : m k = some v) : m.insert k v = m := by
  funext j
  rw [insert_apply]
  split
  · rename_i heq
    rw [heq, h]
  · rfl

@[simp] theorem insert_insert (m : PartialMap κ ν) (k : κ) (v v' : ν) :
    (m.insert k v).insert k v' = m.insert k v' := by
  funext j
  simp only [insert_apply]
  split <;> rfl

@[simp] theorem erase_self (m : PartialMap κ ν) (k : κ) : m.erase k k = none := by
  simp [erase]

@[simp] theorem erase_of_ne (m : PartialMap κ ν) {k j : κ} (h : j ≠ k) : m.erase k j = m j := by
  simp [erase, h]

/-- How many of the keys below a bound have an entry. -/
def count {ν : Type*} (m : PartialMap ℕ ν) : ℕ → ℕ
  | 0 => 0
  | n + 1 => count m n + if (m n).isSome then 1 else 0

section count

variable {m m' : PartialMap ℕ ν} {k n : ℕ} {v : ν}

/-- Only which keys have an entry matters. -/
theorem count_congr (h : ∀ j < n, (m' j).isSome = (m j).isSome) : m'.count n = m.count n := by
  induction n with
  | zero => rfl
  | succ n ih =>
    rw [count, count, ih fun j hj => h j (Nat.lt_succ_of_lt hj), h n (Nat.lt_succ_self n)]

/-- Replacing an entry. -/
theorem count_insert_of_isSome (h : (m k).isSome) : (m.insert k v).count n = m.count n := by
  refine count_congr fun j _ => ?_
  by_cases heq : j = k
  · rw [heq, insert_self, h]
    rfl
  · rw [insert_of_ne m v heq]

/-- Adding the entry of the next key. -/
theorem count_insert_next : (m.insert n v).count (n + 1) = m.count n + 1 := by
  rw [count, insert_self, count_congr fun j hj => by rw [insert_of_ne m v (Nat.ne_of_lt hj)]]
  rfl

/-- Dropping an entry. -/
theorem count_erase (hk : k < n) (h : (m k).isSome) : (m.erase k).count n + 1 = m.count n := by
  induction n with
  | zero => omega
  | succ n ih =>
    rw [count, count]
    by_cases heq : k = n
    · subst heq
      rw [erase_self, count_congr fun j hj => by rw [erase_of_ne m (Nat.ne_of_lt hj)], if_pos h]
      rfl
    · rw [erase_of_ne m (Ne.symm heq), ← ih (by omega)]
      omega

theorem count_pos (hk : k < n) (h : (m k).isSome) : 0 < m.count n := by
  rw [← count_erase hk h]
  exact Nat.succ_pos _

/-- The keys with an entry, when a bound of them is known. -/
theorem exists_finset (h : ∀ j, n ≤ j → m j = none) :
    ∃ keys : Finset ℕ, (∀ j, j ∈ keys ↔ (m j).isSome) ∧ keys.card = m.count n := by
  have hcard : ∀ n, ((Finset.range n).filter fun j => (m j).isSome).card = m.count n := by
    intro n
    induction n with
    | zero => rfl
    | succ n ih =>
      rw [Finset.range_add_one, Finset.filter_insert, count, ← ih]
      split
      · rw [Finset.card_insert_of_notMem (by simp)]
      · rfl
  refine ⟨_, fun j => ?_, hcard n⟩
  rw [Finset.mem_filter, Finset.mem_range]
  refine ⟨fun hj => hj.2, fun hj => ⟨?_, hj⟩⟩
  by_contra hle
  rw [h j (Nat.le_of_not_lt hle)] at hj
  cases hj

/-- Where something is counted there is an entry. -/
theorem exists_of_count_pos (h : 0 < m.count n) : ∃ k < n, (m k).isSome := by
  induction n with
  | zero => simp [count] at h
  | succ n ih =>
    by_cases hn : (m n).isSome
    · exact ⟨n, Nat.lt_succ_self n, hn⟩
    · simp only [count, hn, Bool.false_eq_true, if_false, Nat.add_zero] at h
      obtain ⟨k, hk, hsome⟩ := ih h
      exact ⟨k, Nat.lt_succ_of_lt hk, hsome⟩

end count

end PartialMap

end FrameworkBenchmarks.Common
