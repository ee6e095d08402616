import Mathlib.Data.Nat.Notation
import Mathlib.Tactic.ByContra

/-!
# Bit sets

A set of small numbers is kept in an array of words, one bit a number.
-/

namespace FrameworkBenchmarks.Common

variable {w : ℕ}

/-- The array of words, all zero, for a number of bits. -/
def emptyBitset (w bits : ℕ) : List (BitVec w) := List.replicate ((bits + w - 1) / w) 0

/-- The number of bits of the array. -/
def bitCount (words : List (BitVec w)) : ℕ := words.length * w

/-- Whether a number is in the set. -/
def testBit (words : List (BitVec w)) (i : ℕ) : Bool := (words.getD (i / w) 0).getLsbD (i % w)

/-- The array with the bit of a number set. -/
def setBit (words : List (BitVec w)) (i : ℕ) : List (BitVec w) :=
  words.set (i / w) (words.getD (i / w) 0 ||| 1#w <<< (i % w))

/-- A word as C tests it: shifted to the right and masked. -/
theorem shifted_and_one {word : BitVec w} (hw : 0 < w) (n : ℕ) :
    (word >>> n &&& 1#w ≠ 0#w) ↔ word.getLsbD n = true := by
  constructor
  · intro hne
    by_contra hbit
    apply hne
    apply BitVec.eq_of_getLsbD_eq
    intro i _
    by_cases hi : i = 0
    · simp [hi, hbit]
    · simp [hi]
  · intro hbit hzero
    have hlow := congrArg (fun word => word.getLsbD 0) hzero
    simp [hbit, hw] at hlow

theorem le_bitCount_emptyBitset (hw : 0 < w) (bits : ℕ) : bits ≤ bitCount (emptyBitset w bits) := by
  have hdiv := Nat.div_add_mod (bits + w - 1) w
  have hmod := Nat.mod_lt (bits + w - 1) hw
  rw [bitCount, emptyBitset, List.length_replicate, Nat.mul_comm]
  omega

@[simp] theorem testBit_emptyBitset (bits i : ℕ) : testBit (emptyBitset w bits) i = false := by
  have hzero : (emptyBitset w bits).getD (i / w) 0 = 0 := by
    rw [emptyBitset, List.getD_eq_getElem?_getD, List.getElem?_replicate]
    split <;> rfl
  rw [testBit, hzero]
  exact BitVec.getLsbD_zero

@[simp] theorem bitCount_setBit (words : List (BitVec w)) (i : ℕ) :
    bitCount (setBit words i) = bitCount words := by
  rw [bitCount, setBit, List.length_set, bitCount]

theorem div_lt_length {words : List (BitVec w)} {i : ℕ} (h : i < bitCount words) :
    i / w < words.length := Nat.div_lt_of_lt_mul (by rwa [Nat.mul_comm])

theorem testBit_setBit {words : List (BitVec w)} {i : ℕ} (h : i < bitCount words) (j : ℕ) :
    testBit (setBit words i) j = (testBit words j || decide (j = i)) := by
  have hw : 0 < w := Nat.pos_of_ne_zero fun hw => by simp [bitCount, hw] at h
  have hlength := div_lt_length h
  by_cases hword : j / w = i / w
  · have hget : (setBit words i).getD (j / w) 0 =
        words.getD (i / w) 0 ||| 1#w <<< (i % w) := by
      rw [setBit, hword, List.getD_eq_getElem?_getD, List.getElem?_set_self hlength]
      rfl
    have hsame : j = i ↔ j % w = i % w := by
      refine ⟨fun heq => by rw [heq], fun hmod => ?_⟩
      rw [← Nat.div_add_mod j w, hword, hmod, Nat.div_add_mod]
    have hj : j % w < w := Nat.mod_lt j hw
    rw [testBit, hget, BitVec.getLsbD_or, testBit, hword, BitVec.getLsbD_shiftLeft]
    congr 1
    apply Bool.eq_iff_iff.mpr
    simp only [BitVec.getLsbD_one, hj, hw, decide_true, Bool.true_and, Bool.and_eq_true,
      Bool.not_eq_true', decide_eq_false_iff_not, decide_eq_true_eq]
    omega
  · have hget : (setBit words i).getD (j / w) 0 = words.getD (j / w) 0 := by
      rw [setBit, List.getD_eq_getElem?_getD, List.getElem?_set_ne (Ne.symm hword),
        List.getD_eq_getElem?_getD]
    have hne : j ≠ i := fun heq => hword (by rw [heq])
    rw [testBit, hget, decide_eq_false hne, Bool.or_false, testBit]

end FrameworkBenchmarks.Common
