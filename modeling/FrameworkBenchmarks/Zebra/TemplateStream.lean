import FrameworkBenchmarks.Common.Digits
import Mathlib.Data.Nat.Notation
import Mathlib.Tactic.IntervalCases

/-!
# Numbers in a template

`Stream.Write(int)` divides by the powers of ten in turn; `v` is what is left of the number.
-/

namespace FrameworkBenchmarks.Zebra

open Common

/-- The conversion `byte`. -/
def byte (v : Int32) : UInt8 := v.toUInt32.toUInt8

/-- The inline function `check`, on `v` and the bytes written so far. -/
def check (s : Int32 × List UInt8) (divisor : Int32) : Int32 × List UInt8 :=
  if s.1 ≥ divisor then (s.1 % divisor, s.2 ++ [48 + byte (s.1 / divisor)]) else s

/-- The arguments of the calls of `check`, in their order. -/
def divisors : List Int32 :=
  [1000000000, 100000000, 10000000, 1000000, 100000, 10000, 1000, 100, 10]

/-- `Stream.Write(int)` -/
def writeInt (value : Int32) : List UInt8 :=
  let s := if value < 0 then (~~~value + 1, [45]) else (value, [])
  let s := divisors.foldl check s
  s.2 ++ [48 + byte s.1]

/-- The decimal representation of a number, in ASCII. -/
def decimal (v : Int) : List UInt8 := (toString v).toList.map fun c => c.val.toUInt8

section Remainder

/-- The digit of a small number. -/
def digit (d : ℕ) : UInt8 := 48 + UInt8.ofNat d

/-- The conversion keeps the lowest byte. -/
theorem byte_of_toInt {v : Int32} {n : ℕ} (hv : v.toInt = n) : byte v = UInt8.ofNat n := by
  have heq : v = Int32.ofNat n := by
    rw [← Int32.ofInt_toInt v, hv]
    rfl
  rw [heq]
  apply UInt8.toNat.inj
  simp [byte]

/-- A division writes its quotient, which is a digit, and leaves the remainder. -/
theorem check_eq {v divisor : Int32} {n m : ℕ} (out : List UInt8) (hv : v.toInt = n)
    (hdivisor : divisor.toInt = m) :
    (check (v, out) divisor).1.toInt = (n % m : ℕ) ∧
      (check (v, out) divisor).2 = out ++ if m ≤ n then [digit (n / m)] else [] := by
  have hge : v ≥ divisor ↔ m ≤ n := by
    rw [ge_iff_le, Int32.le_iff_toInt_le, hv, hdivisor, Int.ofNat_le]
  have hne : v ≠ Int32.minValue := by
    intro heq
    rw [heq, Int32.toInt_minValue] at hv
    omega
  have hdiv : (v / divisor).toInt = (n / m : ℕ) := by
    rw [Int32.toInt_div_of_ne_left v divisor hne, hv, hdivisor, Int.ofNat_tdiv]
  rw [check, byte_of_toInt hdiv]
  simp only [hge]
  split
  · rw [Int32.toInt_mod, hv, hdivisor, Int.ofNat_tmod]
    exact ⟨rfl, rfl⟩
  · rename_i hlt
    rw [Nat.mod_eq_of_lt (Nat.not_le.mp hlt), List.append_nil]
    exact ⟨hv, rfl⟩

/-- Dividing by falling powers of ten writes the digits before the last, without the zeros. -/
theorem foldl_check {v : Int32} {n k : ℕ} (out : List UInt8) {ds : List Int32} (hv : v.toInt = n)
    (hds : ds.map Int32.toInt = (List.range k).reverse.map fun i => ((10 ^ (i + 1) : ℕ) : Int)) :
    (ds.foldl check (v, out)).1.toInt = (if k = 0 then n else n % 10 : ℕ) ∧
      (ds.foldl check (v, out)).2 = out ++ (digitsFromTop 10 k (n / 10)).map digit := by
  induction k generalizing v n out ds with
  | zero =>
    obtain rfl := List.map_eq_nil_iff.mp hds
    rw [List.foldl_nil, digitsFromTop, List.map_nil, List.append_nil]
    exact ⟨hv, rfl⟩
  | succ k ih =>
    rw [List.range_succ, List.reverse_append, List.reverse_singleton, List.singleton_append,
      List.map_cons] at hds
    obtain ⟨d, ds, rfl, hd, hds⟩ := List.map_eq_cons_iff.mp hds
    obtain ⟨hrest, hout⟩ := check_eq out hv hd
    obtain ⟨hlast, hdigits⟩ := ih (check (v, out) d).2 hrest hds
    rw [List.foldl_cons]
    constructor
    · rw [if_neg (Nat.succ_ne_zero k), hlast]
      split
      · rename_i hzero
        rw [hzero]
        rfl
      · rw [Nat.mod_mod_of_dvd n (dvd_pow_self 10 (Nat.succ_ne_zero k))]
    · have hle : 10 ^ (k + 1) ≤ n ↔ 10 ^ k ≤ n / 10 := by
        rw [Nat.le_div_iff_mul_le (by omega), Nat.pow_succ]
      have hdigit : n / 10 ^ (k + 1) = n / 10 / 10 ^ k := by
        rw [Nat.div_div_eq_div_mul, Nat.pow_succ, Nat.mul_comm]
      have hrest : n % 10 ^ (k + 1) / 10 = n / 10 % 10 ^ k := by
        rw [Nat.pow_succ, Nat.mul_comm, Nat.mod_mul_right_div_self]
      rw [hdigits, hout, digitsFromTop, List.map_append, List.append_assoc, hrest, hdigit]
      simp only [hle]
      split
      · rfl
      · rfl

end Remainder

section Decimal

/-- The digits of a number, in ASCII. -/
theorem decimal_natCast (n : ℕ) :
    decimal n = (Nat.digits 10 (n / 10)).reverse.map digit ++ [digit (n % 10)] := by
  have hdigit : ∀ d < 10, (Nat.digitChar d).val.toUInt8 = digit d := by
    intro d hd
    interval_cases d <;> rfl
  have hchars : (toString (n : Int)).toList = Nat.toDigits 10 n := Nat.toList_repr
  rw [decimal, hchars, toDigits_eq (by omega), List.map_append, List.map_map]
  congr 1
  · apply List.map_congr_left
    intro d hd
    exact hdigit d (Nat.digits_lt_base (by omega) (List.mem_reverse.mp hd))
  · rw [List.map_singleton, hdigit (n % 10) (Nat.mod_lt n (by omega))]

/-- A negative number has the digits of its absolute value behind the sign. -/
theorem decimal_neg {n : ℕ} (hn : n ≠ 0) : decimal (-n) = 45 :: decimal n := by
  obtain ⟨m, rfl⟩ := Nat.exists_eq_succ_of_ne_zero hn
  have hneg : (toString (-(m.succ : Int))).toList = '-' :: (toString (m.succ : Int)).toList := by
    rw [Int.neg_ofNat_succ]
    exact String.toList_append
  rw [decimal, hneg]
  rfl

end Decimal

section Write

/-- What is written behind the sign: the digits but the last without the zeros, and the last one. -/
theorem writeDigits_eq {v : Int32} {n : ℕ} (out : List UInt8) (hv : v.toInt = n) :
    (divisors.foldl check (v, out)).2 ++ [48 + byte (divisors.foldl check (v, out)).1] =
      out ++ ((digitsFromTop 10 9 (n / 10)).map digit ++ [digit (n % 10)]) := by
  have hds : divisors.map Int32.toInt =
      (List.range 9).reverse.map fun i => ((10 ^ (i + 1) : ℕ) : Int) := by
    decide
  obtain ⟨hlast, hdigits⟩ := foldl_check out hv hds
  rw [byte_of_toInt hlast, hdigits, List.append_assoc]
  rfl

/-- The digits but the last are at most nine. -/
theorem div_ten_lt {v : Int32} {n : ℕ} (hv : v.toInt = n) : n / 10 < 10 ^ 9 := by
  have hlt := v.toInt_lt
  omega

/-- The bytes behind the sign are right exactly if the number has no zero before its last digit. -/
theorem writeDigits_eq_iff {v : Int32} {n : ℕ} (out : List UInt8) (hv : v.toInt = n) :
    (divisors.foldl check (v, out)).2 ++ [48 + byte (divisors.foldl check (v, out)).1] =
        out ++ decimal n ↔ 0 ∉ Nat.digits 10 (n / 10) := by
  rw [writeDigits_eq out hv, decimal_natCast, List.append_cancel_left_eq,
    ← digitsFromTop_map_eq_iff digit (by omega) (div_ten_lt hv)]
  exact List.append_left_inj _

/-- The bytes behind the sign are ASCII characters. -/
theorem writeDigits_lt {v : Int32} {n : ℕ} {out : List UInt8} (hv : v.toInt = n)
    (hout : ∀ b ∈ out, b < 128) :
    ∀ b ∈ (divisors.foldl check (v, out)).2 ++ [48 + byte (divisors.foldl check (v, out)).1],
      b < 128 := by
  have hdigit : ∀ d < 10, digit d < 128 := by
    intro d hd
    interval_cases d <;> decide
  rw [writeDigits_eq out hv, digitsFromTop_eq (by omega) 9 (n / 10) (div_ten_lt hv)]
  intro b hb
  rcases List.mem_append.mp hb with hfirst | hrest
  · exact hout b hfirst
  · rcases List.mem_append.mp hrest with hmem | hlast
    · obtain ⟨d, hd, rfl⟩ := List.mem_map.mp hmem
      have hd := (List.mem_filter.mp (List.mem_reverse.mp hd)).1
      exact hdigit d (Nat.digits_lt_base (by omega) hd)
    · rw [List.mem_singleton.mp hlast]
      exact hdigit (n % 10) (Nat.mod_lt n (by omega))

/-- The complement and one more is the negation, but for the smallest number. -/
theorem toInt_not_add_one {v : Int32} (hmin : v ≠ Int32.minValue) : (~~~v + 1).toInt = -v.toInt := by
  have hlow := v.le_toInt
  have hhigh := v.toInt_lt
  have hne : v.toInt ≠ -2 ^ 31 := by
    rw [← Int32.toInt_minValue]
    exact fun heq => hmin (Int32.toInt_inj.mp heq)
  rw [← Int32.neg_eq_not_add, Int32.toInt_neg]
  apply Int.bmod_eq_of_le
  · omega
  · omega

/-- A number is written in ASCII characters. -/
theorem writeInt_lt (v : Int32) : ∀ b ∈ writeInt v, b < 128 := by
  by_cases hmin : v = Int32.minValue
  · rw [hmin]
    decide +kernel
  · rw [writeInt]
    by_cases hneg : v < 0
    · rw [if_pos hneg]
      rw [Int32.lt_iff_toInt_lt, Int32.toInt_zero] at hneg
      have hnot : (~~~v + 1).toInt = v.toInt.natAbs := by
        rw [toInt_not_add_one hmin]
        omega
      apply writeDigits_lt hnot
      intro b hb
      rw [List.mem_singleton.mp hb]
      decide
    · rw [if_neg hneg]
      rw [Int32.lt_iff_toInt_lt, Int32.toInt_zero] at hneg
      have habs : v.toInt = v.toInt.natAbs := by omega
      exact writeDigits_lt habs fun _ hb => (by cases hb)

end Write

/-- A number is written in decimal exactly if it is not the smallest one and none of its digits but
the last is zero. -/
theorem writeInt_eq_decimal_iff (v : Int32) :
    writeInt v = decimal v.toInt ↔
      v ≠ Int32.minValue ∧ 0 ∉ Nat.digits 10 (v.toInt.natAbs / 10) := by
  by_cases hmin : v = Int32.minValue
  · subst hmin
    simp only [ne_eq, not_true_eq_false, false_and, iff_false]
    decide +kernel
  · rw [writeInt]
    by_cases hneg : v < 0
    · rw [Int32.lt_iff_toInt_lt, Int32.toInt_zero] at hneg
      have hnot : (~~~v + 1).toInt = v.toInt.natAbs := by
        rw [toInt_not_add_one hmin]
        omega
      have habs : v.toInt = -(v.toInt.natAbs : Int) := by omega
      have hdecimal : decimal v.toInt = [45] ++ decimal (v.toInt.natAbs : Int) := by
        conv_lhs => rw [habs]
        exact decimal_neg (by omega)
      rw [if_pos (Int32.lt_iff_toInt_lt.mpr hneg), hdecimal]
      exact (writeDigits_eq_iff [45] hnot).trans (and_iff_right hmin).symm
    · have habs : v.toInt = v.toInt.natAbs := by
        rw [Int32.lt_iff_toInt_lt, Int32.toInt_zero] at hneg
        omega
      have hdecimal : decimal v.toInt = [] ++ decimal (v.toInt.natAbs : Int) := by
        conv_lhs => rw [habs]
        rfl
      rw [if_neg hneg, hdecimal]
      exact (writeDigits_eq_iff [] habs).trans (and_iff_right hmin).symm

/-- The zeros of a round number are missing, and so are all the digits of the smallest number. -/
theorem writeInt_zeros :
    writeInt 100 = [49, 48] ∧ writeInt 100 ≠ decimal 100 ∧ writeInt 0 = decimal 0 ∧
      writeInt Int32.minValue = [45, 48] := by
  decide +kernel

end FrameworkBenchmarks.Zebra
