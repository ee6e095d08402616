import Mathlib.Data.Int.Notation

/-!
# Machine integers that wrap around

Arithmetic on machine integers is arithmetic on the integers, reduced once at the end.
-/

namespace FrameworkBenchmarks.Common

/-- A type of machine integers: integers are reduced to it, and those in its bounds are kept. -/
class WrappingInt (I : Type) [Add I] [Sub I] [Mul I] [Neg I] where
  ofInt : ℤ → I
  toInt : I → ℤ
  minInt : ℤ
  maxInt : ℤ
  ofInt_add : ∀ m n, ofInt (m + n) = ofInt m + ofInt n
  ofInt_sub : ∀ m n, ofInt (m - n) = ofInt m - ofInt n
  ofInt_mul : ∀ m n, ofInt (m * n) = ofInt m * ofInt n
  ofInt_neg : ∀ n, ofInt (-n) = -ofInt n
  toInt_inj : ∀ {a b}, toInt a = toInt b → a = b
  toInt_ofInt : ∀ {n}, minInt ≤ n → n ≤ maxInt → toInt (ofInt n) = n

instance : WrappingInt Int32 where
  ofInt := Int32.ofInt
  toInt := Int32.toInt
  minInt := -2 ^ 31
  maxInt := 2 ^ 31 - 1
  ofInt_add := Int32.ofInt_add
  ofInt_sub := Int32.ofInt_sub
  ofInt_mul := Int32.ofInt_mul
  ofInt_neg := Int32.ofInt_neg
  toInt_inj := Int32.toInt_inj.mp
  toInt_ofInt := fun hmin hmax => Int32.toInt_ofInt_of_le hmin (Int.lt_of_le_sub_one hmax)

instance : WrappingInt Int64 where
  ofInt := Int64.ofInt
  toInt := Int64.toInt
  minInt := -2 ^ 63
  maxInt := 2 ^ 63 - 1
  ofInt_add := Int64.ofInt_add
  ofInt_sub := Int64.ofInt_sub
  ofInt_mul := Int64.ofInt_mul
  ofInt_neg := Int64.ofInt_neg
  toInt_inj := Int64.toInt_inj.mp
  toInt_ofInt := fun hmin hmax => Int64.toInt_ofInt_of_le hmin (Int.lt_of_le_sub_one hmax)

end FrameworkBenchmarks.Common
