import Mathlib.Data.Nat.Digits.Defs

/-!
# Digits from the top

A number is often written by dividing it by falling powers of the base. Where a digit is written
only if the power does not exceed what is left, every zero is missing.
-/

namespace FrameworkBenchmarks.Common

/-- The digits that are written for the powers of the base below the `k`-th, from the top. -/
def digitsFromTop (b : ℕ) : ℕ → ℕ → List ℕ
  | 0, _ => []
  | k + 1, n => (if b ^ k ≤ n then [n / b ^ k] else []) ++ digitsFromTop b k (n % b ^ k)

variable {b : ℕ}

/-- The lowest digit comes last, unless it is zero. -/
theorem digitsFromTop_succ (hb : 1 < b) (k n : ℕ) (hn : n < b ^ (k + 1)) :
    digitsFromTop b (k + 1) n = digitsFromTop b k (n / b) ++ if n % b ≠ 0 then [n % b] else [] := by
  induction k generalizing n with
  | zero =>
    rw [Nat.pow_one] at hn
    rw [Nat.mod_eq_of_lt hn]
    by_cases hzero : n = 0
    · simp [digitsFromTop, hzero]
    · simp [digitsFromTop, hzero, Nat.one_le_iff_ne_zero]
  | succ k ih =>
    have hpos : 0 < b ^ (k + 1) := Nat.pow_pos (by omega)
    have htop : b ^ (k + 1) ≤ n ↔ b ^ k ≤ n / b := by
      rw [Nat.le_div_iff_mul_le (by omega), Nat.pow_succ]
    have hdigit : n / b ^ (k + 1) = n / b / b ^ k := by
      rw [Nat.div_div_eq_div_mul, Nat.pow_succ, Nat.mul_comm]
    have hrest : n % b ^ (k + 1) / b = n / b % b ^ k := by
      rw [Nat.pow_succ, Nat.mul_comm, Nat.mod_mul_right_div_self]
    have hlow : n % b ^ (k + 1) % b = n % b :=
      Nat.mod_mod_of_dvd n (Dvd.intro_left (b ^ k) (Nat.pow_succ b k).symm)
    have hstep := ih (n % b ^ (k + 1)) (Nat.mod_lt n hpos)
    rw [hrest, hlow] at hstep
    rw [digitsFromTop, hstep, digitsFromTop, hdigit, List.append_assoc]
    simp only [htop]

/-- All digits are there that are not zero, and no others. -/
theorem digitsFromTop_eq (hb : 1 < b) (k n : ℕ) (hn : n < b ^ k) :
    digitsFromTop b k n = ((Nat.digits b n).filter (· ≠ 0)).reverse := by
  induction k generalizing n with
  | zero =>
    have hzero : n = 0 := by
      rw [Nat.pow_zero] at hn
      omega
    rw [hzero, Nat.digits_zero]
    rfl
  | succ k ih =>
    have hdiv : n / b < b ^ k := by
      apply Nat.div_lt_of_lt_mul
      rwa [Nat.mul_comm, ← Nat.pow_succ]
    rw [digitsFromTop_succ hb k n hn, ih (n / b) hdiv]
    by_cases hzero : n = 0
    · simp [hzero]
    · rw [Nat.digits_def' hb (Nat.pos_of_ne_zero hzero), List.filter_cons]
      by_cases hlow : n % b = 0
      · simp [hlow]
      · simp [hlow]

/-- The usual way to write a number, with its last digit apart. -/
theorem toDigits_eq (hb : 1 < b) (n : ℕ) : Nat.toDigits b n =
    (Nat.digits b (n / b)).reverse.map Nat.digitChar ++ [Nat.digitChar (n % b)] := by
  induction n using Nat.strong_induction_on with
  | _ n ih =>
    rw [Nat.toDigits_eq_if hb]
    split
    · rename_i hsmall
      rw [Nat.div_eq_of_lt hsmall, Nat.digits_zero, Nat.mod_eq_of_lt hsmall]
      rfl
    · rename_i hlarge
      have hpos : 0 < n / b := Nat.div_pos (Nat.not_lt.mp hlarge) (by omega)
      rw [ih (n / b) (Nat.div_lt_self (by omega) hb), Nat.digits_def' hb hpos, List.reverse_cons,
        List.map_append]
      rfl

/-- The zeros are missed exactly if there are any. -/
theorem digitsFromTop_map_eq_iff {α : Type} (f : ℕ → α) (hb : 1 < b) {k n : ℕ} (hn : n < b ^ k) :
    (digitsFromTop b k n).map f = (Nat.digits b n).reverse.map f ↔ 0 ∉ Nat.digits b n := by
  rw [digitsFromTop_eq hb k n hn]
  constructor
  · intro hsame hzero
    have hlength := congrArg List.length hsame
    rw [List.length_map, List.length_map, List.length_reverse, List.length_reverse,
      List.length_filter_eq_length_iff] at hlength
    have hkept := hlength 0 hzero
    simp at hkept
  · intro hzero
    rw [List.filter_eq_self.mpr]
    intro d hd
    apply decide_eq_true
    intro heq
    apply hzero
    rwa [← heq]

end FrameworkBenchmarks.Common
