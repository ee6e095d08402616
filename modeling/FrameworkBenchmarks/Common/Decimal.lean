import Mathlib
import FrameworkBenchmarks.Common.Bytes

/-!
# Decimal representations as bytes
-/

namespace FrameworkBenchmarks.Common

/-- The decimal digits of a number, without leading zeros. -/
def decimal (n : ℕ) : List UInt8 := ascii (toString n)

/-- The decimal digits of an integer, behind a minus sign if it is negative. -/
def decimalInt (z : ℤ) : List UInt8 := ascii (toString z)

/-- The character of a digit. -/
def digit (d : ℕ) : UInt8 := UInt8.ofNat (48 + d)

theorem digitChar_toNat : ∀ {d : ℕ}, d < 10 → d.digitChar.toNat = 48 + d := by decide

theorem decimal_of_lt {n : ℕ} (h : n < 10) : decimal n = [digit n] := by
  rw [decimal, ascii, Nat.toString_eq_ofList_toDigits, String.toList_ofList,
    Nat.toDigits_of_lt_base h, List.map_singleton, digitChar_toNat h, digit]

theorem decimal_of_le {n : ℕ} (h : 10 ≤ n) : decimal n = decimal (n / 10) ++ [digit (n % 10)] := by
  have hmod : n % 10 < 10 := Nat.mod_lt n (by omega)
  simp only [decimal, ascii, Nat.toString_eq_ofList_toDigits, String.toList_ofList]
  rw [Nat.toDigits_of_base_le (by omega) h, List.map_append, List.map_singleton,
    digitChar_toNat hmod, digit]

theorem length_decimal_pos (n : ℕ) : 0 < (decimal n).length := by
  rw [decimal, ascii, List.length_map, Nat.toString_eq_ofList_toDigits, String.toList_ofList]
  exact Nat.length_toDigits_pos

theorem length_decimal_le_iff {n k : ℕ} (hk : 0 < k) : (decimal n).length ≤ k ↔ n < 10 ^ k := by
  rw [decimal, ascii, List.length_map, String.length_toList, Nat.toString_eq_repr, Nat.length_repr_le_iff hk]

theorem isDigit_digit : ∀ {d : ℕ}, d < 10 → isDigit (digit d) = true := by decide

theorem isDigit_of_mem_decimal {n : ℕ} {c : UInt8} (h : c ∈ decimal n) : isDigit c = true := by
  induction n using Nat.strongRecOn with
  | _ n ih =>
    rcases Nat.lt_or_ge n 10 with hlt | hge
    · rw [decimal_of_lt hlt, List.mem_singleton] at h
      rw [h]
      exact isDigit_digit hlt
    · rw [decimal_of_le hge] at h
      rcases List.mem_append.mp h with hfirst | hlast
      · exact ih (n / 10) (by omega) hfirst
      · rw [List.mem_singleton.mp hlast]
        exact isDigit_digit (Nat.mod_lt n (by omega))

theorem decimalInt_of_nonneg {z : ℤ} (h : 0 ≤ z) : decimalInt z = decimal z.natAbs := by
  obtain ⟨n, rfl⟩ := Int.eq_ofNat_of_zero_le h
  rfl

theorem decimalInt_of_neg {z : ℤ} (h : z < 0) : decimalInt z = 45 :: decimal z.natAbs := by
  obtain ⟨n, rfl⟩ := Int.eq_negSucc_of_lt_zero h
  have htext : toString (Int.negSucc n) = "-" ++ toString (n + 1) := rfl
  rw [decimalInt, htext, ascii, String.toList_append, List.map_append]
  rfl

end FrameworkBenchmarks.Common
