import FrameworkBenchmarks.Common.Decimal
import FrameworkBenchmarks.Common.Memory

/-!
# Integers in the JSON output of the h2o server

`gen_integer` writes the digits of a number into a buffer from its end and hands the part that it has
written to `yajl_gen_number`. Addresses count from the start of the buffer.
-/

namespace FrameworkBenchmarks.H2o

open FrameworkBenchmarks.Common

/-- What `gen_integer` returns: a status of its own, or what `yajl_gen_number` makes of a text. -/
inductive GenStatus
  | invalidNumber
  | genNumber (text : List UInt8)
  deriving DecidableEq, Repr

def LLONG_MIN : ℤ := -2 ^ 63

/-- `snprintf` of a text: what fits, with a terminator, is written, and the whole length is returned. -/
def snprintf (memory : Memory) (len : ℕ) (text : List UInt8) : ℕ × Memory :=
  (text.length, writeBytes memory 0 (text.take (len - 1) ++ [0]))

/-- The loop over the digits of the magnitude; `none` is the return with an invalid number. -/
def digitLoop (buf : ℤ) (number : ℕ) (iter : ℤ) (memory : Memory) : Option ℤ × Memory :=
  if buf < iter - 1 then
    let memory := Function.update memory (iter - 1) (digit (number % 10))
    if number / 10 = 0 then (some (iter - 1), memory)
    else digitLoop buf (number / 10) (iter - 1) memory
  else if number < 10 then (some (iter - 1), Function.update memory (iter - 1) (digit number))
  else (none, memory)
termination_by number

/-- The text starts at `iter` and ends with the buffer. -/
def genIntegerEnd (negative : Bool) (len : ℕ) (iter : ℤ) (memory : Memory) : GenStatus × Memory :=
  let sign : ℤ × Memory :=
    if negative then (iter - 1, Function.update memory (iter - 1) 45) else (iter, memory)
  (.genNumber (readBytes sign.2 sign.1 (len - sign.1).toNat), sign.2)

def genInteger (number : ℤ) (len : ℕ) (memory : Memory) : GenStatus × Memory :=
  if len = 0 then (.invalidNumber, memory)
  else if number = LLONG_MIN then
    let printed := snprintf memory len (decimalInt number)
    if len ≤ printed.1 then (.invalidNumber, printed.2)
    else (.genNumber (readBytes printed.2 0 printed.1), printed.2)
  else
    let negative : Bool := number < 0
    match digitLoop (if negative then 1 else 0) number.natAbs len memory with
    | (none, memory) => (.invalidNumber, memory)
    | (some iter, memory) => genIntegerEnd negative len iter memory

variable {buf iter : ℤ} {number : ℕ} {memory : Memory}

/-- Digits that fit are written in front of the end. -/
theorem digitLoop_fits (h : buf + (decimal number).length ≤ iter) :
    digitLoop buf number iter memory = (some (iter - (decimal number).length),
      writeBytes memory (iter - (decimal number).length) (decimal number)) := by
  fun_induction digitLoop buf number iter memory with
  | case1 number iter memory hroom stored hend =>
    have hsmall : number < 10 := by omega
    rw [decimal_of_lt hsmall, List.length_singleton, Int.natCast_one, writeBytes_singleton]
    rw [← Nat.mod_eq_of_lt hsmall]
  | case2 number iter memory hroom stored hmore ih =>
    have hlarge : 10 ≤ number := by omega
    rw [decimal_of_le hlarge, List.length_append, List.length_singleton] at h ⊢
    rw [ih (by omega), ← writeBytes_concat]
    have hstart : iter - ((decimal (number / 10)).length + 1 : ℕ) =
        iter - 1 - (decimal (number / 10)).length := by omega
    have hlast : iter - 1 - (decimal (number / 10)).length + (decimal (number / 10)).length =
        iter - 1 := by omega
    rw [hstart, hlast]
  | case3 number iter memory hroom hsmall =>
    rw [decimal_of_lt hsmall, List.length_singleton, Int.natCast_one, writeBytes_singleton]
  | case4 number iter memory hroom hlarge =>
    have hlength := length_decimal_pos (number / 10)
    rw [decimal_of_le (by omega), List.length_append, List.length_singleton] at h
    omega

/-- Digits that do not fit are noticed before the start of the buffer is passed. -/
theorem digitLoop_short (memory : Memory) (hbuf : buf < iter) (h : iter < buf + (decimal number).length) :
    (digitLoop buf number iter memory).1 = none ∧
      ∀ i, i < buf ∨ iter ≤ i → (digitLoop buf number iter memory).2 i = memory i := by
  fun_induction digitLoop buf number iter memory with
  | case1 number iter memory hroom stored hend =>
    rw [decimal_of_lt (by omega), List.length_singleton] at h
    omega
  | case2 number iter memory hroom stored hmore ih =>
    rw [decimal_of_le (by omega), List.length_append, List.length_singleton] at h
    obtain ⟨hnone, hframe⟩ := ih hroom (by omega)
    refine ⟨hnone, fun i hi => ?_⟩
    rw [hframe i (by omega)]
    exact Function.update_of_ne (by omega) _ _
  | case3 number iter memory hroom hsmall =>
    rw [decimal_of_lt hsmall, List.length_singleton] at h
    omega
  | case4 number iter memory hroom hlarge => exact ⟨rfl, fun _ _ => rfl⟩

/-- A number whose representation fits is passed on as it is, any other is refused, and only bytes of
the buffer are written. -/
def ExactInBounds (number : ℤ) (len : ℕ) (memory : Memory) : Prop :=
  (genInteger number len memory).1 =
      (if (decimalInt number).length ≤ len then .genNumber (decimalInt number)
        else .invalidNumber) ∧
    ∀ i : ℤ, i < 0 ∨ len ≤ i → (genInteger number len memory).2 i = memory i

theorem exactInBounds_zero (number : ℤ) (memory : Memory) : ExactInBounds number 0 memory := by
  have hlength : 0 < (decimalInt number).length := by
    by_cases hneg : number < 0
    · simp [decimalInt_of_neg hneg]
    · rw [decimalInt_of_nonneg (by omega)]
      exact length_decimal_pos _
  refine ⟨?_, fun _ _ => rfl⟩
  rw [if_neg (by omega)]
  rfl

/-- The most negative number goes through `snprintf`, which needs room for a terminator. -/
theorem exactInBounds_min {len : ℕ} (hlen : len ≠ 0) (memory : Memory) :
    ExactInBounds LLONG_MIN len memory ↔ len ≠ 20 := by
  have hlength : (decimalInt LLONG_MIN).length = 20 := rfl
  have hframe : ∀ i : ℤ, i < 0 ∨ len ≤ i →
      (snprintf memory len (decimalInt LLONG_MIN)).2 i = memory i := fun i hi =>
    writeBytes_of_outside (by
      rw [List.length_append, List.length_take, List.length_singleton]
      omega)
  have hresult : genInteger LLONG_MIN len memory =
      if len ≤ 20 then (.invalidNumber, (snprintf memory len (decimalInt LLONG_MIN)).2)
      else (.genNumber (readBytes (snprintf memory len (decimalInt LLONG_MIN)).2 0 20),
        (snprintf memory len (decimalInt LLONG_MIN)).2) := by
    rw [genInteger, if_neg hlen, if_pos rfl]
    rfl
  rw [ExactInBounds, hresult, hlength]
  rcases Nat.lt_trichotomy len 20 with hlt | heq | hgt
  · rw [if_pos (Nat.le_of_lt hlt), if_neg (Nat.not_le_of_lt hlt)]
    exact iff_of_true ⟨rfl, hframe⟩ (Nat.ne_of_lt hlt)
  · rw [if_pos (Nat.le_of_eq heq), if_pos (Nat.le_of_eq heq.symm)]
    exact iff_of_false (fun h => nomatch h.1) (fun hne => hne heq)
  · rw [if_neg (Nat.not_le_of_lt hgt), if_pos (Nat.le_of_lt hgt)]
    refine iff_of_true ⟨?_, hframe⟩ (Nat.ne_of_gt hgt)
    have htake : (decimalInt LLONG_MIN).take (len - 1) = decimalInt LLONG_MIN :=
      List.take_of_length_le (by omega)
    have hread := readBytes_writeBytes_append memory 0 (decimalInt LLONG_MIN) [0]
    rw [hlength] at hread
    rw [snprintf, htake, hread]

theorem genInteger_of_ne {number : ℤ} {len : ℕ} (hlen : len ≠ 0) (hmin : number ≠ LLONG_MIN)
    (memory : Memory) : genInteger number len memory =
      match digitLoop (if number < 0 then 1 else 0) number.natAbs len memory with
      | (none, memory) => (.invalidNumber, memory)
      | (some iter, memory) => genIntegerEnd (number < 0) len iter memory := by
  rw [genInteger, if_neg hlen, if_neg hmin]
  simp only [decide_eq_true_eq]

/-- Digits that do not fit between the sign and the end of the buffer. -/
theorem exactInBounds_of_short {number : ℤ} {len : ℕ} (hlen : len ≠ 0) (hmin : number ≠ LLONG_MIN)
    (hbuf : (if number < 0 then 1 else 0 : ℤ) < len)
    (hshort : len < (if number < 0 then 1 else 0 : ℤ) + (decimal number.natAbs).length)
    (hfits : ¬(decimalInt number).length ≤ len) (memory : Memory) :
    ExactInBounds number len memory := by
  obtain ⟨hnone, hframe⟩ := digitLoop_short memory hbuf hshort
  have hpair : digitLoop (if number < 0 then 1 else 0) number.natAbs len memory =
      (none, (digitLoop (if number < 0 then 1 else 0) number.natAbs len memory).2) :=
    Prod.ext hnone rfl
  rw [ExactInBounds, genInteger_of_ne hlen hmin, if_neg hfits, hpair]
  refine ⟨rfl, fun i hi => hframe i ?_⟩
  split <;> omega

theorem exactInBounds_nonneg {number : ℤ} (hnonneg : 0 ≤ number) {len : ℕ} (hlen : len ≠ 0)
    (memory : Memory) : ExactInBounds number len memory := by
  have hmin : number ≠ LLONG_MIN := by
    unfold LLONG_MIN
    omega
  have hsign : ¬number < 0 := by omega
  have htext : decimalInt number = decimal number.natAbs := decimalInt_of_nonneg hnonneg
  by_cases hfits : (decimal number.natAbs).length ≤ len
  · have hend : (len - ((len : ℤ) - (decimal number.natAbs).length)).toNat =
        (decimal number.natAbs).length := by omega
    rw [ExactInBounds, genInteger_of_ne hlen hmin, htext, if_neg hsign, decide_eq_false hsign,
      digitLoop_fits (by omega), if_pos hfits]
    refine ⟨?_, fun i hi => writeBytes_of_outside (by omega)⟩
    simp only [genIntegerEnd, Bool.false_eq_true, if_false]
    rw [hend, readBytes_writeBytes]
  · refine exactInBounds_of_short hlen hmin ?_ ?_ (htext ▸ hfits) memory
    · rw [if_neg hsign]
      omega
    · rw [if_neg hsign]
      omega

/-- The sign of a single digit is written in front of a buffer of one byte. -/
theorem exactInBounds_neg {number : ℤ} (hneg : number < 0) (hmin : number ≠ LLONG_MIN) {len : ℕ}
    (hlen : len ≠ 0) (memory : Memory) :
    ExactInBounds number len memory ↔ ¬(len = 1 ∧ -9 ≤ number) := by
  have htext : decimalInt number = 45 :: decimal number.natAbs := decimalInt_of_neg hneg
  have hpos := length_decimal_pos number.natAbs
  have hlength : (decimalInt number).length = (decimal number.natAbs).length + 1 := by
    rw [htext, List.length_cons]
  by_cases hone : len = 1
  · have hshort : ¬(decimalInt number).length ≤ len := by omega
    rw [ExactInBounds, genInteger_of_ne hlen hmin, if_neg hshort, if_pos hneg, decide_eq_true hneg,
      digitLoop, if_neg (by omega)]
    by_cases hsmall : number.natAbs < 10
    · rw [if_pos hsmall]
      exact iff_of_false (fun h => nomatch h.1) fun h => h ⟨hone, by omega⟩
    · rw [if_neg hsmall]
      exact iff_of_true ⟨rfl, fun _ _ => rfl⟩ fun h => hsmall (by omega)
  · refine iff_of_true ?_ fun h => hone h.1
    by_cases hfits : 1 + (decimal number.natAbs).length ≤ len
    · have hstart : (len : ℤ) - (decimal number.natAbs).length - 1 + 1 =
          len - (decimal number.natAbs).length := by omega
      have hend : (len - ((len : ℤ) - (decimal number.natAbs).length - 1)).toNat =
          (45 :: decimal number.natAbs).length := by
        rw [List.length_cons]
        omega
      rw [ExactInBounds, genInteger_of_ne hlen hmin, htext, if_pos hneg, decide_eq_true hneg,
        digitLoop_fits (by omega), if_pos (by rw [List.length_cons]; omega)]
      simp only [genIntegerEnd, if_true]
      rw [← hstart, Int.add_sub_cancel, writeBytes_cons, hend, readBytes_writeBytes]
      refine ⟨rfl, fun i hi => writeBytes_of_outside ?_⟩
      rw [List.length_cons]
      omega
    · refine exactInBounds_of_short hlen hmin ?_ ?_ (by omega) memory
      · rw [if_pos hneg]
        omega
      · rw [if_pos hneg]
        omega

/-- `gen_integer` is exact and in bounds, but for two cases: a negative digit in a buffer of one byte,
and the most negative number in a buffer that it fills. -/
theorem genInteger_exact_iff (number : ℤ) (len : ℕ) (memory : Memory) :
    ExactInBounds number len memory ↔
      ¬(len = 1 ∧ -9 ≤ number ∧ number ≤ -1) ∧ ¬(number = LLONG_MIN ∧ len = 20) := by
  by_cases hlen : len = 0
  · subst hlen
    exact iff_of_true (exactInBounds_zero number memory) ⟨by omega, by omega⟩
  by_cases hmin : number = LLONG_MIN
  · subst hmin
    rw [exactInBounds_min hlen]
    have hdigit : ¬(len = 1 ∧ -9 ≤ LLONG_MIN ∧ LLONG_MIN ≤ -1) := by
      unfold LLONG_MIN
      omega
    simp [hdigit]
  by_cases hneg : number < 0
  · rw [exactInBounds_neg hneg hmin hlen]
    have hle : number ≤ -1 := by omega
    simp [hmin, hle]
  · refine iff_of_true (exactInBounds_nonneg (by omega) hlen memory) ⟨by omega, fun h => hmin h.1⟩

/-- In a buffer of one byte, the number minus five is written to the byte in front of it as well. -/
theorem genInteger_negative_digit :
    (genInteger (-5) 1 fun _ => 0).1 = .genNumber [45, 53] ∧
      (genInteger (-5) 1 fun _ => 0).2 (-1) = 45 ∧ ¬ExactInBounds (-5) 1 fun _ => 0 := by
  have hloop : digitLoop 1 5 1 (fun _ => 0) = (some 0, Function.update (fun _ => 0) 0 53) := by
    rw [digitLoop]
    rfl
  have hrun : genInteger (-5) 1 (fun _ => 0) =
      genIntegerEnd true 1 0 (Function.update (fun _ => 0) 0 53) := by
    rw [genInteger_of_ne (by decide) (by decide)]
    simp [hloop]
  have hbefore : (genInteger (-5) 1 fun _ => 0).2 (-1) = 45 := by
    rw [hrun]
    rfl
  refine ⟨by rw [hrun]; rfl, hbefore, fun h => ?_⟩
  have hsame := h.2 (-1) (Or.inl (by decide))
  rw [hbefore] at hsame
  cases hsame

end FrameworkBenchmarks.H2o
