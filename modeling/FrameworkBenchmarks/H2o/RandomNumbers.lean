import FrameworkBenchmarks.H2o.RandomIds
import Mathlib.Order.Interval.Finset.Nat

/-!
# Random numbers of the h2o server

`get_random_number` divides the numbers that `rand_r` may return into buckets of one size, one for each
result, and draws again where a number is in none of them.
-/

namespace FrameworkBenchmarks.H2o

/-! ### Unsigned arithmetic -/

/-- `(RAND_MAX + 1U) / max_rand` -/
def bucketSize32 (maxRand : UInt32) : UInt32 := (UInt32.ofNat RAND_MAX + 1) / maxRand

/-- `bucket_size * max_rand` -/
def unbiasedRandMax32 (maxRand : UInt32) : UInt32 := bucketSize32 maxRand * maxRand

theorem bucketSize32_toNat (maxRand : UInt32) : (bucketSize32 maxRand).toNat = bucketSize maxRand.toNat := by
  rw [bucketSize32, UInt32.toNat_div]
  rfl

theorem unbiasedRandMax_le (maxRand : ℕ) : unbiasedRandMax maxRand ≤ RAND_MAX + 1 := Nat.div_mul_le_self _ _

/-- The product does not leave the range of an unsigned number. -/
theorem unbiasedRandMax32_toNat (maxRand : UInt32) :
    (unbiasedRandMax32 maxRand).toNat = unbiasedRandMax maxRand.toNat := by
  rw [unbiasedRandMax32, UInt32.toNat_mul, bucketSize32_toNat]
  apply Nat.mod_eq_of_lt
  exact Nat.lt_of_le_of_lt (unbiasedRandMax_le maxRand.toNat) (by decide)

/-! ### Buckets -/

/-- Whether the loop ends with a number. -/
def accepts (maxRand ret : ℕ) : Bool := ret < unbiasedRandMax maxRand

/-- The numbers that `rand_r` may return and the loop ends with. -/
def acceptedNumbers (maxRand : ℕ) : Finset ℕ :=
  (Finset.range (RAND_MAX + 1)).filter fun ret => accepts maxRand ret

/-- Those that give a result. -/
def numbersFor (maxRand result : ℕ) : Finset ℕ :=
  (acceptedNumbers maxRand).filter fun ret => ret / bucketSize maxRand = result

variable {maxRand : ℕ}

theorem bucketSize_pos (hpos : 0 < maxRand) (hmax : maxRand ≤ RAND_MAX) : 0 < bucketSize maxRand :=
  Nat.div_pos (Nat.le_succ_of_le hmax) hpos

theorem acceptedNumbers_eq (maxRand : ℕ) : acceptedNumbers maxRand = Finset.range (unbiasedRandMax maxRand) := by
  have hle := unbiasedRandMax_le maxRand
  ext ret
  rw [acceptedNumbers, Finset.mem_filter, Finset.mem_range, Finset.mem_range, accepts, decide_eq_true_eq]
  constructor
  · exact fun h => h.2
  · exact fun h => ⟨Nat.lt_of_lt_of_le h hle, h⟩

/-- The numbers for a result are a bucket. -/
theorem numbersFor_eq (hbucket : 0 < bucketSize maxRand) {result : ℕ} (hresult : result < maxRand) :
    numbersFor maxRand result =
      Finset.Ico (result * bucketSize maxRand) (result * bucketSize maxRand + bucketSize maxRand) := by
  have hlast : (result + 1) * bucketSize maxRand ≤ maxRand * bucketSize maxRand := Nat.mul_le_mul_right _ hresult
  rw [Nat.succ_mul] at hlast
  ext ret
  rw [numbersFor, acceptedNumbers_eq, Finset.mem_filter, Finset.mem_range, Finset.mem_Ico]
  constructor
  · rintro ⟨-, rfl⟩
    exact ⟨Nat.div_mul_le_self _ _, Nat.lt_div_mul_add hbucket⟩
  · rintro ⟨hle, hlt⟩
    refine ⟨?_, Nat.div_eq_of_lt_le hle (by rwa [Nat.succ_mul])⟩
    rw [unbiasedRandMax, Nat.mul_comm]
    exact Nat.lt_of_lt_of_le hlt hlast

theorem card_numbersFor (hbucket : 0 < bucketSize maxRand) {result : ℕ} (hresult : result < maxRand) :
    (numbersFor maxRand result).card = bucketSize maxRand := by
  rw [numbersFor_eq hbucket hresult, Nat.card_Ico, Nat.add_sub_cancel_left]

/-- The rest of the division is smaller than the divisor, and there is a bucket for each result. -/
theorem half_accepted (hpos : 0 < maxRand) (hmax : maxRand ≤ RAND_MAX) :
    RAND_MAX + 1 ≤ 2 * (acceptedNumbers maxRand).card := by
  have hrest := Nat.mod_lt (RAND_MAX + 1) hpos
  have hdivision := Nat.div_add_mod (RAND_MAX + 1) maxRand
  have hone : maxRand ≤ unbiasedRandMax maxRand :=
    Nat.le_mul_of_pos_left maxRand (bucketSize_pos hpos hmax)
  have hproduct : maxRand * ((RAND_MAX + 1) / maxRand) = unbiasedRandMax maxRand := Nat.mul_comm _ _
  rw [acceptedNumbers_eq, Finset.card_range]
  omega

/-! ### The loop -/

/-- The loop ends with the first number that is accepted. -/
theorem drawBelow_append {bound ret : ℕ} {before : List ℕ} (hbefore : ∀ v ∈ before, bound ≤ v)
    (hret : ret < bound) (rest : List ℕ) : drawBelow bound (before ++ ret :: rest) = some (ret, rest) := by
  induction before with
  | nil => rw [List.nil_append, drawBelow, if_neg (Nat.not_le_of_lt hret)]
  | cons v before ih =>
    rw [List.cons_append, drawBelow, if_pos (hbefore v List.mem_cons_self)]
    exact ih fun w hw => hbefore w (List.mem_cons_of_mem v hw)

/-- A stream with a number that is accepted has a first one, and the loop ends with it. -/
theorem getRandomNumber_stops (hpos : 0 < maxRand) (hmax : maxRand ≤ RAND_MAX) {draws : ℕ → ℕ}
    (h : ∃ k, accepts maxRand (draws k) = true) :
    ∃ n, accepts maxRand (draws n) = true ∧ (∀ i < n, accepts maxRand (draws i) = false) ∧
      getRandomNumber maxRand ((List.range (n + 1)).map draws) =
        .ok (some (draws n / bucketSize maxRand, [])) := by
  have hfirst (i : ℕ) (hi : i < Nat.find h) : accepts maxRand (draws i) = false := by
    rw [← Bool.not_eq_true]
    exact Nat.find_min h hi
  refine ⟨Nat.find h, Nat.find_spec h, hfirst, ?_⟩
  have hbefore : ∀ v ∈ (List.range (Nat.find h)).map draws, unbiasedRandMax maxRand ≤ v := by
    intro v hv
    obtain ⟨i, hi, rfl⟩ := List.mem_map.mp hv
    exact Nat.le_of_not_lt (of_decide_eq_false (hfirst i (List.mem_range.mp hi)))
  have hstop : draws (Nat.find h) < unbiasedRandMax maxRand := of_decide_eq_true (Nat.find_spec h)
  rw [getRandomNumber_eq hpos hmax, List.range_succ, List.map_append, List.map_singleton,
    drawBelow_append hbefore hstop]
  rfl

/-- Each result has a bucket of numbers, no number gives another result, at least half of the numbers are
accepted, and the loop ends where one of them is drawn. -/
theorem getRandomNumber_unbiased (hpos : 0 < maxRand) (hmax : maxRand ≤ RAND_MAX) :
    (∀ result < maxRand, (numbersFor maxRand result).card = bucketSize maxRand) ∧
      (∀ ret ∈ acceptedNumbers maxRand, ret / bucketSize maxRand < maxRand) ∧
      RAND_MAX + 1 ≤ 2 * (acceptedNumbers maxRand).card ∧
      (bucketSize32 (UInt32.ofNat maxRand)).toNat = bucketSize maxRand ∧
      (unbiasedRandMax32 (UInt32.ofNat maxRand)).toNat = unbiasedRandMax maxRand ∧
      ∀ draws : ℕ → ℕ, (∃ k, accepts maxRand (draws k) = true) →
        ∃ n, accepts maxRand (draws n) = true ∧ (∀ i < n, accepts maxRand (draws i) = false) ∧
          getRandomNumber maxRand ((List.range (n + 1)).map draws) =
            .ok (some (draws n / bucketSize maxRand, [])) := by
  have hunsigned : (UInt32.ofNat maxRand).toNat = maxRand :=
    UInt32.toNat_ofNat_of_lt' (Nat.lt_of_le_of_lt hmax (by decide))
  refine ⟨fun result hresult => card_numbersFor (bucketSize_pos hpos hmax) hresult, fun ret hret => ?_,
    half_accepted hpos hmax, ?_, ?_, fun draws h => getRandomNumber_stops hpos hmax h⟩
  · rw [acceptedNumbers_eq, Finset.mem_range] at hret
    exact drawn_lt hret
  · rw [bucketSize32_toNat, hunsigned]
  · rw [unbiasedRandMax32_toNat, hunsigned]

theorem getRandomNumber_unbiased_ids :
    (∀ result < MAX_ID, (numbersFor MAX_ID result).card = bucketSize MAX_ID) ∧
      (∀ ret ∈ acceptedNumbers MAX_ID, ret / bucketSize MAX_ID < MAX_ID) ∧
      RAND_MAX + 1 ≤ 2 * (acceptedNumbers MAX_ID).card ∧
      (bucketSize32 (UInt32.ofNat MAX_ID)).toNat = bucketSize MAX_ID ∧
      (unbiasedRandMax32 (UInt32.ofNat MAX_ID)).toNat = unbiasedRandMax MAX_ID ∧
      ∀ draws : ℕ → ℕ, (∃ k, accepts MAX_ID (draws k) = true) →
        ∃ n, accepts MAX_ID (draws n) = true ∧ (∀ i < n, accepts MAX_ID (draws i) = false) ∧
          getRandomNumber MAX_ID ((List.range (n + 1)).map draws) =
            .ok (some (draws n / bucketSize MAX_ID, [])) :=
  getRandomNumber_unbiased (by decide) (by decide)

end FrameworkBenchmarks.H2o
