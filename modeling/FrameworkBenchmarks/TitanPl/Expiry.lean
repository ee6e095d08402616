import Mathlib

/-!
# Expiry times of tokens in the Titan server

`parse_expires_in` reads a text such as `15m` as a number of seconds, and `native_jwt_sign` adds it to
the time of day. A text is the list of its characters; positions in it count bytes. Arithmetic is
checked or wraps around, as the program is compiled.
-/

namespace FrameworkBenchmarks.TitanPl

/-- The ways in which the functions panic. -/
inductive Panic
  | overflow
  | notCharBoundary
  deriving DecidableEq, Repr

section Arithmetic

variable (checked : Bool)

/-- The result of an addition or multiplication of two `u64` values. -/
def u64 (n : ℕ) : Except Panic ℕ :=
  if n < 2 ^ 64 then .ok n else if checked then .error .overflow else .ok (n % 2 ^ 64)

/-- `len - 1` -/
def beforeLast (len : ℕ) : Except Panic ℕ :=
  if len = 0 then if checked then .error .overflow else .ok (2 ^ 64 - 1) else .ok (len - 1)

end Arithmetic

/-- `str::len` -/
def strLen (s : List Char) : ℕ := (s.map Char.utf8Size).sum

/-- `str::split_at` -/
def splitAt (s : List Char) (mid : ℕ) : Except Panic (List Char × List Char) :=
  match mid, s with
  | 0, s => .ok ([], s)
  | _ + 1, [] => .error .notCharBoundary
  | mid + 1, c :: s =>
    if c.utf8Size ≤ mid + 1 then do
      let (before, after) ← splitAt s (mid + 1 - c.utf8Size)
      return (c :: before, after)
    else .error .notCharBoundary
termination_by structural s

/-- The digits of `u64::from_str`, with `checked_mul` and `checked_add`. -/
def parseDigits (result : ℕ) : List Char → Option ℕ
  | [] => some result
  | c :: s =>
    if c.isDigit then
      if result * 10 < 2 ^ 64 then
        let result := result * 10 + (c.toNat - '0'.toNat)
        if result < 2 ^ 64 then parseDigits result s else none
      else none
    else none

/-- `str::parse::<u64>` -/
def parseU64 : List Char → Option ℕ
  | [] => none
  | ['+'] => none
  | ['-'] => none
  | '+' :: s => parseDigits 0 s
  | s => parseDigits 0 s

/-- The product with the seconds of the unit, multiplied out from the left. -/
def inSeconds (checked : Bool) (n : ℕ) (unit : List Char) : Except Panic (Option ℕ) := do
  if unit = ['s'] then return some n
  else if unit = ['m'] then return some (← u64 checked (n * 60))
  else if unit = ['h'] then return some (← u64 checked ((← u64 checked (n * 60)) * 60))
  else if unit = ['d'] then
    return some (← u64 checked ((← u64 checked ((← u64 checked (n * 60)) * 60)) * 24))
  else return none

def parseExpiresIn (checked : Bool) (value : List Char) : Except Panic (Option ℕ) := do
  let mid ← beforeLast checked (strLen value)
  let (num, unit) ← splitAt value mid
  match parseU64 num with
  | none => return none
  | some n => inSeconds checked n unit

/-- What the option `expiresIn` of a call is; the seconds of a number are cast to `u64`. -/
inductive ExpiresIn
  | number (seconds : ℕ)
  | string (text : List Char)
  | other

/-- The claim `exp` that `native_jwt_sign` inserts into the payload, if any. -/
def expClaim (checked : Bool) (now : ℕ) (expiresIn : ExpiresIn) : Except Panic (Option ℕ) := do
  let seconds ← match expiresIn with
    | .number seconds => pure (some seconds)
    | .string text => parseExpiresIn checked text
    | .other => pure none
  match seconds with
  | none => return none
  | some sec => return some (← u64 checked (now + sec))

/-! ### Texts that are durations -/

/-- The number that a text of digits is, if it fits in 64 bits. -/
def decimalU64 (s : List Char) : Option ℕ :=
  if s ≠ [] ∧ s.all Char.isDigit ∧ Nat.ofDigitChars 10 s 0 < 2 ^ 64 then
    some (Nat.ofDigitChars 10 s 0)
  else none

/-- The seconds of a unit. -/
def unitSeconds (c : Char) : Option ℕ :=
  if c = 's' then some 1 else if c = 'm' then some 60 else if c = 'h' then some (60 * 60)
  else if c = 'd' then some (60 * 60 * 24) else none

/-- The number of seconds that a decimal number before a unit stands for, if it fits in 64 bits. -/
def duration (value : List Char) : Option ℕ := do
  let unit ← value.getLast?
  let n ← decimalU64 value.dropLast
  let seconds ← unitSeconds unit
  if n * seconds < 2 ^ 64 then some (n * seconds) else none

theorem le_ofDigitChars (s : List Char) (result : ℕ) : result ≤ Nat.ofDigitChars 10 s result := by
  induction s generalizing result with
  | nil => simp
  | cons c s ih =>
    rw [Nat.ofDigitChars_cons]
    exact Nat.le_trans (by omega) (ih _)

/-- The checks on the way are checks of the whole number. -/
theorem parseDigits_eq {result : ℕ} (h : result < 2 ^ 64) (s : List Char) :
    parseDigits result s = if s.all Char.isDigit ∧ Nat.ofDigitChars 10 s result < 2 ^ 64 then
      some (Nat.ofDigitChars 10 s result) else none := by
  induction s generalizing result with
  | nil =>
    have hall : ([] : List Char).all Char.isDigit ∧ Nat.ofDigitChars 10 [] result < 2 ^ 64 := ⟨rfl, h⟩
    rw [parseDigits, if_pos hall]
    rfl
  | cons c s ih =>
    have hle := le_ofDigitChars s (10 * result + (c.toNat - '0'.toNat))
    rw [parseDigits, Nat.ofDigitChars_cons]
    by_cases hc : c.isDigit = true
    · simp only [List.all_cons, hc, Bool.true_and, if_true, Nat.mul_comm result 10]
      by_cases hsmall : 10 * result + (c.toNat - '0'.toNat) < 2 ^ 64
      · rw [if_pos (by omega), if_pos hsmall, ih hsmall]
      · have hnone : ¬Nat.ofDigitChars 10 s (10 * result + (c.toNat - '0'.toNat)) < 2 ^ 64 := by omega
        rw [if_neg hsmall, ite_self, if_neg fun h => hnone h.2]
    · simp [hc]

theorem parseDigits_zero {s : List Char} (h : s ≠ []) : parseDigits 0 s = decimalU64 s := by
  rw [parseDigits_eq (by decide), decimalU64]
  simp only [ne_eq, h, not_false_eq_true, true_and]

/-- `str::parse` also takes a number behind a plus sign. -/
theorem parseU64_eq (s : List Char) :
    parseU64 s = if s.head? = some '+' then decimalU64 s.tail else decimalU64 s := by
  unfold parseU64
  split
  · rfl
  · rfl
  · rfl
  · rename_i s hne
    rw [List.head?_cons, if_pos rfl, List.tail_cons]
    exact parseDigits_zero fun h => hne (by rw [h])
  · rename_i s hnil _ _ hplus
    rw [if_neg, parseDigits_zero hnil]
    intro hhead
    obtain ⟨s', rfl⟩ := List.head?_eq_some_iff.mp hhead
    exact hplus s' rfl

/-! ### Splitting -/

theorem strLen_append (s t : List Char) : strLen (s ++ t) = strLen s + strLen t := by
  rw [strLen, List.map_append, List.sum_append, strLen, strLen]

theorem splitAt_cons (c : Char) (s : List Char) (n : ℕ) :
    splitAt (c :: s) (c.utf8Size + n) = do
      let (before, after) ← splitAt s n
      return (c :: before, after) := by
  obtain ⟨m, hm⟩ := Nat.exists_eq_succ_of_ne_zero (Nat.ne_of_gt c.utf8Size_pos)
  have hmid : c.utf8Size + n = (m + n) + 1 := by omega
  rw [hmid, splitAt, if_pos (by omega), ← hmid, Nat.add_sub_cancel_left]

theorem strLen_cons (c : Char) (s : List Char) : strLen (c :: s) = c.utf8Size + strLen s := by
  rw [strLen, List.map_cons, List.sum_cons, strLen]

theorem splitAt_append (s t : List Char) : splitAt (s ++ t) (strLen s) = .ok (s, t) := by
  induction s with
  | nil =>
    cases t with
    | nil => rfl
    | cons => rfl
  | cons c s ih =>
    rw [List.cons_append, strLen_cons, splitAt_cons, ih]
    rfl

/-- A position inside the last character is no place to split. -/
theorem splitAt_inside (s : List Char) {c : Char} {n : ℕ} (hpos : 0 < n) (hn : n < c.utf8Size) :
    splitAt (s ++ [c]) (strLen s + n) = .error .notCharBoundary := by
  induction s with
  | nil =>
    obtain ⟨m, rfl⟩ := Nat.exists_eq_succ_of_ne_zero (Nat.ne_of_gt hpos)
    have hzero : strLen [] + (m + 1) = m + 1 := Nat.zero_add _
    rw [List.nil_append, hzero, splitAt, if_neg (by omega)]
  | cons d s ih =>
    rw [List.cons_append, strLen_cons, Nat.add_assoc, splitAt_cons, ih]
    rfl

theorem parseExpiresIn_nil (checked : Bool) : ∃ panic, parseExpiresIn checked [] = .error panic := by
  cases checked with
  | true => exact ⟨.overflow, rfl⟩
  | false => exact ⟨.notCharBoundary, rfl⟩

theorem parseExpiresIn_concat (checked : Bool) (num : List Char) (unit : Char) :
    parseExpiresIn checked (num ++ [unit]) =
      if unit.utf8Size = 1 then
        match parseU64 num with
        | none => .ok none
        | some n => inSeconds checked n [unit]
      else .error .notCharBoundary := by
  have hpos := unit.utf8Size_pos
  have hlen : strLen (num ++ [unit]) = strLen num + unit.utf8Size := by
    rw [strLen_append, strLen_cons]
    rfl
  have hbefore : beforeLast checked (strLen (num ++ [unit])) =
      .ok (strLen num + (unit.utf8Size - 1)) := by
    rw [beforeLast, hlen, if_neg (by omega), Nat.add_sub_assoc hpos]
  rw [parseExpiresIn, hbefore]
  by_cases hone : unit.utf8Size = 1
  · have hsplit : splitAt (num ++ [unit]) (strLen num + (unit.utf8Size - 1)) = .ok (num, [unit]) := by
      rw [hone]
      exact splitAt_append num [unit]
    rw [if_pos hone]
    show (splitAt (num ++ [unit]) (strLen num + (unit.utf8Size - 1)) >>= _) = _
    rw [hsplit]
    rfl
  · rw [if_neg hone]
    show (splitAt (num ++ [unit]) (strLen num + (unit.utf8Size - 1)) >>= _) = _
    rw [splitAt_inside num (by omega) (by omega)]
    rfl

/-! ### Units -/

theorem u64_of_lt (checked : Bool) {n : ℕ} (h : n < 2 ^ 64) : u64 checked n = .ok n := if_pos h

theorem u64_eq_ok_iff (checked : Bool) {n : ℕ} : u64 checked n = .ok n ↔ n < 2 ^ 64 := by
  refine ⟨fun h => ?_, u64_of_lt checked⟩
  rcases Nat.lt_or_ge n (2 ^ 64) with hlt | hge
  · exact hlt
  · rw [u64, if_neg (Nat.not_lt_of_ge hge)] at h
    cases checked with
    | true => cases h
    | false =>
      have hmod : n % 2 ^ 64 = n := Except.ok.inj h
      rw [← hmod]
      exact Nat.mod_lt n (Nat.two_pow_pos 64)

theorem unitSeconds_eq_some_iff {unit : Char} {f : ℕ} : unitSeconds unit = some f ↔
    (unit = 's' ∧ f = 1) ∨ (unit = 'm' ∧ f = 60) ∨ (unit = 'h' ∧ f = 60 * 60) ∨
      (unit = 'd' ∧ f = 60 * 60 * 24) := by
  unfold unitSeconds
  split
  · rename_i h
    simp [h, eq_comm]
  · split
    · rename_i h
      simp [h, eq_comm]
    · split
      · rename_i h
        simp [h, eq_comm]
      · split
        · rename_i h
          simp [h, eq_comm]
        · simp [*]

theorem inSeconds_of_none (checked : Bool) (n : ℕ) {unit : Char} (h : unitSeconds unit = none) :
    inSeconds checked n [unit] = .ok none := by
  have hne : ∀ c f, unitSeconds c = some f → [unit] ≠ [c] := fun c f hc heq => by
    rw [(List.cons.inj heq).1, hc] at h
    cases h
  rw [inSeconds, if_neg (hne 's' 1 rfl), if_neg (hne 'm' 60 rfl), if_neg (hne 'h' _ rfl),
    if_neg (hne 'd' _ rfl)]
  rfl

theorem bind_u64 (checked : Bool) {n : ℕ} (h : n < 2 ^ 64) (f : ℕ → Except Panic (Option ℕ)) :
    (u64 checked n >>= f) = f n := by
  rw [u64_of_lt checked h]
  rfl

/-- If the product fits, so do the products on the way. -/
theorem inSeconds_of_lt (checked : Bool) {n f : ℕ} {unit : Char} (h : unitSeconds unit = some f)
    (hlt : n * f < 2 ^ 64) : inSeconds checked n [unit] = .ok (some (n * f)) := by
  rcases unitSeconds_eq_some_iff.mp h with ⟨rfl, rfl⟩ | ⟨rfl, rfl⟩ | ⟨rfl, rfl⟩ | ⟨rfl, rfl⟩
  · rw [Nat.mul_one]
    rfl
  · exact bind_u64 checked hlt _
  · rw [← Nat.mul_assoc] at hlt ⊢
    exact (bind_u64 checked (by omega) _).trans (bind_u64 checked hlt _)
  · rw [← Nat.mul_assoc, ← Nat.mul_assoc] at hlt ⊢
    exact (bind_u64 checked (by omega) _).trans
      ((bind_u64 checked (by omega) _).trans (bind_u64 checked hlt _))

theorem bind_ne_none {α : Type} (x : Except Panic α) {f : α → Except Panic (Option ℕ)}
    (h : ∀ a, f a ≠ .ok none) : (x >>= f) ≠ .ok none := by
  cases x with
  | error => exact fun heq => nomatch heq
  | ok a => exact h a

/-- With a unit, the result is never that there is no duration. -/
theorem inSeconds_ne (checked : Bool) (n : ℕ) {f : ℕ} {unit : Char} (h : unitSeconds unit = some f) :
    inSeconds checked n [unit] ≠ .ok none := by
  rcases unitSeconds_eq_some_iff.mp h with ⟨rfl, -⟩ | ⟨rfl, -⟩ | ⟨rfl, -⟩ | ⟨rfl, -⟩
  · exact fun h => nomatch h
  · exact bind_ne_none _ fun _ h => nomatch h
  · exact bind_ne_none _ fun _ => bind_ne_none _ fun _ h => nomatch h
  · exact bind_ne_none _ fun _ => bind_ne_none _ fun _ => bind_ne_none _ fun _ h => nomatch h

/-! ### Expiry times -/

/-- A text is read as the duration that it stands for, and its seconds are added to the time without
overflow. -/
structure ExpiresCorrectly (checked : Bool) (now : ℕ) (value : List Char) : Prop where
  parse : parseExpiresIn checked value = .ok (duration value)
  sign : ∀ sec, parseExpiresIn checked value = .ok (some sec) →
    expClaim checked now (.string value) = .ok (some (now + sec))

/-- The texts on which nothing goes wrong: they end in a character of one byte, and in front of a unit
there is no signed number and no number too large for the time to be reached. -/
def Expressible (now : ℕ) (value : List Char) : Prop :=
  ∃ num unit, value = num ++ [unit] ∧ unit.utf8Size = 1 ∧ ∀ f, unitSeconds unit = some f →
    (num.head? = some '+' → decimalU64 num.tail = none) ∧
      ∀ n, decimalU64 num = some n → now + n * f < 2 ^ 64

theorem duration_concat (num : List Char) (unit : Char) : duration (num ++ [unit]) =
    (decimalU64 num).bind fun n => (unitSeconds unit).bind fun f =>
      if n * f < 2 ^ 64 then some (n * f) else none := by
  simp [duration]

theorem decimalU64_plus (s : List Char) : decimalU64 ('+' :: s) = none := by
  simp [decimalU64]

theorem expClaim_string {checked : Bool} {now sec : ℕ} {value : List Char}
    (h : parseExpiresIn checked value = .ok (some sec)) :
    expClaim checked now (.string value) = .ok (some (now + sec)) ↔ now + sec < 2 ^ 64 := by
  have hclaim : expClaim checked now (.string value) = some <$> u64 checked (now + sec) := by
    show (parseExpiresIn checked value >>= _) = _
    rw [h]
    rfl
  rw [hclaim, ← u64_eq_ok_iff checked]
  cases u64 checked (now + sec) with
  | error => exact iff_of_false (fun heq => nomatch heq) fun heq => nomatch heq
  | ok => exact ⟨fun heq => congrArg Except.ok (Option.some.inj (Except.ok.inj heq)),
      fun heq => congrArg (fun n => Except.ok (some n)) (Except.ok.inj heq)⟩

theorem parseU64_of_decimal {num : List Char} {n : ℕ} (h : decimalU64 num = some n) :
    parseU64 num = some n := by
  rw [parseU64_eq, if_neg, h]
  intro hplus
  obtain ⟨s, rfl⟩ := List.head?_eq_some_iff.mp hplus
  rw [decimalU64_plus] at h
  cases h

theorem expressible_of_correct {checked : Bool} {now : ℕ} {value : List Char}
    (h : ExpiresCorrectly checked now value) : Expressible now value := by
  obtain ⟨hparse, hsign⟩ := h
  rcases List.eq_nil_or_concat value with rfl | ⟨num, unit, rfl⟩
  · obtain ⟨panic, hpanic⟩ := parseExpiresIn_nil checked
    rw [hpanic] at hparse
    cases hparse
  rw [List.concat_eq_append] at hparse hsign ⊢
  by_cases hone : unit.utf8Size = 1
  · refine ⟨num, unit, rfl, hone, fun f hf => ⟨fun hplus => ?_, fun n hn => ?_⟩⟩
    · obtain ⟨s, rfl⟩ := List.head?_eq_some_iff.mp hplus
      cases hs : decimalU64 s with
      | none => exact hs
      | some n =>
        -- The number behind the plus sign is read, but the text stands for no duration.
        have hnum : parseU64 ('+' :: s) = some n := by
          rw [parseU64_eq, if_pos hplus]
          exact hs
        rw [parseExpiresIn_concat, if_pos hone, hnum, duration_concat, decimalU64_plus] at hparse
        exact absurd hparse (inSeconds_ne checked n hf)
    · rw [parseExpiresIn_concat, if_pos hone, parseU64_of_decimal hn, duration_concat, hn, hf] at hparse
      by_cases hlt : n * f < 2 ^ 64
      · have hsec : parseExpiresIn checked (num ++ [unit]) = .ok (some (n * f)) := by
          rw [parseExpiresIn_concat, if_pos hone, parseU64_of_decimal hn]
          exact inSeconds_of_lt checked hf hlt
        exact (expClaim_string hsec).mp (hsign _ hsec)
      · have hnone : inSeconds checked n [unit] = .ok none := hparse.trans (congrArg _ (if_neg hlt))
        exact absurd hnone (inSeconds_ne checked n hf)
  · rw [parseExpiresIn_concat, if_neg hone] at hparse
    cases hparse

theorem parseExpiresIn_of_expressible (checked : Bool) {now : ℕ} {value : List Char}
    (h : Expressible now value) : parseExpiresIn checked value = .ok (duration value) := by
  obtain ⟨num, unit, rfl, hone, hunit⟩ := h
  rw [parseExpiresIn_concat, if_pos hone, duration_concat]
  cases hf : unitSeconds unit with
  | none =>
    have hnone : ((decimalU64 num).bind fun _ => (none : Option ℕ)) = none := by
      cases decimalU64 num <;> rfl
    cases parseU64 num with
    | none => simp [hnone]
    | some n => simp [hnone, inSeconds_of_none checked n hf]
  | some f =>
    obtain ⟨hplus, hsmall⟩ := hunit f hf
    have hnum : parseU64 num = decimalU64 num := by
      rw [parseU64_eq]
      split
      · rename_i hhead
        rw [hplus hhead]
        obtain ⟨s, rfl⟩ := List.head?_eq_some_iff.mp hhead
        exact (decimalU64_plus s).symm
      · rfl
    rw [hnum]
    cases hn : decimalU64 num with
    | none => rfl
    | some n =>
      have hlt : n * f < 2 ^ 64 := Nat.lt_of_le_of_lt (Nat.le_add_left _ now) (hsmall n hn)
      exact (inSeconds_of_lt checked hf hlt).trans (congrArg _ (if_pos hlt).symm)

/-- `parse_expires_in` and `native_jwt_sign` agree with the durations that texts stand for exactly on
the expressible texts. -/
theorem expiresCorrectly_iff (checked : Bool) (now : ℕ) (value : List Char) :
    ExpiresCorrectly checked now value ↔ Expressible now value := by
  refine ⟨expressible_of_correct, fun h => ?_⟩
  have hparse := parseExpiresIn_of_expressible checked h
  refine ⟨hparse, fun sec hsec => (expClaim_string hsec).mpr ?_⟩
  obtain ⟨num, unit, rfl, hone, hunit⟩ := h
  have hduration : duration (num ++ [unit]) = some sec := Except.ok.inj (hparse.symm.trans hsec)
  rw [duration_concat] at hduration
  obtain ⟨n, hn, hduration⟩ := Option.bind_eq_some_iff.mp hduration
  obtain ⟨f, hf, hduration⟩ := Option.bind_eq_some_iff.mp hduration
  have hsmall := (hunit f hf).2 n hn
  rw [if_pos (Nat.lt_of_le_of_lt (Nat.le_add_left _ now) hsmall)] at hduration
  rwa [← Option.some.inj hduration]

/-- The empty text panics. -/
theorem expiresIn_empty : ¬ExpiresCorrectly false 0 [] := by
  intro h
  exact nomatch h.parse

end FrameworkBenchmarks.TitanPl
