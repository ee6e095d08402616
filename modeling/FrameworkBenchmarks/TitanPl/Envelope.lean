import FrameworkBenchmarks.TitanPl.PassedHeaders

/-!
# The envelopes of the two ways

When the status and the headers of a static response are those that running the action gives.
-/

namespace FrameworkBenchmarks.TitanPl

open Common

/-! ### What the fast path reads -/

theorem membersToValue_eq (members : List (String × StaticValue)) :
    membersToValue members = members.map fun m => (m.1, m.2.toValue) := by
  induction members with
  | nil => rfl
  | cons m members ih =>
    rw [List.map_cons, ← ih]
    rfl

theorem toValue_object (members : List (String × StaticValue)) :
    (StaticValue.object members).toValue =
      .object ((assignAll [] members).map fun m => (m.1, m.2.toValue)) := by
  rw [StaticValue.toValue, membersToValue_eq]
  exact congrArg Value.object (assignAll_map Function.injective_id StaticValue.toValue members [])

theorem get_map_toValue (members : List (String × StaticValue)) (key : String) :
    (Value.object (members.map fun m => (m.1, m.2.toValue))).get key =
      (members.lookup key).map StaticValue.toValue := by
  induction members with
  | nil => rfl
  | cons m members ih =>
    obtain ⟨k, v⟩ := m
    by_cases hkey : k = key
    · subst hkey
      simp [Value.get]
    · have hne : (key == k) = false := by simpa using fun h => hkey h.symm
      rw [List.lookup_cons, hne, ← ih]
      simp [Value.get, hkey]

/-- A member that is missing reads like `undefined`, of which nothing can be extracted. -/
theorem get_toValue_bind {β : Type} (members : List (String × StaticValue)) (key : String)
    (f : Value ℚ → Option β) (hnull : f .null = none) :
    ((StaticValue.object members).toValue.get key).bind f =
      f ((StaticValue.object members).member key).toValue := by
  rw [toValue_object, get_map_toValue]
  unfold StaticValue.member StaticValue.ownProperties
  cases (assignAll [] members).lookup key with
  | none => exact hnull.symm
  | some v => rfl

/-- A header the fast path keeps. -/
def stringHeader (m : String × StaticValue) : Option (String × String) :=
  m.2.toValue.asStr.map (m.1, ·)

theorem stringHeader_eq_some_iff (m : String × StaticValue) (h : String × String) :
    stringHeader m = some h ↔ m = (h.1, .string h.2) := by
  obtain ⟨k, v⟩ := m
  obtain ⟨k', s⟩ := h
  cases v with
  | string t => simp [stringHeader, StaticValue.toValue, Value.asStr]
  | array items => simp [stringHeader, StaticValue.toValue, Value.asStr]
  | object members => simp [stringHeader, StaticValue.toValue, Value.asStr]
  | undefined => simp [stringHeader, StaticValue.toValue, Value.asStr]
  | null => simp [stringHeader, StaticValue.toValue, Value.asStr]
  | bool b => simp [stringHeader, StaticValue.toValue, Value.asStr]
  | number q => simp [stringHeader, StaticValue.toValue, Value.asStr]

theorem headers_extractResponseOptions (second : StaticValue) :
    (extractResponseOptions second.toValue).headers =
      (optionHeaders second).filterMap stringHeader := by
  cases second with
  | object members =>
    have hobject : (StaticValue.object members).toValue.asObject.isSome := by
      rw [toValue_object]
      rfl
    obtain ⟨fields, hfields⟩ := Option.isSome_iff_exists.mp hobject
    unfold extractResponseOptions
    rw [hfields]
    simp only [extractHeaders, get_toValue_bind members "headers" Value.asObject rfl, optionHeaders]
    cases hmember : (StaticValue.object members).member "headers" with
    | object headers =>
      rw [toValue_object]
      simp only [Value.asObject, List.filterMap_map]
      rfl
    | undefined => rfl
    | null => rfl
    | bool b => rfl
    | number q => rfl
    | string s => rfl
    | array items => rfl
  | undefined => rfl
  | null => rfl
  | bool b => rfl
  | number q => rfl
  | string s => rfl
  | array items => rfl

/-! ### The status -/

/-- What a call passes as its status. -/
def statusArgument (second : StaticValue) : StaticValue :=
  if second.isObject then second.member "status" else second

/-- The options object has a status the fast path takes. -/
def TakesStatus (second : StaticValue) (n : ℕ) : Prop :=
  100 ≤ n ∧ n ≤ 599 ∧ (∃ members, second = .object members) ∧
    second.member "status" = .number n

/-- Either the fast path takes the status, or the action that runs answers 200 as well: it has no
status that is truthy, or the integer part of its status, modulo 2^16, is 200 or no status code. -/
def StatusAgrees (e : Engine) (second : StaticValue) : Prop :=
  (∃ n, TakesStatus second n) ∨ (statusArgument second).truthy = false ∨
    ∀ x, (statusArgument second).numberValue e = some x →
      x.asU64 % 2 ^ 16 = 200 ∨ x.asU64 % 2 ^ 16 < 100 ∨ 1000 ≤ x.asU64 % 2 ^ 16

theorem asU64_natCast {n : ℕ} (hn : n ≤ 599) : Value.asU64 (.number (n : ℚ)) = some n := by
  have hle : (n : ℚ) ≤ 2 ^ 63 := by
    have hcast : (n : ℚ) ≤ 599 := by exact_mod_cast hn
    linarith [show (599 : ℚ) ≤ 2 ^ 63 by norm_num]
  simp only [Value.asU64, Rat.den_natCast, Nat.cast_nonneg, hle, and_self, if_true,
    Rat.num_natCast, Int.toNat_natCast]
  congr 1
  omega

theorem eq_natCast_of_asU64 {q : ℚ} {n : ℕ} (h : Value.asU64 (.number q) = some n)
    (hn : n ≤ 599) : q = n := by
  simp only [Value.asU64] at h
  by_cases hq : q.den = 1 ∧ 0 ≤ q ∧ q ≤ 2 ^ 63
  · rw [if_pos hq, Option.some_inj] at h
    have hnum : q.num.toNat = n := by omega
    have hnonneg : 0 ≤ q.num := Rat.num_nonneg.mpr hq.2.1
    have hint : q.num = (n : ℤ) := by omega
    calc q = (q.num : ℚ) := (Rat.coe_int_num_of_den_eq_one hq.1).symm
      _ = n := by rw [hint]; rfl
  · rw [if_neg hq] at h
    cases h

theorem status_of_takesStatus {second : StaticValue} {n : ℕ} (h : TakesStatus second n) :
    (extractResponseOptions second.toValue).status = n := by
  obtain ⟨hlow, hhigh, ⟨members, rfl⟩, hstatus⟩ := h
  have hget : ((StaticValue.object members).toValue.get "status").bind Value.asU64 = some n := by
    rw [get_toValue_bind members "status" Value.asU64 rfl, hstatus]
    exact asU64_natCast hhigh
  have hextract : extractStatus (StaticValue.object members).toValue = n := by
    unfold extractStatus
    rw [hget]
    exact if_pos ⟨hlow, hhigh⟩
  rw [toValue_object] at hextract ⊢
  exact hextract

theorem status_of_not_takesStatus {second : StaticValue} (h : ∀ n, ¬TakesStatus second n) :
    (extractResponseOptions second.toValue).status = 200 := by
  cases second with
  | object members =>
    have hextract : extractStatus (StaticValue.object members).toValue = 200 := by
      unfold extractStatus
      rw [get_toValue_bind members "status" Value.asU64 rfl]
      cases hstatus : (StaticValue.object members).member "status" with
      | number q =>
        cases hread : Value.asU64 (.number q) with
        | none => simp only [StaticValue.toValue, hread]
        | some n =>
          simp only [StaticValue.toValue, hread]
          apply if_neg
          intro hrange
          apply h n
          rw [eq_natCast_of_asU64 hread hrange.2] at hstatus
          exact ⟨hrange.1, hrange.2, ⟨members, rfl⟩, hstatus⟩
      | undefined => rfl
      | null => rfl
      | bool b => rfl
      | string s => rfl
      | array items => rfl
      | object fields => rfl
    rw [toValue_object] at hextract ⊢
    exact hextract
  | undefined => rfl
  | null => rfl
  | bool b => rfl
  | number q => rfl
  | string s => rfl
  | array items => rfl

theorem status_parseResponseOpts (second third : StaticValue) :
    (parseResponseOpts second third).status = (statusArgument second).orElse (.number 200) := by
  unfold parseResponseOpts statusArgument
  by_cases hobject : second.isObject
  · rw [if_pos hobject, if_pos hobject]
  · rw [if_neg hobject, if_neg hobject]

theorem asU64_finite {n : ℕ} (hn : n ≤ 599) : (JsNumber.finite n).asU64 = n := by
  simp only [JsNumber.asU64, Nat.floor_natCast]
  omega

theorem statusCode_eq (n : ℕ) (h100 : 100 ≤ n) (h599 : n ≤ 599) : statusCode (some n) = n := by
  have hmod : n % 2 ^ 16 = n := Nat.mod_eq_of_lt (by omega)
  simp only [statusCode, Option.getD_some, hmod]
  exact if_pos ⟨h100, by omega⟩

theorem statusCode_eq_ok_iff (n : ℕ) :
    statusCode (some n) = 200 ↔ n % 2 ^ 16 = 200 ∨ n % 2 ^ 16 < 100 ∨ 1000 ≤ n % 2 ^ 16 := by
  simp only [statusCode, Option.getD_some]
  by_cases hcode : 100 ≤ n % 2 ^ 16 ∧ n % 2 ^ 16 < 1000
  · rw [if_pos hcode]
    omega
  · rw [if_neg hcode]
    omega

/-- Both ways have the same status. -/
theorem status_eq_iff (e : Engine) (second third : StaticValue) :
    (extractResponseOptions second.toValue).status =
        statusCode (((parseResponseOpts second third).status.numberValue e).map JsNumber.asU64) ↔
      StatusAgrees e second := by
  rw [status_parseResponseOpts]
  by_cases htakes : ∃ n, TakesStatus second n
  · obtain ⟨n, hn⟩ := htakes
    have hargument : statusArgument second = .number n := by
      obtain ⟨_, _, ⟨members, hmembers⟩, hstatus⟩ := hn
      rw [← hstatus, hmembers]
      rfl
    have hlow : 100 ≤ n := hn.1
    have hhigh : n ≤ 599 := hn.2.1
    have htruthy : (StaticValue.number (n : ℚ)).truthy := by
      simp [StaticValue.truthy]
      omega
    rw [status_of_takesStatus hn, hargument]
    simp only [StaticValue.orElse, htruthy, if_true, StaticValue.numberValue, Option.map_some,
      asU64_finite hhigh, statusCode_eq n hlow hhigh, true_iff]
    exact .inl ⟨n, hn⟩
  · have hnone : ∀ n, ¬TakesStatus second n := fun n hn => htakes ⟨n, hn⟩
    rw [status_of_not_takesStatus hnone]
    unfold StatusAgrees
    rw [or_iff_right htakes, eq_comm]
    cases htruthy : (statusArgument second).truthy with
    | false =>
      have h200 : statusCode (some (JsNumber.finite (200 : ℕ)).asU64) = 200 := by
        rw [asU64_finite (by omega)]
        exact statusCode_eq 200 (by omega) (by omega)
      simp only [StaticValue.orElse, htruthy, Bool.false_eq_true, if_false,
        StaticValue.numberValue, Option.map_some, true_or, iff_true]
      exact h200
    | true =>
      simp only [StaticValue.orElse, htruthy, if_true, Bool.true_eq_false, false_or]
      cases (statusArgument second).numberValue e with
      | none => simp [statusCode]
      | some x => simp [statusCode_eq_ok_iff]

end FrameworkBenchmarks.TitanPl
