import Mathlib
import FrameworkBenchmarks.Common.Utf16
import FrameworkBenchmarks.Common.WrappingInt
import FrameworkBenchmarks.Zebra.RouteNode

/-!
# The parsers of path parameters

A parser gets the path, in UTF-16 units, and the range of the parameter. It returns a value or a
failure, or reading a position throws; the positions are recorded.
-/

namespace FrameworkBenchmarks.Zebra

open Common

/-- How a parser ends. -/
inductive Ending (α : Type) where
  | value (a : α)
  | failure
  | exception
deriving DecidableEq

/-- The positions a parser reads, and how it ends. -/
structure Parsed (α : Type) where
  reads : List ℤ
  ending : Ending α
deriving DecidableEq

namespace Parsed

variable {α β : Type}

/-- A further position that is read before. -/
def after (pos : ℤ) (p : Parsed α) : Parsed α := { p with reads := pos :: p.reads }

/-- `path.[pos]` -/
def charAt (path : List UInt16) (pos : ℤ) (next : UInt16 → Parsed α) : Parsed α :=
  match if pos < 0 then none else path[pos.toNat]? with
  | none => ⟨[pos], .exception⟩
  | some c => (next c).after pos

/-- `path.Substring(start, length)` -/
def substring (path : List UInt16) (start length : ℤ) (next : List UInt16 → Ending α) : Parsed α :=
  if start < 0 ∨ length < 0 ∨ path.length < start + length then ⟨[], .exception⟩
  else ⟨(List.range length.toNat).map fun i : ℕ => start + i,
    next ((path.drop start.toNat).take length.toNat)⟩

end Parsed

/-- `between` -/
def between {I : Type} [Sub I] [Mul I] [LE I] [DecidableLE I] [OfNat I 0] (x l u : I) : Bool :=
  (x - l) * (u - x) ≥ 0

/-- `stringParse` -/
def stringParse (path : List UInt16) (r : Range) : Parsed (List UInt16) :=
  .substring path r.start (r.finish - r.start + 1) .value

/-- `boolParse` -/
def boolParse (path : List UInt16) (r : Range) : Parsed Bool :=
  .substring path r.start (r.finish - r.start) fun s =>
    if s = units "true" ∨ s = units "True" ∨ s = units "TRUE" then .value true
    else if s = units "false" ∨ s = units "False" ∨ s = units "FALSE" then .value false
    else .failure

section Digits

variable {I : Type} [Add I] [Sub I] [Mul I] [Neg I] [LE I] [DecidableLE I] [∀ n, OfNat I n]

/-- The function `go` of `intParse` and `int64Parse`, with what is left of the path from `pos` on. -/
def goDigits (int : UInt16 → I) (finish : ℤ) (negNumber : Bool) :
    ℤ → I → List UInt16 → Parsed I
  | pos, _, [] => ⟨[pos], .exception⟩
  | pos, result, c :: rest =>
    let charDiff := int c - int 48
    Parsed.after pos <|
      if between charDiff 0 9 then
        let result := result * 10 + charDiff
        if pos = finish then ⟨[], .value (if negNumber then -result else result)⟩
        else goDigits int finish negNumber (pos + 1) result rest
      else ⟨[], .failure⟩

/-- What `intParse` and `int64Parse` share. -/
def digitsParse (int : UInt16 → I) (path : List UInt16) (r : Range) : Parsed I :=
  .charAt path r.start fun c =>
    if c = 45 then goDigits int r.finish true (r.start + 1) 0 (path.drop (r.start + 1).toNat)
    else if c = 43 then goDigits int r.finish false (r.start + 1) 0 (path.drop (r.start + 1).toNat)
    else goDigits int r.finish false r.start 0 (path.drop r.start.toNat)

end Digits

/-- `intParse` -/
def intParse : List UInt16 → Range → Parsed Int32 := digitsParse fun c => .ofNat c.toNat

/-- `int64Parse` -/
def int64Parse : List UInt16 → Range → Parsed Int64 := digitsParse fun c => .ofNat c.toNat

/-- The substring of a range. -/
def Range.slice (r : Range) (path : List UInt16) : List UInt16 :=
  (path.drop r.start.toNat).take (r.finish - r.start + 1).toNat

/-- A parser stays in its range and returns the values of the literals, and nothing else. -/
structure Parsed.Exact {α : Type} (p : Parsed α) (r : Range) (IsLiteral : α → Prop) : Prop where
  reads : ∀ pos ∈ p.reads, r.start ≤ pos ∧ pos ≤ r.finish
  ending : ∀ a, p.ending = .value a ↔ IsLiteral a

/-- The literals of a truth value. -/
def boolLiterals : Bool → List (List UInt16)
  | true => [units "true", units "True", units "TRUE"]
  | false => [units "false", units "False", units "FALSE"]

/-- A decimal digit. -/
def IsDigit (c : UInt16) : Prop := 48 ≤ c.toNat ∧ c.toNat ≤ 57

/-- The sign of a literal, true if it is a minus, and what follows. -/
def splitSign : List UInt16 → Bool × List UInt16
  | [] => (false, [])
  | c :: ds => if c = 45 then (true, ds) else if c = 43 then (false, ds) else (false, c :: ds)

/-- The value of digits behind those that have been read. -/
def digitsValue (ds : List UInt16) (n : ℤ) : ℤ :=
  ds.foldl (fun n c => n * 10 + (c.toNat - 48)) n

/-- The value of digits with their sign. -/
def signedValue (s : Bool × List UInt16) : ℤ :=
  if s.1 then -digitsValue s.2 0 else digitsValue s.2 0

/-- An optional sign and at least one digit, with a value between two bounds. -/
structure IsInteger (lo hi : ℤ) (s : List UInt16) (v : ℤ) : Prop where
  nonempty : (splitSign s).2 ≠ []
  digits : ∀ c ∈ (splitSign s).2, IsDigit c
  value : v = signedValue (splitSign s)
  bounds : lo ≤ v ∧ v ≤ hi

/-- There is something behind the sign, and if all of it passes for digits then it is digits of a
value between the bounds. -/
structure ReadsAsInteger (lo hi : ℤ) (passes : UInt16 → Prop) (s : List UInt16) : Prop where
  nonempty : (splitSign s).2 ≠ []
  passes : (∀ c ∈ (splitSign s).2, passes c) → (∀ c ∈ (splitSign s).2, IsDigit c) ∧
    lo ≤ signedValue (splitSign s) ∧ signedValue (splitSign s) ≤ hi

section Substring

variable {α : Type} {path : List UInt16} {r : Range}

/-- A range inside the path has its substring. -/
theorem substring_eq {length : ℤ} (hstart : 0 ≤ r.start) (hlength : 0 ≤ length)
    (hend : r.start + length ≤ path.length) (next : List UInt16 → Ending α) :
    Parsed.substring path r.start length next =
      ⟨(List.range length.toNat).map fun i : ℕ => r.start + i,
        next ((path.drop r.start.toNat).take length.toNat)⟩ := by
  rw [Parsed.substring, if_neg]
  omega

/-- Its positions are those from the start on. -/
theorem mem_substring_reads {length pos : ℤ}
    (hpos : pos ∈ (List.range length.toNat).map fun i : ℕ => r.start + i) :
    r.start ≤ pos ∧ pos < r.start + length := by
  obtain ⟨i, hi, rfl⟩ := List.mem_map.mp hpos
  have hlt := List.mem_range.mp hi
  omega

/-- The whole range is a string. -/
theorem stringParse_exact (hstart : 0 ≤ r.start) (hle : r.start ≤ r.finish)
    (hfinish : r.finish < path.length) :
    (stringParse path r).Exact r (· = r.slice path) := by
  rw [stringParse, substring_eq hstart (by omega) (by omega)]
  constructor
  · intro pos hpos
    have := mem_substring_reads hpos
    omega
  · intro a
    rw [Ending.value.injEq]
    exact eq_comm

/-- One position too few is taken for a truth value. -/
theorem take_eq_dropLast (hle : r.start ≤ r.finish) (hstart : 0 ≤ r.start)
    (hfinish : r.finish < path.length) :
    (path.drop r.start.toNat).take (r.finish - r.start).toNat = (r.slice path).dropLast := by
  have hlength : (r.slice path).length = (r.finish - r.start + 1).toNat := by
    rw [Range.slice, List.length_take, List.length_drop]
    omega
  rw [List.dropLast_eq_take, hlength, Range.slice, List.take_take]
  congr 1
  omega

/-- What `boolParse` makes of the string it takes. -/
theorem boolEnding_eq (s : List UInt16) (b : Bool) :
    ((if s = units "true" ∨ s = units "True" ∨ s = units "TRUE" then .value true
      else if s = units "false" ∨ s = units "False" ∨ s = units "FALSE" then .value false
      else .failure : Ending Bool) = .value b) ↔ s ∈ boolLiterals b := by
  have hmem : ∀ b s', s' ∈ boolLiterals b ↔ s' = units (cond b "true" "false") ∨
      s' = units (cond b "True" "False") ∨ s' = units (cond b "TRUE" "FALSE") := by
    intro b s'
    cases b <;> simp [boolLiterals]
  have hdisjoint : ∀ s' ∈ boolLiterals true, s' ∉ boolLiterals false := by decide
  cases b with
  | true =>
    rw [hmem]
    split
    · rename_i htrue
      simp [htrue]
    · rename_i htrue
      split
      · simp [htrue]
      · simp [htrue]
  | false =>
    split
    · rename_i htrue
      have hnot := hdisjoint s ((hmem true s).mpr htrue)
      simp [hnot]
    · rw [hmem]
      split
      · rename_i hfalse
        simp [hfalse]
      · rename_i hfalse
        simp [hfalse]

/-- A truth value is recognised exactly if neither the range nor the range without its last position
holds one. -/
theorem boolParse_exact_iff (hstart : 0 ≤ r.start) (hle : r.start ≤ r.finish)
    (hfinish : r.finish < path.length) :
    (boolParse path r).Exact r (fun b => r.slice path ∈ boolLiterals b) ↔
      ∀ b, r.slice path ∉ boolLiterals b ∧ (r.slice path).dropLast ∉ boolLiterals b := by
  have hshort : ∀ b b', ∀ s ∈ boolLiterals b, s.dropLast ∉ boolLiterals b' := by decide
  rw [boolParse, substring_eq hstart (by omega) (by omega), take_eq_dropLast hle hstart hfinish]
  constructor
  · intro hexact b
    have hending := (boolEnding_eq (r.slice path).dropLast b).symm.trans (hexact.ending b)
    have hnot : (r.slice path) ∉ boolLiterals b := by
      intro hmem
      exact hshort b b _ hmem (hending.mpr hmem)
    exact ⟨hnot, fun hmem => hnot (hending.mp hmem)⟩
  · intro hnot
    constructor
    · intro pos hpos
      have := mem_substring_reads hpos
      omega
    · intro b
      rw [boolEnding_eq]
      exact iff_of_false (hnot b).2 (hnot b).1

end Substring

section Digits

variable {I : Type} [Add I] [Sub I] [Mul I] [Neg I] [LE I] [DecidableLE I] [∀ n, OfNat I n]
  {int : UInt16 → I} {finish pos : ℤ} {negNumber : Bool} {body rest : List UInt16}

/-- With digits still to come inside the range, `go` stays inside it. -/
theorem goDigits_reads (result : I) (hpos : pos + body.length = finish + 1) (hbody : body ≠ []) :
    ∀ p ∈ (goDigits int finish negNumber pos result (body ++ rest)).reads,
      pos ≤ p ∧ p ≤ finish := by
  induction body generalizing pos result with
  | nil => exact absurd rfl hbody
  | cons c body ih =>
    rw [List.length_cons] at hpos
    intro p hp
    rw [List.cons_append, goDigits] at hp
    rcases List.mem_cons.mp hp with rfl | hlater
    · omega
    · split at hlater
      · split at hlater
        · cases hlater
        · have hne : body ≠ [] := by
            intro hnil
            rw [hnil, List.length_nil] at hpos
            omega
          have := ih _ (by omega) hne p hlater
          omega
      · cases hlater

/-- Without any, the position behind the range is read. -/
theorem goDigits_reads_beyond (result : I) :
    finish + 1 ∈ (goDigits int finish negNumber (finish + 1) result rest).reads := by
  cases rest with
  | nil => exact List.mem_singleton_self _
  | cons c rest => exact List.mem_cons_self

/-- The range is taken apart as its literal is. -/
theorem digitsParse_eq (int : UInt16 → I) {path : List UInt16} {r : Range} (hstart : 0 ≤ r.start)
    (hle : r.start ≤ r.finish) (hfinish : r.finish < path.length) :
    ∃ pos rest, r.start ≤ pos ∧
      pos + (splitSign (r.slice path)).2.length = r.finish + 1 ∧
      digitsParse int path r = (goDigits int r.finish (splitSign (r.slice path)).1 pos 0
        ((splitSign (r.slice path)).2 ++ rest)).after r.start := by
  have hlength : (r.slice path).length = (r.finish - r.start + 1).toNat := by
    rw [Range.slice, List.length_take, List.length_drop]
    omega
  have hdrop : path.drop r.start.toNat =
      r.slice path ++ (path.drop r.start.toNat).drop (r.finish - r.start + 1).toNat :=
    (List.take_append_drop _ _).symm
  have hdropNext : path.drop (r.start + 1).toNat = (path.drop r.start.toNat).drop 1 := by
    rw [List.drop_drop]
    congr 1
    omega
  generalize (path.drop r.start.toNat).drop (r.finish - r.start + 1).toNat = rest at hdrop
  obtain ⟨c, body, hslice⟩ := List.exists_cons_of_length_pos (l := r.slice path) (by omega)
  rw [hslice, List.length_cons] at hlength
  have hchar : path[r.start.toNat]? = some c := by
    rw [← List.head?_drop, hdrop, hslice]
    rfl
  rw [digitsParse, Parsed.charAt, if_neg (Int.not_lt.mpr hstart), hchar, hdropNext, hdrop, hslice]
  dsimp only [splitSign]
  by_cases hminus : c = 45
  · rw [if_pos hminus, if_pos hminus]
    exact ⟨r.start + 1, rest, by omega, by dsimp only; omega, rfl⟩
  · rw [if_neg hminus, if_neg hminus]
    by_cases hplus : c = 43
    · rw [if_pos hplus, if_pos hplus]
      exact ⟨r.start + 1, rest, by omega, by dsimp only; omega, rfl⟩
    · rw [if_neg hplus, if_neg hplus]
      refine ⟨r.start, rest, Int.le_refl _, ?_, rfl⟩
      rw [List.length_cons]
      omega

variable [WrappingInt I]

/-- The digits are added up as integers are, and reduced. -/
theorem goDigits_ending (negNumber : Bool) (rest : List UInt16)
    (hint : ∀ c, int c = WrappingInt.ofInt c.toNat)
    (hten : (10 : I) = WrappingInt.ofInt 10) (n : ℤ) (hpos : pos + body.length = finish + 1)
    (hbody : body ≠ []) :
    (goDigits int finish negNumber pos (WrappingInt.ofInt n) (body ++ rest)).ending =
      if ∀ c ∈ body, between (int c - int 48) 0 9 then
        .value (WrappingInt.ofInt (if negNumber then -digitsValue body n else digitsValue body n))
      else .failure := by
  induction body generalizing pos n with
  | nil => exact absurd rfl hbody
  | cons c body ih =>
    rw [List.length_cons] at hpos
    have hresult : (WrappingInt.ofInt n : I) * 10 + (int c - int 48) =
        WrappingInt.ofInt (n * 10 + (c.toNat - 48)) := by
      rw [WrappingInt.ofInt_add, WrappingInt.ofInt_mul, WrappingInt.ofInt_sub, hten, hint, hint]
      rfl
    rw [List.cons_append, goDigits]
    simp only [List.forall_mem_cons]
    rw [hresult]
    by_cases hdigit : between (int c - int 48) 0 9
    · rw [if_pos hdigit]
      by_cases hlast : pos = finish
      · have hnil : body = [] := by
          apply List.eq_nil_of_length_eq_zero
          omega
        subst hnil
        have hall : between (int c - int 48) 0 9 ∧
            ∀ c' ∈ ([] : List UInt16), between (int c' - int 48) 0 9 :=
          ⟨hdigit, fun _ h => (nomatch h)⟩
        rw [if_pos hlast, if_pos hall]
        cases negNumber with
        | false => rfl
        | true => exact congrArg Ending.value (WrappingInt.ofInt_neg _).symm
      · have hne : body ≠ [] := by
          intro hnil
          rw [hnil, List.length_nil] at hpos
          omega
        rw [if_neg hlast]
        simp only [hdigit, true_and]
        exact ih _ (by omega) hne
    · rw [if_neg hdigit, if_neg fun hall => hdigit hall.1]
      rfl

/-- A number is read right exactly if its range is not a lone sign and does not pass for a number
without being one. -/
theorem digitsParse_exact_iff (int : UInt16 → I) {path : List UInt16} {r : Range}
    (hint : ∀ c, int c = WrappingInt.ofInt c.toNat) (hzero : (0 : I) = WrappingInt.ofInt 0)
    (hten : (10 : I) = WrappingInt.ofInt 10)
    (hdigit : ∀ c, IsDigit c → between (int c - int 48) 0 9)
    (hstart : 0 ≤ r.start) (hle : r.start ≤ r.finish) (hfinish : r.finish < path.length) :
    (digitsParse int path r).Exact r (fun v => IsInteger (WrappingInt.minInt I)
        (WrappingInt.maxInt I) (r.slice path) (WrappingInt.toInt v)) ↔
      ReadsAsInteger (WrappingInt.minInt I) (WrappingInt.maxInt I)
        (fun c => between (int c - int 48) 0 9) (r.slice path) := by
  obtain ⟨pos, rest, hpos, hend, heq⟩ := digitsParse_eq int hstart hle hfinish
  rw [hzero] at heq
  rw [heq]
  by_cases hbody : (splitSign (r.slice path)).2 = []
  · have hbeyond : pos = r.finish + 1 := by
      rw [hbody, List.length_nil] at hend
      omega
    rw [hbody, hbeyond]
    constructor
    · intro hexact
      have hread := hexact.reads (r.finish + 1)
        (List.mem_cons_of_mem _ (goDigits_reads_beyond _))
      omega
    · intro hreads
      exact absurd hbody hreads.nonempty
  · have hreads : ∀ p ∈ ((goDigits int r.finish (splitSign (r.slice path)).1 pos
        (WrappingInt.ofInt 0) ((splitSign (r.slice path)).2 ++ rest)).after r.start).reads,
        r.start ≤ p ∧ p ≤ r.finish := by
      intro p hp
      rcases List.mem_cons.mp hp with rfl | hlater
      · exact ⟨Int.le_refl _, hle⟩
      · have := goDigits_reads _ hend hbody p hlater
        omega
    have hending := goDigits_ending (splitSign (r.slice path)).1 rest hint hten 0 hend hbody
    by_cases hpasses : ∀ c ∈ (splitSign (r.slice path)).2, between (int c - int 48) 0 9
    · rw [if_pos hpasses] at hending
      change _ = Ending.value (WrappingInt.ofInt (signedValue (splitSign (r.slice path)))) at hending
      constructor
      · intro hexact
        have hinteger := (hexact.ending _).mp hending
        refine ⟨hbody, fun _ => ⟨hinteger.digits, ?_⟩⟩
        rw [← hinteger.value]
        exact hinteger.bounds
      · intro hright
        obtain ⟨hdigits, hmin, hmax⟩ := hright.passes hpasses
        have htoInt := WrappingInt.toInt_ofInt (I := I) hmin hmax
        refine ⟨hreads, fun v => ⟨fun hv => ?_, fun hv => ?_⟩⟩
        · obtain rfl := Ending.value.inj (hending.symm.trans hv)
          rw [htoInt]
          exact ⟨hbody, hdigits, rfl, hmin, hmax⟩
        · rw [Parsed.after]
          dsimp only
          rw [hending]
          exact congrArg Ending.value (WrappingInt.toInt_inj (htoInt.trans hv.value.symm))
    · rw [if_neg hpasses] at hending
      refine iff_of_true ⟨hreads, fun v => iff_of_false ?_ fun hv => ?_⟩
        ⟨hbody, fun hall => absurd hall hpasses⟩
      · intro hv
        exact nomatch hending.symm.trans hv
      · exact hpasses fun c hc => hdigit c (hv.digits c hc)

end Digits

section Between

/-- The product of the two differences. -/
theorem charDiff_mul (c : ℤ) : (c - 48 - 0) * (9 - (c - 48)) = (c - 48) * (57 - c) := by
  rw [Int.sub_zero]
  congr 1
  omega

/-- Without overflow the test is the one for a digit. -/
theorem charDiff_mul_nonneg_iff (c : UInt16) :
    0 ≤ ((c.toNat : ℤ) - 48) * (57 - c.toNat) ↔ IsDigit c := by
  rw [IsDigit]
  constructor
  · intro hle
    constructor
    · by_contra hsmall
      nlinarith
    · by_contra hlarge
      nlinarith
  · intro hdigit
    apply Int.mul_nonneg
    · omega
    · omega

/-- In 32 bits the product overflows for large differences, and the test succeeds. -/
theorem between_int32 (c : UInt16) :
    between (Int32.ofNat c.toNat - Int32.ofNat (48 : UInt16).toNat) 0 9 ↔
      IsDigit c ∨ 46394 ≤ c.toNat := by
  have hlt : (c.toNat : ℤ) < 65536 := Int.ofNat_lt.mpr c.toNat_lt
  have hproduct : (Int32.ofNat c.toNat - Int32.ofNat (48 : UInt16).toNat - 0) *
      (9 - (Int32.ofNat c.toNat - Int32.ofNat (48 : UInt16).toNat)) =
        Int32.ofInt ((c.toNat - 48) * (57 - c.toNat)) := by
    rw [← charDiff_mul, Int32.ofInt_mul, Int32.ofInt_sub, Int32.ofInt_sub, Int32.ofInt_sub,
      Int32.ofInt_sub]
    rfl
  rw [between, hproduct, decide_eq_true_iff, ge_iff_le, Int32.le_iff_toInt_le, Int32.toInt_ofInt,
    Int32.toInt_zero]
  by_cases hlow : c.toNat < 46394
  · rw [Int.bmod_eq_of_le (by norm_num; nlinarith) (by norm_num; nlinarith),
      charDiff_mul_nonneg_iff]
    exact (or_iff_left (Nat.not_le.mpr hlow)).symm
  · -- one turn around the machine integers brings the product back above zero
    rw [← Int.add_bmod_right, Int.bmod_eq_of_le (by norm_num; nlinarith) (by norm_num; nlinarith)]
    apply iff_of_true
    · norm_num
      nlinarith
    · exact .inr (Nat.not_lt.mp hlow)

/-- In 64 bits it does not. -/
theorem between_int64 (c : UInt16) :
    between (Int64.ofNat c.toNat - Int64.ofNat (48 : UInt16).toNat) 0 9 ↔ IsDigit c := by
  have hlt : (c.toNat : ℤ) < 65536 := Int.ofNat_lt.mpr c.toNat_lt
  have hproduct : (Int64.ofNat c.toNat - Int64.ofNat (48 : UInt16).toNat - 0) *
      (9 - (Int64.ofNat c.toNat - Int64.ofNat (48 : UInt16).toNat)) =
        Int64.ofInt ((c.toNat - 48) * (57 - c.toNat)) := by
    rw [← charDiff_mul, Int64.ofInt_mul, Int64.ofInt_sub, Int64.ofInt_sub, Int64.ofInt_sub,
      Int64.ofInt_sub]
    rfl
  rw [between, hproduct, decide_eq_true_iff, ge_iff_le, Int64.le_iff_toInt_le, Int64.toInt_ofInt,
    Int64.toInt_zero, Int.bmod_eq_of_le (by norm_num; nlinarith) (by norm_num; nlinarith),
    charDiff_mul_nonneg_iff]

end Between

/-- In every range inside the path, strings are read right. Truth values are only if neither the range
nor the range without its last position holds one, numbers only if the range is not a lone sign and
does not pass for a number without being one that fits; in 32 bits large characters pass for digits. -/
theorem parsers_exact_iff {path : List UInt16} {r : Range} (hstart : 0 ≤ r.start)
    (hle : r.start ≤ r.finish) (hfinish : r.finish < path.length) :
    (stringParse path r).Exact r (· = r.slice path) ∧
      ((boolParse path r).Exact r (fun b => r.slice path ∈ boolLiterals b) ↔
        ∀ b, r.slice path ∉ boolLiterals b ∧ (r.slice path).dropLast ∉ boolLiterals b) ∧
      ((intParse path r).Exact r (fun v =>
          IsInteger (-2 ^ 31) (2 ^ 31 - 1) (r.slice path) v.toInt) ↔
        ReadsAsInteger (-2 ^ 31) (2 ^ 31 - 1) (fun c => IsDigit c ∨ 46394 ≤ c.toNat)
          (r.slice path)) ∧
      ((int64Parse path r).Exact r (fun v =>
          IsInteger (-2 ^ 63) (2 ^ 63 - 1) (r.slice path) v.toInt) ↔
        ReadsAsInteger (-2 ^ 63) (2 ^ 63 - 1) IsDigit (r.slice path)) := by
  have h32 := digitsParse_exact_iff (I := Int32) (fun c => .ofNat c.toNat) (fun _ => rfl) rfl
    rfl (fun c hc => (between_int32 c).mpr (.inl hc)) hstart hle hfinish
  have h64 := digitsParse_exact_iff (I := Int64) (fun c => .ofNat c.toNat) (fun _ => rfl) rfl
    rfl (fun c hc => (between_int64 c).mpr hc) hstart hle hfinish
  simp only [between_int32] at h32
  simp only [between_int64] at h64
  exact ⟨stringParse_exact hstart hle hfinish, boolParse_exact_iff hstart hle hfinish, h32, h64⟩

/-- A negative number behind a slash. -/
theorem parsers_exact_number :
    (stringParse (units "/-7") ⟨1, 2⟩).Exact ⟨1, 2⟩ (· = units "-7") ∧
      (intParse (units "/-7") ⟨1, 2⟩).Exact ⟨1, 2⟩ (fun v =>
        IsInteger (-2 ^ 31) (2 ^ 31 - 1) (units "-7") v.toInt) := by
  have hexact := @parsers_exact_iff (units "/-7") ⟨1, 2⟩ (by decide) (by decide) (by decide)
  refine ⟨hexact.1, hexact.2.2.1.mpr ⟨by decide, fun _ => ⟨?_, by decide, by decide⟩⟩⟩
  intro c hc
  obtain rfl : c = 55 := List.mem_singleton.mp hc
  exact ⟨by decide, by decide⟩

/-- A truth value that fills its range is refused, a lone sign reads beyond its range, a number that
does not fit is reduced, and a character of another script counts as a digit. -/
theorem parsers_not_exact :
    (¬(boolParse (units "true") ⟨0, 3⟩).Exact ⟨0, 3⟩ fun b => units "true" ∈ boolLiterals b) ∧
      (intParse (units "-1") ⟨0, 0⟩).reads = [0, 1, 2] ∧
      (intParse (units "4294967297") ⟨0, 9⟩).ending = .value 1 ∧
      (intParse [46394] ⟨0, 0⟩).ending = .value 46346 ∧
      (int64Parse (units "+") ⟨0, 0⟩).ending = .exception := by
  constructor
  · intro hexact
    have hfailure : (boolParse (units "true") ⟨0, 3⟩).ending ≠ .value true := by decide
    exact hfailure ((hexact.ending true).mpr (by decide))
  · decide +kernel

end FrameworkBenchmarks.Zebra
