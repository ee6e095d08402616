import FrameworkBenchmarks.Common.Bytes
import FrameworkBenchmarks.Common.Delimited
import FrameworkBenchmarks.H2o.RandomIds

/-!
# The number of queries of a request

`get_query_number` of the h2o server looks for the parameter `queries` in the query string of a path
and converts what follows it with `atoi`. The path is followed by other bytes in memory, and a pointer
into the query string is a position in it. The C library is glibc's, where `atoi` is `strtol` cut to an
`int`.
-/

namespace FrameworkBenchmarks.H2o

open FrameworkBenchmarks.Common

/-- `QUERIES_PARAMETER` -/
def queriesParameter : List UInt8 := ascii "queries="

abbrev ampersand : UInt8 := 38

/-- What must not happen in the search: a read outside the query string, an unsigned subtraction below
zero, or a loop without end. -/
inductive SearchFault
  | outOfBounds
  | belowZero
  | outOfFuel
  deriving DecidableEq, Repr

/-- The bytes that a function reads from a position on. -/
def readRange (bytes : List UInt8) (start n : ℕ) : Except SearchFault (List UInt8) :=
  if start + n ≤ bytes.length then .ok ((bytes.drop start).take n) else .error .outOfBounds

/-- The difference of two `size_t` values. -/
def subSize (a b : ℕ) : Except SearchFault ℕ := if b ≤ a then .ok (a - b) else .error .belowZero

/-- `get_query_param`: the position behind the parameter, in the bytes of the query string. -/
def getQueryParam (bytes param : List UInt8) : ℕ → ℕ → ℕ → Except SearchFault (Option ℕ)
  | 0, _, _ => .error .outOfFuel
  | fuel + 1, query, queryLen =>
    if param.length < queryLen then do
      let compared ← readRange bytes query param.length
      if compared = param then return some (query + param.length)
      else
        let searched ← readRange bytes query queryLen
        match searched.idxOf? ampersand with
        | none => return none
        | some next => getQueryParam bytes param fuel (query + next + 1) (← subSize queryLen (next + 1))
    else .ok none

/-- `isspace` -/
def isSpace (c : UInt8) : Bool := c = 32 || (9 ≤ c && c ≤ 13)

/-- The value of decimal digits. -/
def digitsValue (digits : List UInt8) : ℤ :=
  digits.foldl (fun value c => 10 * value + ((c.toNat : ℤ) - 48)) 0

/-- A sign, if there is one, and the text behind it. -/
def takeSign (text : List UInt8) : ℤ × List UInt8 :=
  if text.head? = some 45 then (-1, text.tail)
  else if text.head? = some 43 then (1, text.tail) else (1, text)

/-- The number that a text starts with. -/
def leadingNumber (text : List UInt8) : Option ℤ :=
  let digits := (takeSign text).2.takeWhile isDigit
  if digits = [] then none else some ((takeSign text).1 * digitsValue digits)

/-- A number as a `long`, at the end of its range if it lies outside. -/
def saturate (z : ℤ) : ℤ := max (-2 ^ 63) (min (2 ^ 63 - 1) z)

/-- A `long` cut to an `int`. -/
def toInt (z : ℤ) : ℤ := Int.bmod (saturate z) (2 ^ 32)

def atoi (text : List UInt8) : ℤ :=
  match leadingNumber (text.dropWhile isSpace) with
  | none => 0
  | some z => toInt z

/-- The number of queries that is used for a number. -/
def clampQueries (numQuery : ℤ) : ℤ :=
  if numQuery < 1 then 1 else if MAX_QUERIES < numQuery then MAX_QUERIES else numQuery

/-- `get_query_number`: the position of the question mark, the path and the bytes behind it. -/
def getQueryNumber (queryAt : Option ℕ) (path after : List UInt8) : Except SearchFault ℤ := do
  match queryAt with
  | none => return clampQueries 0
  | some mark =>
    let queryLen ← subSize (← subSize path.length mark) 1
    let bytes ← readRange path (mark + 1) queryLen
    match ← getQueryParam bytes queriesParameter (queryLen + 1) 0 queryLen with
    | none => return clampQueries 0
    | some n => return clampQueries (atoi ((path ++ after).drop (mark + 1 + n)))

/-! ### Parameters -/

/-- The parameters of a query string. -/
def parameters (query : List UInt8) : List (List UInt8) := query.splitOn ampersand

/-- A parameter without an equals sign has a name, and an empty value. -/
def parameterName (parameter : List UInt8) : List UInt8 := parameter.takeWhile (· ≠ 61)

def parameterValue (parameter : List UInt8) : List UInt8 := (parameter.dropWhile (· ≠ 61)).tail

/-- The number that the first parameter with the name `queries` asks for. -/
def requestedQueries (query : List UInt8) : ℤ :=
  match (parameters query).find? fun p => parameterName p = ascii "queries" with
  | none => 1
  | some p =>
    match leadingNumber (parameterValue p) with
    | none => 1
    | some z => clampQueries z

/-! ### The search -/

theorem readRange_eq {bytes : List UInt8} {start n : ℕ} (h : start + n ≤ bytes.length) :
    readRange bytes start n = .ok ((bytes.drop start).take n) := if_pos h

/-- One turn of the search, where the query is all that is left of the bytes. -/
theorem getQueryParam_succ {bytes param : List UInt8} {start len fuel : ℕ}
    (hlen : start + len = bytes.length) :
    getQueryParam bytes param (fuel + 1) start len =
      if param.length < len then
        if (bytes.drop start).take param.length = param then .ok (some (start + param.length))
        else
          match (bytes.drop start).idxOf? ampersand with
          | none => .ok none
          | some i => getQueryParam bytes param fuel (start + i + 1) (len - (i + 1))
      else .ok none := by
  rw [getQueryParam]
  by_cases hroom : param.length < len
  · have hall : (bytes.drop start).take len = bytes.drop start :=
      List.take_of_length_le (by rw [List.length_drop]; omega)
    rw [if_pos hroom, if_pos hroom, readRange_eq (by omega), readRange_eq hlen.le, hall]
    by_cases hcompared : (bytes.drop start).take param.length = param
    · rw [if_pos hcompared]
      exact if_pos hcompared
    · rw [if_neg hcompared]
      refine (if_neg hcompared).trans ?_
      cases hi : (bytes.drop start).idxOf? ampersand with
      | none => simp only [bind, Except.bind, hi, pure, Except.pure]
      | some i =>
        have hbound : i < (bytes.drop start).length := (List.idxOf?_eq_some_iff.mp hi).1
        have hsub : subSize len (i + 1) = .ok (len - (i + 1)) :=
          if_pos (by rw [List.length_drop] at hbound; omega)
        simp only [bind, Except.bind, hi, hsub]
  · rw [if_neg hroom, if_neg hroom]

/-- What follows a segment in a query: nothing, or a separator. -/
theorem joined_eq_append (seg : List UInt8) (segs : List (List UInt8)) :
    ∃ rest, joined ampersand (seg :: segs) = seg ++ rest ∧ (∀ c ∈ rest.head?, c = ampersand) := by
  by_cases hsegs : segs = []
  · exact ⟨[], by rw [hsegs, joined_singleton, List.append_nil], by simp⟩
  · exact ⟨_, joined_cons hsegs, by simp [eq_comm]⟩

/-- A separator that the parameter does not contain ends the comparison. -/
theorem prefix_joined {param seg : List UInt8} {segs : List (List UInt8)} (hparam : ampersand ∉ param) :
    param <+: joined ampersand (seg :: segs) ↔ param <+: seg := by
  obtain ⟨rest, hjoined, hrest⟩ := joined_eq_append seg segs
  rw [hjoined]
  refine ⟨fun h => ?_, fun h => h.trans (List.prefix_append seg rest)⟩
  rcases List.prefix_or_prefix_of_prefix h (List.prefix_append seg rest) with hprefix | hprefix
  · exact hprefix
  · obtain ⟨more, rfl⟩ := hprefix
    rw [List.prefix_append_right_inj] at h
    cases more with
    | nil => simp
    | cons c more =>
      obtain ⟨tail, rfl⟩ := h
      have hc : c = ampersand := hrest c rfl
      exact absurd (by simp [hc]) hparam

theorem length_le_joined {seg : List UInt8} {segs : List (List UInt8)} (h : seg ∈ segs) :
    seg.length ≤ (joined ampersand segs).length := by
  induction segs with
  | nil => cases h
  | cons first segs ih =>
    rcases List.mem_cons.mp h with rfl | h
    · obtain ⟨rest, hjoined, -⟩ := joined_eq_append seg segs
      rw [hjoined, List.length_append]
      exact Nat.le_add_right _ _
    · rw [joined_cons (List.ne_nil_of_mem h), List.length_append, List.length_cons]
      have hle := ih h
      omega

/-- The next separator of a query ends its first segment. -/
theorem idxOf?_joined {seg : List UInt8} {segs : List (List UInt8)} (hseg : ampersand ∉ seg) :
    (joined ampersand (seg :: segs)).idxOf? ampersand = if segs = [] then none else some seg.length := by
  split
  · rename_i hsegs
    rw [hsegs, joined_singleton, List.idxOf?_eq_none_iff]
    exact hseg
  · rename_i hsegs
    rw [joined_cons hsegs, List.idxOf?_eq_some_iff]
    refine ⟨by simp, by simp, fun j hj heq => hseg ?_⟩
    rw [List.getElem_append_left hj] at heq
    exact heq ▸ List.getElem_mem hj

/-- The search finds the first segment that starts with the parameter, unless the parameter is all that
is left of the query, and it reads nothing behind the query. -/
theorem getQueryParam_spec {bytes param : List UInt8} (hparam : ampersand ∉ param)
    {segs : List (List UInt8)} (hsegs : ∀ seg ∈ segs, ampersand ∉ seg) (hne : segs ≠ [])
    {start len fuel : ℕ} (hbytes : bytes.drop start = joined ampersand segs)
    (hlen : start + len = bytes.length) (hfuel : len < fuel) :
    ∃ found, getQueryParam bytes param fuel start len = .ok found ∧
      match segs.find? fun seg => param.isPrefixOf seg with
      | none => found = none
      | some seg => (found = none ∧ seg = param) ∨ ∃ n rest, found = some n ∧ n ≤ bytes.length ∧
          bytes.drop n = seg.drop param.length ++ rest ∧ ∀ c ∈ rest.head?, c = ampersand := by
  induction segs generalizing start len fuel with
  | nil => exact absurd rfl hne
  | cons seg segs ih =>
    obtain ⟨fuel, rfl⟩ := Nat.exists_eq_succ_of_ne_zero (Nat.ne_zero_of_lt hfuel)
    have hlength : (joined ampersand (seg :: segs)).length = len := by
      rw [← hbytes, List.length_drop]
      omega
    have hseg : ampersand ∉ seg := hsegs seg List.mem_cons_self
    by_cases hroom : param.length < len
    · by_cases hprefix : param <+: seg
      · obtain ⟨rest, hjoined, hrest⟩ := joined_eq_append seg segs
        have hcompared : (bytes.drop start).take param.length = param := by
          rw [hbytes]
          exact (List.prefix_iff_eq_take.mp ((prefix_joined hparam).mpr hprefix)).symm
        rw [getQueryParam_succ hlen, if_pos hroom, if_pos hcompared,
          List.find?_cons_of_pos (List.isPrefixOf_iff_prefix.mpr hprefix)]
        refine ⟨_, rfl, Or.inr ⟨_, rest, rfl, by omega, ?_, hrest⟩⟩
        rw [← List.drop_drop, hbytes, hjoined, List.drop_append_of_le_length hprefix.length_le]
      · have hcompared : (bytes.drop start).take param.length ≠ param := by
          rw [hbytes]
          intro heq
          exact hprefix ((prefix_joined hparam).mp (List.prefix_iff_eq_take.mpr heq.symm))
        rw [List.find?_cons_of_neg (by simpa using hprefix), getQueryParam_succ hlen, if_pos hroom,
          if_neg hcompared, hbytes, idxOf?_joined hseg]
        by_cases hlast : segs = []
        · rw [if_pos hlast]
          exact ⟨none, rfl, by simp [hlast]⟩
        · rw [joined_cons hlast, List.length_append, List.length_cons] at hlength
          rw [if_neg hlast]
          apply ih (fun s hs => hsegs s (List.mem_cons_of_mem _ hs)) hlast
          · rw [Nat.add_assoc, ← List.drop_drop, hbytes, joined_cons hlast]
            simp
          · omega
          · omega
    · refine ⟨none, by rw [getQueryParam, if_neg hroom], ?_⟩
      split
      · rfl
      · rename_i seg' hfind
        have hprefix : param <+: seg' := List.isPrefixOf_iff_prefix.mp (List.find?_some hfind)
        have hle := length_le_joined (List.mem_of_find?_eq_some hfind)
        have heq := hprefix.eq_of_length_le (by omega)
        exact Or.inl ⟨rfl, heq.symm⟩

/-! ### The number -/

/-- What follows the path does not continue a number, nor start one behind white space. -/
def Stops (tail : List UInt8) : Prop :=
  ∀ c ∈ (tail.dropWhile isSpace).head?, isDigit c = false ∧ c ≠ 43 ∧ c ≠ 45

theorem takeSign_append {text : List UInt8} (htext : text ≠ []) (tail : List UInt8) :
    takeSign (text ++ tail) = ((takeSign text).1, (takeSign text).2 ++ tail) := by
  cases text with
  | nil => exact absurd rfl htext
  | cons c text =>
    unfold takeSign
    simp only [List.cons_append, List.head?_cons, List.tail_cons]
    by_cases hminus : c = 45
    · simp [hminus]
    · by_cases hplus : c = 43
      · simp [hplus]
      · simp [hminus, hplus]

theorem isDigit_of_isSpace {c : UInt8} (h : isSpace c = true) :
    isDigit c = false ∧ c ≠ 43 ∧ c ≠ 45 := by
  unfold isSpace at h
  unfold isDigit
  grind

theorem Stops.head {tail : List UInt8} (h : Stops tail) : ∀ c ∈ tail.head?, isDigit c = false := by
  intro c hc
  cases tail with
  | nil => cases hc
  | cons b tail =>
    obtain rfl : b = c := by simpa using hc
    by_cases hspace : isSpace b = true
    · exact (isDigit_of_isSpace hspace).1
    · exact (h b (by rw [List.dropWhile_cons_of_neg hspace]; rfl)).1

theorem takeWhile_append_of_head {p : UInt8 → Bool} {tail : List UInt8}
    (h : ∀ c ∈ tail.head?, p c = false) (text : List UInt8) :
    (text ++ tail).takeWhile p = text.takeWhile p := by
  induction text with
  | nil =>
    cases tail with
    | nil => rfl
    | cons c tail => simp [h c rfl]
  | cons b text ih =>
    by_cases hb : p b = true
    · rw [List.cons_append, List.takeWhile_cons_of_pos hb, List.takeWhile_cons_of_pos hb, ih]
    · rw [List.cons_append, List.takeWhile_cons_of_neg hb, List.takeWhile_cons_of_neg hb]

/-- A text that starts with neither a digit nor a sign is no number. -/
theorem leadingNumber_of_head {text : List UInt8}
    (h : ∀ c ∈ text.head?, isDigit c = false ∧ c ≠ 43 ∧ c ≠ 45) : leadingNumber text = none := by
  cases text with
  | nil => rfl
  | cons c text =>
    obtain ⟨hdigit, hplus, hminus⟩ := h c rfl
    simp [leadingNumber, takeSign, hplus, hminus, hdigit]

theorem dropWhile_isSpace {text : List UInt8} (h : ∀ c ∈ text.head?, isSpace c = false) :
    text.dropWhile isSpace = text := by
  cases text with
  | nil => rfl
  | cons c text => rw [List.dropWhile_cons_of_neg (by simp [h c rfl])]

/-- White space starts no number. -/
theorem leadingNumber_of_blank {text : List UInt8} (h : ¬∀ c ∈ text.head?, isSpace c = false) :
    leadingNumber text = none := by
  apply leadingNumber_of_head
  intro c hc
  apply isDigit_of_isSpace
  by_contra hspace
  refine h fun b hb => ?_
  rw [Option.mem_unique hb hc]
  exact Bool.eq_false_iff.mpr hspace

/-- The number of a value does not depend on what follows the path. -/
theorem leadingNumber_append {tail : List UInt8} (h : Stops tail) (text : List UInt8) :
    leadingNumber ((text ++ tail).dropWhile isSpace) = leadingNumber (text.dropWhile isSpace) := by
  rw [List.dropWhile_append]
  by_cases hblank : text.dropWhile isSpace = []
  · rw [if_pos (by rw [hblank]; rfl), hblank]
    exact leadingNumber_of_head h
  · rw [if_neg (by simpa using hblank)]
    unfold leadingNumber
    rw [takeSign_append hblank, takeWhile_append_of_head h.head]

/-- A separator stops a number. -/
theorem stops_append {rest after : List UInt8} (hrest : ∀ c ∈ rest.head?, c = ampersand)
    (hafter : Stops after) : Stops (rest ++ after) := by
  cases rest with
  | nil => exact hafter
  | cons c rest =>
    obtain rfl : c = ampersand := hrest c rfl
    intro b hb
    rw [List.cons_append, List.dropWhile_cons_of_neg (by decide)] at hb
    obtain rfl : ampersand = b := by simpa using hb
    decide

/-! ### What the server answers -/

/-- The query string of a path, which is empty where there is no question mark. -/
def queryString (queryAt : Option ℕ) (path : List UInt8) : List UInt8 :=
  match queryAt with
  | none => []
  | some mark => path.drop (mark + 1)

/-- The number behind the first occurrence of `queries=` at the start of a parameter. -/
def foundQueries (query : List UInt8) : ℤ :=
  match (parameters query).find? fun p => queriesParameter.isPrefixOf p with
  | none => 1
  | some p =>
    match leadingNumber ((p.drop queriesParameter.length).dropWhile isSpace) with
    | none => 1
    | some z => clampQueries (toInt z)

theorem clampQueries_atoi {tail : List UInt8} (h : Stops tail) (text : List UInt8) :
    clampQueries (atoi (text ++ tail)) =
      match leadingNumber (text.dropWhile isSpace) with
      | none => 1
      | some z => clampQueries (toInt z) := by
  rw [atoi, leadingNumber_append h]
  cases leadingNumber (text.dropWhile isSpace) <;> rfl

/-- The search neither faults nor runs out of turns, and the number is the one that was found. -/
theorem getQueryNumber_eq {queryAt : Option ℕ} {path after : List UInt8}
    (hmark : ∀ mark ∈ queryAt, mark < path.length) (hafter : Stops after) :
    getQueryNumber queryAt path after = .ok (foundQueries (queryString queryAt path)) := by
  cases queryAt with
  | none => rfl
  | some mark =>
    have hmark : mark < path.length := hmark mark rfl
    have hlen : subSize path.length mark = .ok (path.length - mark) := if_pos hmark.le
    have hone : subSize (path.length - mark) 1 = .ok (path.length - mark - 1) := if_pos (by omega)
    have hbytes : readRange path (mark + 1) (path.length - mark - 1) = .ok (path.drop (mark + 1)) := by
      rw [readRange_eq (by omega), List.take_of_length_le (by rw [List.length_drop]; omega)]
    obtain ⟨found, hfound, hspec⟩ := @getQueryParam_spec (path.drop (mark + 1)) queriesParameter
      (by decide) (parameters (path.drop (mark + 1))) (fun seg hseg => not_mem_splitOn hseg)
      (List.splitOn_ne_nil _ _) 0 (path.length - mark - 1) (path.length - mark - 1 + 1)
      (joined_splitOn _ _).symm (by rw [List.length_drop]; omega) (Nat.lt_succ_self _)
    simp only [getQueryNumber, hlen, hone, hbytes, hfound, bind, Except.bind, queryString, foundQueries]
    cases hfind : (parameters (path.drop (mark + 1))).find? fun p => queriesParameter.isPrefixOf p with
    | none =>
      rw [hfind] at hspec
      subst hspec
      rfl
    | some p =>
      rw [hfind] at hspec
      obtain ⟨rfl, rfl⟩ | ⟨n, rest, rfl, hn, hdrop, hrest⟩ := hspec
      · rfl
      · have hpath : (path ++ after).drop (mark + 1 + n) =
            p.drop queriesParameter.length ++ (rest ++ after) := by
          rw [List.length_drop] at hn
          rw [List.drop_append_of_le_length (by omega), ← List.drop_drop, hdrop, List.append_assoc]
        simp only [hpath, clampQueries_atoi (stops_append hrest hafter)]
        rfl

/-! ### What a request asks for -/

/-- The numbers that `atoi` makes 1 or less of. -/
def ReadAsOne (z : ℤ) : Prop := z ≤ -2 ^ 63 ∨ 2 ^ 63 ≤ z ∨ z % 2 ^ 32 ≤ 1 ∨ 2 ^ 31 ≤ z % 2 ^ 32

/-- The numbers that stay on their side of the range from 1 to `MAX_QUERIES` when 32 bits are kept. -/
def ReadRight (z : ℤ) : Prop :=
  (1 < z ∧ z < MAX_QUERIES) ∨ (z ≤ 1 ∧ ReadAsOne z) ∨
    (MAX_QUERIES ≤ z ∧ z < 2 ^ 63 ∧ MAX_QUERIES ≤ z % 2 ^ 32 ∧ z % 2 ^ 32 < 2 ^ 31)

theorem toInt_le_one_iff (z : ℤ) : toInt z ≤ 1 ↔ ReadAsOne z := by
  unfold toInt saturate ReadAsOne
  rw [Int.bmod_def]
  split <;> omega

/-- What is left of a number above the range. -/
theorem maxQueries_le_toInt_iff (z : ℤ) : MAX_QUERIES ≤ toInt z ↔
    -2 ^ 63 ≤ z ∧ z < 2 ^ 63 - 1 ∧ MAX_QUERIES ≤ z % 2 ^ 32 ∧ z % 2 ^ 32 < 2 ^ 31 := by
  unfold toInt saturate MAX_QUERIES
  rw [Int.bmod_def]
  split <;> omega

theorem toInt_of_small {z : ℤ} (hlow : 1 < z) (hhigh : z < MAX_QUERIES) : toInt z = z := by
  unfold MAX_QUERIES at hhigh
  unfold toInt saturate
  rw [Int.bmod_def]
  split <;> omega

theorem clampQueries_eq_one_iff (n : ℤ) : clampQueries n = 1 ↔ n ≤ 1 := by
  unfold clampQueries MAX_QUERIES
  split
  · omega
  · split <;> omega

theorem clampQueries_eq_max_iff (n : ℤ) : clampQueries n = MAX_QUERIES ↔ MAX_QUERIES ≤ n := by
  unfold clampQueries MAX_QUERIES
  split
  · omega
  · split <;> omega

theorem clampQueries_toInt_iff (z : ℤ) : clampQueries (toInt z) = clampQueries z ↔ ReadRight z := by
  unfold ReadRight
  by_cases hlow : z ≤ 1
  · rw [(clampQueries_eq_one_iff z).mpr hlow, clampQueries_eq_one_iff, toInt_le_one_iff]
    constructor
    · intro h
      exact Or.inr (Or.inl ⟨hlow, h⟩)
    · rintro (⟨h, -⟩ | ⟨-, h⟩ | ⟨h, -⟩)
      · omega
      · exact h
      · unfold MAX_QUERIES at h
        omega
  · by_cases hhigh : z < MAX_QUERIES
    · rw [toInt_of_small (by omega) hhigh]
      exact iff_of_true rfl (Or.inl ⟨by omega, hhigh⟩)
    · rw [(clampQueries_eq_max_iff z).mpr (by omega), clampQueries_eq_max_iff,
        maxQueries_le_toInt_iff]
      omega

theorem queriesParameter_eq : queriesParameter = ascii "queries" ++ [61] := rfl

theorem not_mem_queries : ∀ c ∈ ascii "queries", decide (c ≠ 61) = true :=
  List.all_eq_true.mp rfl

/-- A parameter that starts with `queries=` has the name, and the rest of it is its value. -/
theorem named_of_starts {p : List UInt8} (h : queriesParameter <+: p) :
    parameterName p = ascii "queries" ∧ parameterValue p = p.drop queriesParameter.length := by
  obtain ⟨value, rfl⟩ := h
  rw [List.drop_left, queriesParameter_eq, List.append_assoc]
  constructor
  · rw [parameterName, List.takeWhile_append_of_pos not_mem_queries]
    simp
  · rw [parameterValue, List.dropWhile_append_of_pos not_mem_queries]
    simp

/-- A parameter with the name that does not start with `queries=` is the name alone. -/
theorem parameterValue_of_bare {p : List UInt8} (hname : parameterName p = ascii "queries")
    (h : ¬queriesParameter <+: p) : parameterValue p = [] := by
  have hsplit : ascii "queries" ++ p.dropWhile (· ≠ 61) = p := by
    rw [← hname]
    exact List.takeWhile_append_dropWhile
  unfold parameterValue
  cases hrest : p.dropWhile (· ≠ 61) with
  | nil => rfl
  | cons c rest =>
    have hc : c = 61 := by
      have hhead := List.head?_dropWhile_not (fun c : UInt8 => decide (c ≠ 61)) p
      rw [hrest] at hhead
      simpa using hhead
    refine absurd ⟨rest, ?_⟩ h
    rw [← hsplit, hrest, hc, queriesParameter_eq, List.append_assoc]
    rfl

/-- The parameters for which the server uses the number that they ask for: the value of the first one
that starts with `queries=` is read right, or as 1 where the name alone stands before it or white space
precedes the number. -/
def QueriesAgree (query : List UInt8) : Prop :=
  ∀ q ∈ (parameters query).find? fun p => queriesParameter.isPrefixOf p,
    ∀ z ∈ leadingNumber ((parameterValue q).dropWhile isSpace),
      if ((parameters query).find? fun p => parameterName p = ascii "queries") = some q ∧
          (∀ c ∈ (parameterValue q).head?, isSpace c = false) then ReadRight z
      else ReadAsOne z

/-- The first parameter with the name is the first that starts with `queries=`, or the name alone. -/
theorem find_name_cases {params : List (List UInt8)} {q : List UInt8}
    (hq : (params.find? fun p => queriesParameter.isPrefixOf p) = some q) :
    (params.find? fun p => parameterName p = ascii "queries") = some q ∨
      ∃ p, (params.find? fun p => parameterName p = ascii "queries") = some p ∧ p ≠ q ∧
        parameterValue p = [] := by
  have hnamed : (params.find? fun p => parameterName p = ascii "queries").isSome := by
    rw [List.find?_isSome]
    have hprefix : queriesParameter <+: q := List.isPrefixOf_iff_prefix.mp (List.find?_some hq)
    exact ⟨q, List.mem_of_find?_eq_some hq, decide_eq_true (named_of_starts hprefix).1⟩
  obtain ⟨p, hp⟩ := Option.isSome_iff_exists.mp hnamed
  have hname : parameterName p = ascii "queries" := by simpa using List.find?_some hp
  by_cases hprefix : queriesParameter <+: p
  · left
    obtain ⟨-, front, back, hsplit, hfront⟩ := List.find?_eq_some_iff_append.mp hp
    have hfirst : (params.find? fun p => queriesParameter.isPrefixOf p) = some p := by
      rw [List.find?_eq_some_iff_append]
      refine ⟨List.isPrefixOf_iff_prefix.mpr hprefix, front, back, hsplit, fun seg hseg => ?_⟩
      have hother := hfront seg hseg
      rw [Bool.not_eq_eq_eq_not, Bool.not_true, decide_eq_false_iff_not] at hother
      rw [Bool.not_eq_eq_eq_not, Bool.not_true, ← Bool.not_eq_true, List.isPrefixOf_iff_prefix]
      exact fun h => hother (named_of_starts h).1
    rw [hp, ← hfirst, hq]
  · right
    refine ⟨p, hp, ?_, parameterValue_of_bare hname hprefix⟩
    rintro rfl
    exact hprefix (List.isPrefixOf_iff_prefix.mp (List.find?_some hq))

theorem foundQueries_eq_iff (query : List UInt8) :
    foundQueries query = requestedQueries query ↔ QueriesAgree query := by
  unfold foundQueries requestedQueries QueriesAgree
  cases hfound : (parameters query).find? fun p => queriesParameter.isPrefixOf p with
  | none =>
    refine iff_of_true ?_ (fun q hq => by cases hq)
    cases hnamed : (parameters query).find? fun p => parameterName p = ascii "queries" with
    | none => rfl
    | some p =>
      have hprefix : ¬queriesParameter <+: p := by
        have hnone := List.find?_eq_none.mp hfound p (List.mem_of_find?_eq_some hnamed)
        rwa [List.isPrefixOf_iff_prefix] at hnone
      have hname : parameterName p = ascii "queries" := by simpa using List.find?_some hnamed
      simp only [parameterValue_of_bare hname hprefix]
      rfl
  | some q =>
    have hprefix : queriesParameter <+: q := List.isPrefixOf_iff_prefix.mp (List.find?_some hfound)
    simp only [Option.mem_some_iff, forall_eq', ← (named_of_starts hprefix).2]
    obtain hnamed | ⟨p, hnamed, hne, hvalue⟩ := find_name_cases hfound
    · simp only [hnamed, true_and]
      by_cases hblank : ∀ c ∈ (parameterValue q).head?, isSpace c = false
      · simp only [if_pos hblank, dropWhile_isSpace hblank]
        cases leadingNumber (parameterValue q) with
        | none => simp
        | some z => simpa using clampQueries_toInt_iff z
      · simp only [if_neg hblank, leadingNumber_of_blank hblank]
        cases leadingNumber ((parameterValue q).dropWhile isSpace) with
        | none => simp
        | some z => simp [clampQueries_eq_one_iff, toInt_le_one_iff]
    · simp only [hnamed, hvalue]
      cases leadingNumber ((parameterValue q).dropWhile isSpace) with
      | none => simp [leadingNumber, takeSign]
      | some z => simp [leadingNumber, takeSign, clampQueries_eq_one_iff, toInt_le_one_iff, hne]

/-- For every query string a number is returned without a read outside it, and it is the number that
the request asks for exactly where the first value is read right. -/
theorem getQueryNumber_eq_requested_iff {queryAt : Option ℕ} {path after : List UInt8}
    (hmark : ∀ mark ∈ queryAt, mark < path.length) (hafter : Stops after) :
    (∃ n, getQueryNumber queryAt path after = .ok n) ∧
      (getQueryNumber queryAt path after = .ok (requestedQueries (queryString queryAt path)) ↔
        QueriesAgree (queryString queryAt path)) := by
  rw [getQueryNumber_eq hmark hafter, ← foundQueries_eq_iff]
  exact ⟨⟨_, rfl⟩, by simp⟩

theorem getQueryNumber_eq_requested_seven :
    let path := ascii "/queries?queries=7&queries=9"
    (∃ n, getQueryNumber (some 8) path (ascii " HTTP/1.1") = .ok n) ∧
      (getQueryNumber (some 8) path (ascii " HTTP/1.1") =
          .ok (requestedQueries (queryString (some 8) path)) ↔
        QueriesAgree (queryString (some 8) path)) := by
  refine getQueryNumber_eq_requested_iff (fun mark hmark => ?_) ?_
  · obtain rfl : 8 = mark := by simpa using hmark
    decide
  · intro c hc
    obtain rfl : 72 = c := by simpa [ascii, isSpace] using hc
    decide

/-- Ten digits are cut to 32 bits, and the request gets one row instead of 500. -/
theorem getQueryNumber_wraps :
    getQueryNumber (some 8) (ascii "/queries?queries=3000000000") (ascii " HTTP/1.1") = .ok 1 ∧
      requestedQueries (queryString (some 8) (ascii "/queries?queries=3000000000")) = 500 := by
  constructor
  · rfl
  · rfl

end FrameworkBenchmarks.H2o
