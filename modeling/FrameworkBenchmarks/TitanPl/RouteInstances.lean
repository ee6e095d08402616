import FrameworkBenchmarks.Common.Delimited
import FrameworkBenchmarks.TitanPl.RouteTable

/-!
# Instances of a dynamic route

A pattern is instantiated by putting a value for each parameter. Matching an instance gives the values
back, and a match is an instance: but a path with an empty segment gives a string parameter the empty
value, and of several parameters with one name only the last value is kept.
-/

namespace FrameworkBenchmarks.TitanPl

open Common

/-! ### Patterns -/

inductive ParamType
  | string
  | number
  | other
  deriving DecidableEq

def ParamType.ofText (ty : List Char) : ParamType :=
  if ty = "number".toList then .number else if ty = "string".toList then .string else .other

/-- The type behind the name of a parameter. -/
def typeText (inner : List Char) : List Char :=
  if inner.contains '<'
  then ((inner.dropWhile (· ≠ '<')).tail.reverse.dropWhile (· = '>')).reverse
  else "string".toList

/-- The parameter in a segment of a pattern. -/
def segmentParam : List Char → Option (String × ParamType)
  | ':' :: inner => some (String.ofList (inner.takeWhile (· ≠ '<')), .ofText (typeText inner))
  | _ => none

/-- The parameters of a pattern. -/
def patternParams (pattern : String) : List (String × ParamType) :=
  (pattern.toList.splitOn '/').filterMap segmentParam

def paramNames (pattern : String) : List String := (patternParams pattern).map Prod.fst

/-- A segment with the value of its parameter. -/
def instSegment (σ : String → String) (seg : List Char) : List Char :=
  match segmentParam seg with
  | some (name, _) => (σ name).toList
  | none => seg

/-- A pattern with values for its parameters. -/
def instantiate (pattern : String) (σ : String → String) : String :=
  String.ofList (joined '/' ((pattern.toList.splitOn '/').map (instSegment σ)))

/-- The segments between the outer slashes. -/
def segments (s : String) : List (List Char) := (trimMatches '/' s.toList).splitOn '/'

/-- A decimal literal of a signed number of 64 bits. -/
def IsI64Literal (s : List Char) : Prop :=
  ∃ sign digits, s = sign ++ digits ∧ (sign = [] ∨ sign = ['+'] ∨ sign = ['-']) ∧ digits ≠ [] ∧
    (∀ c ∈ digits, c.isDigit = true) ∧
    Nat.ofDigits 10 (digits.reverse.map fun c => c.toNat - 48) < 2 ^ 63 + if sign = ['-'] then 1 else 0

theorem parsesI64_iff (s : List Char) : parsesI64 s = true ↔ IsI64Literal s := by
  have hdigits (sign digits : List Char) (negative : Bool) (hsign : negative = true ↔ sign = ['-']) :
      (!digits.isEmpty && digits.all (·.isDigit) &&
        decide (Nat.ofDigits 10 (digits.reverse.map fun c => c.toNat - 48) <
          2 ^ 63 + negative.toNat)) = true ↔
      digits ≠ [] ∧ (∀ c ∈ digits, c.isDigit = true) ∧
        Nat.ofDigits 10 (digits.reverse.map fun c => c.toNat - 48) <
          2 ^ 63 + if sign = ['-'] then 1 else 0 := by
    have hbound : negative.toNat = if sign = ['-'] then 1 else 0 := by
      cases negative <;> simp_all
    rw [hbound]
    simp [and_assoc]
  unfold parsesI64
  split
  rename_i negative digits heq
  constructor
  · intro h
    split at heq
    · obtain ⟨rfl, rfl⟩ := Prod.mk.inj heq
      exact ⟨['-'], _, rfl, by simp, (hdigits ['-'] _ true (by simp)).mp h⟩
    · obtain ⟨rfl, rfl⟩ := Prod.mk.inj heq
      exact ⟨['+'], _, rfl, by simp, (hdigits ['+'] _ false (by simp)).mp h⟩
    · obtain ⟨rfl, rfl⟩ := Prod.mk.inj heq
      exact ⟨[], s, rfl, by simp, (hdigits [] _ false (by simp)).mp h⟩
  · rintro ⟨sign, ds, rfl, hsign, hliteral⟩
    obtain rfl | rfl | rfl := hsign
    · -- A digit is no sign.
      obtain ⟨hne, hall, -⟩ := id hliteral
      split at heq
      · exact absurd (hall '-' (by simp_all)) (by decide)
      · exact absurd (hall '+' (by simp_all)) (by decide)
      · obtain ⟨rfl, rfl⟩ := Prod.mk.inj heq
        exact (hdigits [] _ false (by simp)).mpr hliteral
    · obtain ⟨rfl, rfl⟩ := Prod.mk.inj heq
      exact (hdigits ['+'] _ false (by simp)).mpr hliteral
    · obtain ⟨rfl, rfl⟩ := Prod.mk.inj heq
      exact (hdigits ['-'] _ true (by simp)).mpr hliteral

/-- A value of a parameter. -/
def ParamType.Accepts (val : List Char) : ParamType → Prop
  | .string => True
  | .number => IsI64Literal val
  | .other => False

/-- One segment of a pattern and of a path agree. -/
def SegmentMatches (pat val : List Char) : Prop :=
  match segmentParam pat with
  | some (_, ty) => ty.Accepts val
  | none => pat = val

/-- What a segment of the path gives to the parameter of the pattern's segment. -/
def segmentValue (pat val : List Char) : Option (String × String) :=
  (segmentParam pat).map fun param => (param.1, String.ofList val)

theorem ParamType.accepts_ofText (ty val : List Char) :
    (if ty = "number".toList then parsesI64 val else decide (ty = "string".toList)) = true ↔
      (ParamType.ofText ty).Accepts val := by
  unfold ParamType.ofText
  split
  · exact parsesI64_iff val
  · rename_i hnumber
    split
    · rename_i hstring
      exact iff_of_true (decide_eq_true hstring) trivial
    · rename_i hstring
      exact iff_of_false (by simpa using hstring) id

theorem matchSegment_eq_some_iff {pat val : List Char} {params params' : List (String × String)} :
    matchSegment pat val params = some params' ↔ SegmentMatches pat val ∧
      params' = (segmentValue pat val).toList.foldl (fun ps p => assign ps p.1 p.2) params := by
  cases hparam : segmentParam pat with
  | none =>
    have hliteral : matchSegment pat val params = if pat = val then some params else none := by
      unfold matchSegment
      split
      · cases hparam
      · rfl
    rw [hliteral, SegmentMatches, segmentValue, hparam]
    by_cases heq : pat = val
    · simp [heq, eq_comm]
    · simp [heq]
  | some param =>
    obtain ⟨inner, rfl, hname⟩ : ∃ inner, pat = ':' :: inner ∧
        (String.ofList (inner.takeWhile (· ≠ '<')), ParamType.ofText (typeText inner)) = param := by
      unfold segmentParam at hparam
      split at hparam
      · rename_i inner
        exact ⟨inner, rfl, Option.some.inj hparam⟩
      · cases hparam
    subst hname
    have hmatch : matchSegment (':' :: inner) val params =
        if (if typeText inner = "number".toList then parsesI64 val
          else decide (typeText inner = "string".toList)) = true
        then some (assign params (String.ofList (inner.takeWhile (· ≠ '<'))) (String.ofList val))
        else none := rfl
    have haccepts := ParamType.accepts_ofText (typeText inner) val
    rw [hmatch, SegmentMatches, segmentValue, hparam]
    generalize String.ofList (inner.takeWhile (· ≠ '<')) = name
    generalize typeText inner = ty at haccepts
    simp only [Option.map_some, Option.toList_some, List.foldl_cons, List.foldl_nil]
    by_cases h : (ParamType.ofText ty).Accepts val
    · rw [if_pos (haccepts.mpr h), and_iff_right h, Option.some.injEq, eq_comm]
    · rw [if_neg fun hvalid => h (haccepts.mp hvalid)]
      exact iff_of_false (by simp) fun hmatches => h hmatches.1

/-- The values a path gives to the parameters of a pattern, segment by segment. -/
def segmentValues (pats vals : List (List Char)) : List (String × String) :=
  (pats.zip vals).filterMap fun p => segmentValue p.1 p.2

theorem matchSegments_eq_some_iff {pats vals : List (List Char)} (hlength : pats.length = vals.length)
    {params params' : List (String × String)} : matchSegments pats vals params = some params' ↔
      List.Forall₂ SegmentMatches pats vals ∧
        params' = (segmentValues pats vals).foldl (fun ps p => assign ps p.1 p.2) params := by
  induction pats generalizing vals params with
  | nil =>
    obtain rfl : vals = [] := List.length_eq_zero_iff.mp hlength.symm
    simp [matchSegments, segmentValues, eq_comm]
  | cons pat pats ih =>
    cases vals with
    | nil => simp at hlength
    | cons val vals =>
      have ih := @ih vals (by simpa using hlength)
      rw [matchSegments, List.forall₂_cons, Option.bind_eq_some_iff]
      have hvalues : segmentValues (pat :: pats) (val :: vals) =
          (segmentValue pat val).toList ++ segmentValues pats vals := by
        rw [segmentValues, List.zip_cons_cons, List.filterMap_cons]
        cases segmentValue pat val <;> rfl
      simp only [hvalues, List.foldl_append, matchSegment_eq_some_iff, ih]
      constructor
      · rintro ⟨_, ⟨hmatch, rfl⟩, hrest, rfl⟩
        exact ⟨⟨hmatch, hrest⟩, rfl⟩
      · rintro ⟨⟨hmatch, hrest⟩, rfl⟩
        exact ⟨_, ⟨hmatch, rfl⟩, hrest, rfl⟩

/-- A path matches a pattern segment by segment, and the last value of each name is kept. -/
theorem matchPattern_eq_some_iff {pattern path : String} {params : List (String × String)} :
    matchPattern pattern path = some params ↔
      List.Forall₂ SegmentMatches (segments pattern) (segments path) ∧
        params = (segmentValues (segments pattern) (segments path)).foldl
          (fun ps p => assign ps p.1 p.2) [] := by
  have hdef : matchPattern pattern path =
      if (segments pattern).length ≠ (segments path).length then none
      else matchSegments (segments pattern) (segments path) [] := rfl
  rw [hdef]
  by_cases hlength : (segments pattern).length = (segments path).length
  · rw [if_neg (not_not.mpr hlength)]
    exact matchSegments_eq_some_iff hlength
  · rw [if_pos hlength]
    exact iff_of_false (by simp) fun h => hlength h.1.length_eq

/-! ### The values that are kept -/

theorem foldl_assign_of_nodup {values params : List (String × String)}
    (h : ((params ++ values).map Prod.fst).Nodup) :
    values.foldl (fun ps p => assign ps p.1 p.2) params = params ++ values := by
  induction values generalizing params with
  | nil => simp
  | cons p values ih =>
    have habsent : ¬params.any (·.1 = p.1) = true := by
      intro hany
      obtain ⟨q, hq, hsame⟩ := List.any_eq_true.mp hany
      rw [List.map_append, List.nodup_append] at h
      exact h.2.2 q.1 (List.mem_map_of_mem hq) p.1 (by simp) (of_decide_eq_true hsame)
    have hassign : assign params p.1 p.2 = params ++ [p] := if_neg habsent
    rw [List.foldl_cons, hassign, ih (by simpa using h), List.append_assoc, List.singleton_append]

/-- Each value that is kept is one of the values, and each name has one. -/
theorem foldl_assign_spec (values : List (String × String)) :
    ((values.foldl (fun ps p => assign ps p.1 p.2) []).map Prod.fst).Nodup ∧
      (∀ p ∈ values.foldl (fun ps p => assign ps p.1 p.2) [], p ∈ values) ∧
      ∀ p ∈ values, ∃ v, (p.1, v) ∈ values.foldl (fun ps p => assign ps p.1 p.2) [] := by
  induction values using List.reverseRecOn with
  | nil => simp
  | append_singleton values p ih =>
    obtain ⟨hnodup, hmem, hname⟩ := ih
    rw [List.foldl_append, List.foldl_cons, List.foldl_nil]
    refine ⟨nodup_assign hnodup p.1 p.2, ?_, ?_⟩
    · intro q hq
      obtain rfl | ⟨hq, -⟩ := (mem_assign _ _ _ _).mp hq
      · exact List.mem_append_right _ List.mem_cons_self
      · exact List.mem_append_left _ (hmem q hq)
    · intro q hq
      by_cases hsame : q.1 = p.1
      · exact ⟨p.2, (mem_assign _ _ _ _).mpr (.inl (by rw [hsame]))⟩
      · obtain hq | hq := List.mem_append.mp hq
        · obtain ⟨v, hv⟩ := hname q hq
          exact ⟨v, (mem_assign _ _ _ _).mpr (.inr ⟨hv, hsame⟩)⟩
        · exact absurd (by rw [List.mem_singleton.mp hq]) hsame

/-! ### Instances -/

variable {pattern path : String} {σ : String → String}

theorem segmentParam_nil : segmentParam [] = none := rfl

theorem instSegment_nil (σ : String → String) : instSegment σ [] = [] := rfl

theorem segments_eq (s : String) : segments s =
    if trim [] (s.toList.splitOn '/') = [] then [[]] else trim [] (s.toList.splitOn '/') :=
  splitOn_trim '/' s.toList

/-- The segments that are trimmed away are empty. -/
theorem mem_segments_or_eq_nil {s : String} {seg : List Char} (h : seg ∈ s.toList.splitOn '/') :
    seg ∈ segments s ∨ seg = [] := by
  obtain ⟨m, n, hsplit⟩ := exists_trim [] (s.toList.splitOn '/')
  rw [hsplit, List.mem_append, List.mem_append] at h
  obtain (h | h) | h := h
  · exact .inr (List.eq_of_mem_replicate h)
  · left
    rw [segments_eq, if_neg (List.ne_nil_of_mem h)]
    exact h
  · exact .inr (List.eq_of_mem_replicate h)

/-- The outer slashes of a pattern have no parameters. -/
theorem filterMap_segments (pattern : String) :
    (segments pattern).filterMap segmentParam = patternParams pattern := by
  have hnil (n : ℕ) : (List.replicate n ([] : List Char)).filterMap segmentParam = [] := by
    rw [List.filterMap_eq_nil_iff]
    intro seg hseg
    rw [List.eq_of_mem_replicate hseg]
    rfl
  obtain ⟨m, n, h⟩ := exists_trim [] (pattern.toList.splitOn '/')
  have hparams : patternParams pattern =
      (trim [] (pattern.toList.splitOn '/')).filterMap segmentParam := by
    rw [patternParams, h, List.filterMap_append, List.filterMap_append, hnil, hnil,
      trim_append_replicate, trim_trim, List.nil_append, List.append_nil]
  rw [hparams, segments_eq]
  split
  · rename_i hempty
    rw [hempty]
    rfl
  · rfl

/-- The values of an instance: not empty, and in one segment. -/
def Instance (pattern : String) (σ : String → String) : Prop :=
  ∀ p ∈ patternParams pattern, σ p.1 ≠ "" ∧ '/' ∉ (σ p.1).toList

theorem instSegment_eq_nil_iff (h : Instance pattern σ) {seg : List Char}
    (hseg : seg ∈ pattern.toList.splitOn '/') : instSegment σ seg = [] ↔ seg = [] := by
  unfold instSegment
  cases hparam : segmentParam seg with
  | none => rfl
  | some param =>
    obtain ⟨name, ty⟩ := param
    have hvalue := (h (name, ty) (List.mem_filterMap.mpr ⟨seg, hseg, hparam⟩)).1
    have hne : seg ≠ [] := by
      rintro rfl
      cases hparam
    exact iff_of_false (by simpa using hvalue) hne

theorem not_mem_instSegment (h : Instance pattern σ) {seg : List Char}
    (hseg : seg ∈ pattern.toList.splitOn '/') : '/' ∉ instSegment σ seg := by
  unfold instSegment
  cases hparam : segmentParam seg with
  | none => exact not_mem_splitOn hseg
  | some param => exact (h param (List.mem_filterMap.mpr ⟨seg, hseg, hparam⟩)).2

theorem segments_instantiate (h : Instance pattern σ) :
    segments (instantiate pattern σ) = (segments pattern).map (instSegment σ) := by
  have hsplit : (instantiate pattern σ).toList.splitOn '/' =
      (pattern.toList.splitOn '/').map (instSegment σ) := by
    rw [instantiate, String.toList_ofList, splitOn_joined]
    · intro seg hseg
      obtain ⟨s, hs, rfl⟩ := List.mem_map.mp hseg
      exact not_mem_instSegment h hs
    · simp [List.splitOn_ne_nil]
  have htrim := trim_map (a := []) (b := []) (f := instSegment σ) fun seg hseg =>
    instSegment_eq_nil_iff h hseg
  rw [segments_eq, segments_eq, hsplit, htrim]
  cases trim [] (pattern.toList.splitOn '/') with
  | nil => rfl
  | cons seg segs => rfl

/-- The segments of an instance match, and have the values. -/
theorem segmentMatches_instSegment (h : ∀ p ∈ patternParams pattern, p.2.Accepts (σ p.1).toList) :
    List.Forall₂ SegmentMatches (segments pattern) ((segments pattern).map (instSegment σ)) := by
  rw [List.forall₂_map_right_iff, List.forall₂_same]
  intro seg hseg
  unfold SegmentMatches instSegment
  cases hparam : segmentParam seg with
  | none => rfl
  | some param =>
    apply h param
    rw [← filterMap_segments]
    exact List.mem_filterMap.mpr ⟨seg, hseg, hparam⟩

theorem segmentValues_instSegment (pats : List (List Char)) (σ : String → String) :
    segmentValues pats (pats.map (instSegment σ)) =
      (pats.filterMap segmentParam).map fun p => (p.1, σ p.1) := by
  induction pats with
  | nil => rfl
  | cons pat pats ih =>
    unfold segmentValues at ih ⊢
    rw [List.map_cons, List.zip_cons_cons, List.filterMap_cons, List.filterMap_cons, ih]
    unfold segmentValue instSegment
    cases segmentParam pat with
    | none => rfl
    | some param => simp

theorem matchPattern_instantiate (hnames : (paramNames pattern).Nodup) (hinstance : Instance pattern σ)
    (haccepts : ∀ p ∈ patternParams pattern, p.2.Accepts (σ p.1).toList) :
    matchPattern pattern (instantiate pattern σ) = some ((paramNames pattern).map fun n => (n, σ n)) := by
  rw [matchPattern_eq_some_iff, segments_instantiate hinstance, segmentValues_instSegment,
    filterMap_segments]
  constructor
  · exact segmentMatches_instSegment haccepts
  · rw [foldl_assign_of_nodup, List.nil_append, paramNames, List.map_map]
    · rfl
    · rw [List.nil_append, List.map_map]
      exact hnames

/-! ### Matches -/

variable {params : List (String × String)}

/-- The value of a name among the parameters of a request. -/
def paramValue (params : List (String × String)) (name : String) : String :=
  (params.lookup name).getD ""

theorem joined_segments (s : String) : joined '/' (segments s) = trimMatches '/' s.toList :=
  joined_splitOn '/' _

theorem map_fst_segmentValues {pats vals : List (List Char)} (h : pats.length = vals.length) :
    (segmentValues pats vals).map Prod.fst = (pats.filterMap segmentParam).map Prod.fst := by
  induction pats generalizing vals with
  | nil => rfl
  | cons pat pats ih =>
    cases vals with
    | nil => simp at h
    | cons val vals =>
      have ih := @ih vals (by simpa using h)
      unfold segmentValues at ih ⊢
      rw [List.zip_cons_cons, List.filterMap_cons, List.filterMap_cons, segmentValue]
      cases segmentParam pat with
      | none => exact ih
      | some param => simp [ih]

theorem names_of_match (h : List.Forall₂ SegmentMatches (segments pattern) (segments path)) :
    (segmentValues (segments pattern) (segments path)).map Prod.fst = paramNames pattern := by
  rw [map_fst_segmentValues h.length_eq, filterMap_segments, paramNames]

/-- A name has a value exactly if it is a parameter of the pattern. -/
theorem lookup_of_match (h : matchPattern pattern path = some params) (name : String) :
    name ∈ paramNames pattern ↔ ∃ value, params.lookup name = some value := by
  obtain ⟨hmatch, rfl⟩ := matchPattern_eq_some_iff.mp h
  obtain ⟨hnodup, hmem, hname⟩ := foldl_assign_spec (segmentValues (segments pattern) (segments path))
  simp only [lookup_eq_some_iff hnodup]
  rw [← names_of_match hmatch]
  constructor
  · intro hin
    obtain ⟨p, hp, rfl⟩ := List.mem_map.mp hin
    exact hname p hp
  · rintro ⟨value, hvalue⟩
    exact List.mem_map_of_mem (hmem _ hvalue)

/-- An empty value comes from an empty segment of the path, and belongs to a string parameter. -/
theorem eq_empty_of_match (h : matchPattern pattern path = some params) {name : String}
    (hvalue : params.lookup name = some "") :
    [] ∈ segments path ∧ (name, ParamType.string) ∈ patternParams pattern := by
  obtain ⟨hmatch, rfl⟩ := matchPattern_eq_some_iff.mp h
  obtain ⟨hnodup, hmem, -⟩ := foldl_assign_spec (segmentValues (segments pattern) (segments path))
  have hin := hmem _ ((lookup_eq_some_iff hnodup _ _).mp hvalue)
  obtain ⟨⟨pat, val⟩, hzip, hsegment⟩ := List.mem_filterMap.mp hin
  obtain ⟨⟨name', ty⟩, hparam, heq⟩ := Option.map_eq_some_iff.mp hsegment
  obtain ⟨rfl, hval⟩ := Prod.mk.inj heq
  have hempty : val = [] := by simpa using hval
  subst hempty
  have hmatches : SegmentMatches pat [] := (List.forall₂_iff_zip.mp hmatch).2 hzip
  rw [SegmentMatches, hparam] at hmatches
  refine ⟨(List.of_mem_zip hzip).2, ?_⟩
  have hty : ty = .string := by
    cases ty with
    | string => rfl
    | number =>
      obtain ⟨sign, digits, hsplit, -, hdigits, -⟩ := hmatches
      exact absurd (List.append_eq_nil_iff.mp hsplit.symm).2 hdigits
    | other => exact hmatches.elim
  rw [← filterMap_segments, ← hty]
  exact List.mem_filterMap.mpr ⟨pat, (List.of_mem_zip hzip).1, hparam⟩

/-- With distinct names, putting the values back gives the segments of the path. -/
theorem map_instSegment_of_match (hnames : (paramNames pattern).Nodup)
    (h : matchPattern pattern path = some params) :
    (segments pattern).map (instSegment (paramValue params)) = segments path := by
  obtain ⟨hmatch, hparams⟩ := matchPattern_eq_some_iff.mp h
  have hnodup : ((segmentValues (segments pattern) (segments path)).map Prod.fst).Nodup := by
    rwa [names_of_match hmatch]
  rw [foldl_assign_of_nodup hnodup, List.nil_append] at hparams
  obtain ⟨hlength, hzip⟩ := List.forall₂_iff_zip.mp hmatch
  rw [← List.forall₂_eq_eq_eq, List.forall₂_map_left_iff, List.forall₂_iff_zip]
  refine ⟨hlength, ?_⟩
  intro pat val hmem
  have hmatches := hzip hmem
  unfold SegmentMatches at hmatches
  unfold instSegment
  cases hparam : segmentParam pat with
  | none =>
    rw [hparam] at hmatches
    exact hmatches
  | some param =>
    have hvalue : segmentValue pat val = some (param.1, String.ofList val) := by
      rw [segmentValue, hparam]
      rfl
    have hin : (param.1, String.ofList val) ∈ params := by
      rw [hparams]
      exact List.mem_filterMap.mpr ⟨(pat, val), hmem, hvalue⟩
    have hlookup := (lookup_eq_some_iff (hparams ▸ hnodup) _ _).mpr hin
    simp [paramValue, hlookup]

/-- With distinct names, putting the values back gives the path up to outer slashes. -/
theorem instantiate_of_match (hnames : (paramNames pattern).Nodup)
    (h : matchPattern pattern path = some params) :
    trimMatches '/' (instantiate pattern (paramValue params)).toList = trimMatches '/' path.toList := by
  have hsegments := map_instSegment_of_match hnames h
  set f := instSegment (paramValue params) with hf
  have hnil : f [] = [] := rfl
  -- The trimmed pattern gives the trimmed path.
  have hmiddle : joined '/' (trim [] ((trim [] (pattern.toList.splitOn '/')).map f)) =
      trimMatches '/' path.toList := by
    have hpath : trim '/' (joined '/' (segments path)) = trimMatches '/' path.toList := by
      rw [joined_segments]
      exact trim_trim '/' path.toList
    rw [← hpath, trim_joined (fun seg (hseg : seg ∈ segments path) => not_mem_splitOn hseg),
      ← hsegments, segments_eq]
    split
    · rename_i hempty
      rw [hempty]
      rfl
    · rfl
  have hmem : ∀ seg ∈ (pattern.toList.splitOn '/').map f, '/' ∉ seg := by
    intro seg hseg
    obtain ⟨s, hs, rfl⟩ := List.mem_map.mp hseg
    obtain hs | rfl := mem_segments_or_eq_nil hs
    · apply not_mem_splitOn (s := trimMatches '/' path.toList)
      change f s ∈ segments path
      rw [← hsegments]
      exact List.mem_map_of_mem hs
    · rw [hnil]
      exact List.not_mem_nil
  rw [instantiate, String.toList_ofList]
  change trim '/' (joined '/' _) = _
  rw [trim_joined hmem, trim_map_trim hnil, hmiddle]

/-! ### Both directions -/

/-- A route alone matches every instance of its pattern and gives the values back; a match gives every
parameter a value, an empty one only to a string parameter on a path with an empty segment, and putting
the values back gives the path up to outer slashes. -/
theorem matchDynamicRoute_instances :
    (∀ (route : DynamicRoute) (σ : String → String), (paramNames route.pattern).Nodup →
      (∀ p ∈ patternParams route.pattern, σ p.1 ≠ "" ∧ '/' ∉ (σ p.1).toList ∧
        p.2.Accepts (σ p.1).toList) →
      matchDynamicRoute route.method (instantiate route.pattern σ) [route] =
        some (route.action, (paramNames route.pattern).map fun name => (name, σ name))) ∧
    ∀ (method path : String) (routes : List DynamicRoute) (action : String)
      (params : List (String × String)),
      matchDynamicRoute method path routes = some (action, params) →
      ∃ route ∈ routes, route.method = method ∧ route.action = action ∧
        (∀ name, name ∈ paramNames route.pattern ↔ ∃ value, params.lookup name = some value) ∧
        (∀ name, params.lookup name = some "" →
          [] ∈ segments path ∧ (name, ParamType.string) ∈ patternParams route.pattern) ∧
        ((paramNames route.pattern).Nodup →
          trimMatches '/' (instantiate route.pattern (paramValue params)).toList =
            trimMatches '/' path.toList) := by
  constructor
  · intro route σ hnames hvalues
    have hinstance : Instance route.pattern σ := fun p hp => ⟨(hvalues p hp).1, (hvalues p hp).2.1⟩
    have hmatch := matchPattern_instantiate hnames hinstance fun p hp => (hvalues p hp).2.2
    simp [matchDynamicRoute, hmatch]
  · intro method path routes action params h
    obtain ⟨route, hroute, hmatch⟩ := List.exists_of_findSome?_eq_some h
    by_cases hmethod : route.method = method
    · rw [if_neg (not_not.mpr hmethod)] at hmatch
      obtain ⟨params', hpattern, heq⟩ := Option.map_eq_some_iff.mp hmatch
      obtain ⟨rfl, rfl⟩ := Prod.mk.inj heq
      exact ⟨route, hroute, hmethod, rfl, lookup_of_match hpattern,
        fun name hvalue => eq_empty_of_match hpattern hvalue,
        fun hnames => instantiate_of_match hnames hpattern⟩
    · rw [if_pos hmethod] at hmatch
      cases hmatch

/-- The route of a user by number. -/
theorem matchDynamicRoute_instances_user :
    matchDynamicRoute "GET" (instantiate "/user/:id<number>" fun _ => "42")
      [⟨"GET", "/user/:id<number>", "user"⟩] = some ("user", [("id", "42")]) := by
  have hparams : patternParams "/user/:id<number>" = [("id", .number)] := by decide
  have hvalues : ∀ p ∈ patternParams "/user/:id<number>", "42" ≠ "" ∧ '/' ∉ "42".toList ∧
      p.2.Accepts "42".toList := by
    intro p hp
    rw [hparams, List.mem_singleton] at hp
    subst hp
    exact ⟨by decide, by decide, (parsesI64_iff _).mp (by decide)⟩
  exact matchDynamicRoute_instances.1 ⟨"GET", "/user/:id<number>", "user"⟩ (fun _ => "42") (by decide)
    hvalues

/-- The route `/users/:id/posts` matches the path `/users//posts` with the empty value. Of `/:a/:a` only
the last value is kept, which does not give `/x/y` back. -/
theorem matchDynamicRoute_empty_value :
    matchDynamicRoute "GET" "/users//posts" [⟨"GET", "/users/:id/posts", "posts"⟩] =
      some ("posts", [("id", "")]) ∧
    matchDynamicRoute "GET" "/x/y" [⟨"GET", "/:a/:a", "pair"⟩] = some ("pair", [("a", "y")]) ∧
    instantiate "/:a/:a" (paramValue [("a", "y")]) = "/y/y" := by
  decide +kernel

end FrameworkBenchmarks.TitanPl
