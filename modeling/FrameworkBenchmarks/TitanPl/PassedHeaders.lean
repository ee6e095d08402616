import Std.Data.String.ToNat
import FrameworkBenchmarks.Common.Association
import FrameworkBenchmarks.TitanPl.Members
import FrameworkBenchmarks.TitanPl.TitanResponse

/-!
# The headers a call passes

Both ways of answering a call read its headers from the same arguments: the fast path keeps the
strings of the options object, the action that runs has whatever is spread into the header object.
-/

namespace FrameworkBenchmarks.TitanPl

/-! ### Own properties -/

theorem le_of_mem_indexed (items : List (Option StaticValue)) :
    ∀ {i : ℕ} {m : String × StaticValue}, m ∈ StaticValue.indexed i items →
      ∃ j, i ≤ j ∧ m.1 = toString j := by
  induction items with
  | nil =>
    intro i m hm
    cases hm
  | cons item items ih =>
    intro i m hm
    cases item with
    | none =>
      obtain ⟨j, hj, hkey⟩ := ih hm
      exact ⟨j, by omega, hkey⟩
    | some v =>
      cases List.mem_cons.mp hm with
      | inl hhead => exact ⟨i, le_rfl, by rw [hhead]⟩
      | inr htail =>
        obtain ⟨j, hj, hkey⟩ := ih htail
        exact ⟨j, by omega, hkey⟩

theorem nodup_indexed (items : List (Option StaticValue)) :
    ∀ i : ℕ, ((StaticValue.indexed i items).map Prod.fst).Nodup := by
  induction items with
  | nil =>
    intro i
    exact List.nodup_nil
  | cons item items ih =>
    intro i
    cases item with
    | none => exact ih (i + 1)
    | some v =>
      apply List.nodup_cons.mpr
      constructor
      · intro hmem
        obtain ⟨m, hm, hkey⟩ := List.mem_map.mp hmem
        obtain ⟨j, hj, hkey'⟩ := le_of_mem_indexed items hm
        have hsame : i = j := Nat.repr_injective (hkey.symm.trans hkey')
        omega
      · exact ih (i + 1)

theorem nodup_ownProperties (v : StaticValue) : (v.ownProperties.map Prod.fst).Nodup := by
  cases v with
  | object members => exact nodup_assignAll members List.nodup_nil
  | array items => exact nodup_indexed items 0
  | string s => exact nodup_indexed _ 0
  | undefined => exact List.nodup_nil
  | null => exact List.nodup_nil
  | bool b => exact List.nodup_nil
  | number q => exact List.nodup_nil

theorem nodup_spread {written : List (String × StaticValue)}
    (hnodup : (written.map Prod.fst).Nodup) (v : StaticValue) :
    ((v.spread written).map Prod.fst).Nodup :=
  nodup_assignAll _ hnodup

/-- A spread hides the members of the same names. -/
theorem lookup_spread {written : List (String × StaticValue)}
    (hnodup : (written.map Prod.fst).Nodup) (v : StaticValue) (k : String) :
    (v.spread written).lookup k = (v.ownProperties.lookup k).or (written.lookup k) := by
  unfold StaticValue.spread
  rw [lookup_assignAll _ _ hnodup, assignAll_of_nodup v.ownProperties (nodup_ownProperties v),
    List.nil_append]

/-- A value that `||` replaces has no properties. -/
theorem ownProperties_orElse (v : StaticValue) :
    (v.orElse (.object [])).ownProperties = v.ownProperties := by
  unfold StaticValue.orElse
  by_cases htruthy : v.truthy
  · rw [if_pos htruthy]
  · rw [if_neg htruthy]
    cases v with
    | string s =>
      have hempty : s = "" := by simpa [StaticValue.truthy] using htruthy
      rw [hempty]
      rfl
    | array items => exact absurd rfl htruthy
    | object members => exact absurd rfl htruthy
    | undefined => rfl
    | null => rfl
    | bool b => rfl
    | number q => rfl

/-! ### The two readings -/

/-- The value a call passes for a header. A third argument that is not an object counts only where
there is no options object. -/
def passedHeader (second third : StaticValue) (k : String) : Option StaticValue :=
  if second.isObject then
    (if third.isObject then third.ownProperties.lookup k else none).or
      ((second.member "headers").ownProperties.lookup k)
  else third.ownProperties.lookup k

/-- The members of the headers object in an options object. -/
def optionHeaders (second : StaticValue) : List (String × StaticValue) :=
  match second with
  | .object _ =>
    match second.member "headers" with
    | .object members => assignAll [] members
    | _ => []
  | _ => []

theorem nodup_optionHeaders (second : StaticValue) :
    ((optionHeaders second).map Prod.fst).Nodup := by
  unfold optionHeaders
  split
  · split
    · exact nodup_assignAll _ List.nodup_nil
    · exact List.nodup_nil
  · exact List.nodup_nil

/-- Whatever the fast path finds among the headers is passed by the call. -/
theorem passedHeader_of_optionHeaders {second : StaticValue} {m : String × StaticValue}
    (hm : m ∈ optionHeaders second) (third : StaticValue) :
    (passedHeader second third m.1).isSome := by
  unfold optionHeaders at hm
  split at hm
  · rename_i members
    split at hm
    · rename_i headers hheaders
      have hlookup : (assignAll [] headers).lookup m.1 = some m.2 :=
        (lookup_eq_some_iff (@nodup_assignAll _ _ _ headers [] List.nodup_nil) m.1 m.2).mpr hm
      unfold passedHeader
      rw [if_pos (by rfl), hheaders]
      simp only [StaticValue.ownProperties, hlookup, Option.isSome_or, Option.isSome_some,
        Bool.or_true]
    · cases hm
  · cases hm

/-- The properties of the extra headers are the headers passed. -/
theorem lookup_extraHeaders (second third : StaticValue) (k : String) :
    (parseResponseOpts second third).extraHeaders.ownProperties.lookup k =
      passedHeader second third k := by
  unfold parseResponseOpts passedHeader
  by_cases hsecond : second.isObject
  · rw [if_pos hsecond, if_pos hsecond]
    by_cases hthird : third.isObject
    · have htruthy : third.truthy := by
        cases third with
        | array items => rfl
        | object members => rfl
        | undefined => cases hthird
        | null => cases hthird
        | bool b => cases hthird
        | number q => cases hthird
        | string s => cases hthird
      have hheaders : (((second.member "headers").orElse (.object [])).spread []).map Prod.fst
          |>.Nodup := @nodup_spread [] List.nodup_nil _
      simp only [htruthy, hthird, Bool.and_self, if_true]
      rw [StaticValue.ownProperties, assignAll_of_nodup _ (nodup_spread hheaders third),
        List.nil_append, lookup_spread hheaders, @lookup_spread [] List.nodup_nil,
        ownProperties_orElse, List.lookup_nil, Option.or_none]
    · simp only [hthird, Bool.and_false, Bool.false_eq_true, if_false, Option.none_or]
      rw [ownProperties_orElse]
  · rw [if_neg hsecond, if_neg hsecond]
    exact congrArg (List.lookup k) (ownProperties_orElse third)

/-- The header object of a response has the default where no content type is passed. -/
theorem lookup_headers (contentType : String) (second third : StaticValue) (k : String) :
    ((parseResponseOpts second third).extraHeaders.spread
      [("Content-Type", .string contentType)]).lookup k =
      (passedHeader second third k).or
        (if k = "Content-Type" then some (.string contentType) else none) := by
  rw [@lookup_spread [_] (List.nodup_singleton _), lookup_extraHeaders]
  rw [lookup_singleton]

end FrameworkBenchmarks.TitanPl
