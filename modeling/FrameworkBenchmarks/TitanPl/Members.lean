import FrameworkBenchmarks.TitanPl.RouteTable

/-!
# Members of objects

An object literal, a spread and `serde_json` all write members one after the other; what is written
last under a name holds.
-/

namespace FrameworkBenchmarks.TitanPl

section AssignAll

variable {κ ν : Type} [DecidableEq κ]

/-- Members written one after the other. -/
def assignAll (written members : List (κ × ν)) : List (κ × ν) :=
  members.foldl (fun written m => assign written m.1 m.2) written

theorem nodup_assignAll (members : List (κ × ν)) :
    ∀ {written : List (κ × ν)}, (written.map Prod.fst).Nodup →
      ((assignAll written members).map Prod.fst).Nodup := by
  induction members with
  | nil =>
    intro written hnodup
    exact hnodup
  | cons m members ih =>
    intro written hnodup
    exact ih (nodup_assign hnodup m.1 m.2)

section Lookup

variable [BEq κ] [LawfulBEq κ]

theorem lookup_singleton (m : κ × ν) (k : κ) :
    [m].lookup k = if k = m.1 then some m.2 else none := by
  rw [← List.nil_append [m]]
  exact @lookup_assign κ ν _ _ _ [] List.nodup_nil m.1 m.2 k

/-- What is written last holds. -/
theorem lookup_assignAll (members : List (κ × ν)) (k : κ) :
    ∀ {written : List (κ × ν)}, (written.map Prod.fst).Nodup →
      (assignAll written members).lookup k =
        ((assignAll [] members).lookup k).or (written.lookup k) := by
  induction members with
  | nil =>
    intro written _
    rfl
  | cons m members ih =>
    intro written hnodup
    have hfirst : (assignAll [] (m :: members)).lookup k =
        ((assignAll [] members).lookup k).or ([m].lookup k) := ih (List.nodup_singleton m.1)
    have hrest : (assignAll written (m :: members)).lookup k =
        ((assignAll [] members).lookup k).or ((assign written m.1 m.2).lookup k) :=
      ih (nodup_assign hnodup m.1 m.2)
    rw [hfirst, hrest, lookup_assign hnodup, lookup_singleton]
    cases (assignAll [] members).lookup k with
    | some v => rfl
    | none =>
      by_cases hkey : k = m.1
      · simp [hkey]
      · simp [hkey]

end Lookup

/-- Members with different names are left as they are. -/
theorem assignAll_of_nodup (members : List (κ × ν)) :
    ∀ {written : List (κ × ν)}, ((written ++ members).map Prod.fst).Nodup →
      assignAll written members = written ++ members := by
  induction members with
  | nil =>
    intro written _
    exact (List.append_nil written).symm
  | cons m members ih =>
    intro written hnodup
    have hnew : assign written m.1 m.2 = written ++ [m] := by
      apply if_neg
      intro hany
      obtain ⟨m', hmem, hsame⟩ := List.any_eq_true.mp hany
      rw [List.map_append, List.nodup_append] at hnodup
      exact hnodup.2.2 m'.1 (List.mem_map_of_mem hmem) m.1
        (List.mem_map_of_mem List.mem_cons_self) (of_decide_eq_true hsame)
    have hrest : assignAll (written ++ [m]) members = written ++ [m] ++ members := by
      apply ih
      rwa [List.append_assoc, List.singleton_append]
    calc assignAll written (m :: members)
        = assignAll (assign written m.1 m.2) members := rfl
      _ = assignAll (written ++ [m]) members := by rw [hnew]
      _ = written ++ m :: members := by rw [hrest, List.append_assoc, List.singleton_append]

/-- Names and values may be translated before or after the members are written. -/
theorem assignAll_map {κ' μ : Type} [DecidableEq κ'] {g : κ → κ'} (hg : Function.Injective g)
    (f : ν → μ) (members : List (κ × ν)) :
    ∀ written : List (κ × ν),
      assignAll (written.map fun m => (g m.1, f m.2)) (members.map fun m => (g m.1, f m.2)) =
        (assignAll written members).map fun m => (g m.1, f m.2) := by
  induction members with
  | nil =>
    intro written
    rfl
  | cons m members ih =>
    intro written
    have hassign : assign (written.map fun m => (g m.1, f m.2)) (g m.1) (f m.2) =
        (assign written m.1 m.2).map fun m => (g m.1, f m.2) := by
      have hany : (written.map fun m => (g m.1, f m.2)).any (·.1 = g m.1) =
          written.any (·.1 = m.1) := by
        rw [List.any_map]
        congr 1
        funext m'
        exact decide_eq_decide.mpr hg.eq_iff
      unfold assign
      rw [hany]
      by_cases hin : written.any fun m' => decide (m'.1 = m.1)
      · rw [if_pos hin, if_pos hin, List.map_map, List.map_map]
        apply List.map_congr_left
        intro m' _
        by_cases hsame : m'.1 = m.1
        · simp [hsame]
        · simp [hsame, hg.eq_iff]
      · rw [if_neg hin, if_neg hin, List.map_append, List.map_singleton]
    calc assignAll (written.map fun m => (g m.1, f m.2))
          ((m :: members).map fun m => (g m.1, f m.2))
        = assignAll ((assign written m.1 m.2).map fun m => (g m.1, f m.2))
            (members.map fun m => (g m.1, f m.2)) := by rw [← hassign]; rfl
      _ = (assignAll written (m :: members)).map fun m => (g m.1, f m.2) := ih _

end AssignAll

end FrameworkBenchmarks.TitanPl
