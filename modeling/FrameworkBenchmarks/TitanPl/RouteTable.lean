import Mathlib.Data.List.Induction
import Mathlib.Data.List.Nodup
import FrameworkBenchmarks.TitanPl.Routes

/-!
# The tables the builder writes and the loader reads

The builder's table holds for each key the last entry assigned to it, and the dynamic routes of a
method stand in the order of their registration. The loader reads all of it or nothing.
-/

namespace FrameworkBenchmarks.TitanPl

variable {N : Type}

/-! ### Assignment -/

section Assign

variable {κ ν : Type} [DecidableEq κ]

/-- The members after an assignment. -/
theorem mem_assign (members : List (κ × ν)) (key : κ) (value : ν) (m : κ × ν) :
    m ∈ assign members key value ↔ m = (key, value) ∨ m ∈ members ∧ m.1 ≠ key := by
  unfold assign
  by_cases hkey : members.any (·.1 = key)
  · rw [if_pos hkey, List.mem_map]
    constructor
    · rintro ⟨old, hold, rfl⟩
      by_cases hsame : old.1 = key
      · left
        rw [if_pos hsame]
      · right
        rw [if_neg hsame]
        exact ⟨hold, hsame⟩
    · rintro (rfl | ⟨hmem, hne⟩)
      · obtain ⟨old, hold, hsame⟩ := List.any_eq_true.mp hkey
        exact ⟨old, hold, if_pos (of_decide_eq_true hsame)⟩
      · exact ⟨m, hmem, if_neg hne⟩
  · rw [if_neg hkey, List.mem_append, List.mem_singleton]
    have habsent : m ∈ members → m.1 ≠ key := by
      intro hmem hsame
      exact hkey (List.any_eq_true.mpr ⟨m, hmem, decide_eq_true hsame⟩)
    constructor
    · rintro (hmem | rfl)
      · exact .inr ⟨hmem, habsent hmem⟩
      · exact .inl rfl
    · rintro (rfl | ⟨hmem, -⟩)
      · exact .inr rfl
      · exact .inl hmem

/-- An assignment does not repeat a key. -/
theorem nodup_assign {members : List (κ × ν)} (hnodup : (members.map Prod.fst).Nodup) (key : κ)
    (value : ν) : ((assign members key value).map Prod.fst).Nodup := by
  unfold assign
  by_cases hkey : members.any (·.1 = key)
  · rw [if_pos hkey, List.map_map]
    have hkeys : members.map (Prod.fst ∘ fun m => if m.1 = key then (key, value) else m) =
        members.map Prod.fst := by
      apply List.map_congr_left
      intro m _
      by_cases hsame : m.1 = key
      · simp [hsame]
      · simp [hsame]
    rwa [hkeys]
  · rw [if_neg hkey, List.map_append, List.map_singleton, List.nodup_append]
    refine ⟨hnodup, List.nodup_singleton key, ?_⟩
    intro k hk k' hk'
    obtain ⟨m, hm, rfl⟩ := List.mem_map.mp hk
    obtain rfl : k' = key := List.mem_singleton.mp hk'
    intro hsame
    exact hkey (List.any_eq_true.mpr ⟨m, hm, decide_eq_true hsame⟩)

variable [BEq κ] [LawfulBEq κ]

omit [DecidableEq κ] in
/-- With different keys, looking up finds the members. -/
theorem lookup_eq_some_iff {members : List (κ × ν)} (hnodup : (members.map Prod.fst).Nodup)
    (key : κ) (value : ν) : members.lookup key = some value ↔ (key, value) ∈ members := by
  induction members with
  | nil => simp
  | cons m members ih =>
    obtain ⟨k, v⟩ := m
    rw [List.map_cons, List.nodup_cons] at hnodup
    rw [List.lookup_cons, List.mem_cons]
    by_cases hsame : key = k
    · subst hsame
      have habsent : (key, value) ∉ members := fun hmem =>
        hnodup.1 (List.mem_map.mpr ⟨_, hmem, rfl⟩)
      simp [habsent, eq_comm]
    · have hne : (key == k) = false := by simpa using hsame
      simp [hne, ih hnodup.2, hsame]

/-- Looking up after an assignment. -/
theorem lookup_assign {members : List (κ × ν)} (hnodup : (members.map Prod.fst).Nodup) (key : κ)
    (value : ν) (k : κ) :
    (assign members key value).lookup k = if k = key then some value else members.lookup k := by
  apply Option.ext
  intro v
  rw [lookup_eq_some_iff (nodup_assign hnodup key value), mem_assign]
  by_cases hsame : k = key
  · subst hsame
    simp [eq_comm]
  · simp [hsame, lookup_eq_some_iff hnodup]

end Assign

/-! ### The builder -/

/-- The entry a registration assigns to, with its key. -/
def Registration.entry (r : Registration N) : Option (JsString × RouteEntry N) :=
  match r.handling with
  | .reply value => some (routeKey r.method r.route, ⟨replyType value, value⟩)
  | .action name =>
    if isPattern r.route then none
    else some (routeKey r.method r.route, ⟨"action", .string name⟩)

/-- The dynamic route a registration pushes. -/
def Registration.dynamicEntry (r : Registration N) : Option DynamicEntry :=
  match r.handling with
  | .reply _ => none
  | .action name => if isPattern r.route then some ⟨r.method, r.route, name⟩ else none

/-- The builder after the registrations of an application. -/
def build (regs : List (Registration N)) : Builder N := regs.foldl addRoute {}

theorem build_append_singleton (regs : List (Registration N)) (r : Registration N) :
    build (regs ++ [r]) = addRoute (build regs) r := by
  simp [build]

/-- A registration either assigns an entry or pushes a dynamic route. -/
theorem addRoute_cases (b : Builder N) (r : Registration N) :
    (∃ entry, r.entry = some entry ∧ r.dynamicEntry = none ∧
      addRoute b r = { b with routes := assign b.routes entry.1 entry.2 }) ∨
    (∃ entry, r.entry = none ∧ r.dynamicEntry = some entry ∧
      addRoute b r = { b with dynamicRoutes := pushDynamic b.dynamicRoutes entry }) := by
  obtain ⟨method, route, handling⟩ := r
  cases handling with
  | reply value => exact .inl ⟨_, rfl, rfl, rfl⟩
  | action name =>
    by_cases hpattern : isPattern route
    · exact .inr ⟨_, if_pos hpattern, if_pos hpattern, if_pos hpattern⟩
    · exact .inl ⟨_, if_neg hpattern, if_neg hpattern, if_neg hpattern⟩

/-- The keys of the table are different. -/
theorem nodup_routes (regs : List (Registration N)) : ((build regs).routes.map Prod.fst).Nodup := by
  induction regs using List.reverseRecOn with
  | nil => exact List.nodup_nil
  | append_singleton regs r ih =>
    rw [build_append_singleton]
    obtain ⟨entry, -, -, hadd⟩ | ⟨entry, -, -, hadd⟩ := addRoute_cases (build regs) r
    · rw [hadd]
      exact nodup_assign ih entry.1 entry.2
    · rw [hadd]
      exact ih

/-- The table holds under each key the last entry assigned to it. -/
theorem lookup_routes (regs : List (Registration N)) (key : JsString) :
    (build regs).routes.lookup key = regs.reverse.findSome? fun r =>
      r.entry.bind fun entry => if key = entry.1 then some entry.2 else none := by
  induction regs using List.reverseRecOn with
  | nil => rfl
  | append_singleton regs r ih =>
    rw [build_append_singleton, List.reverse_append, List.reverse_singleton, List.singleton_append,
      List.findSome?_cons, ← ih]
    obtain ⟨entry, hentry, -, hadd⟩ | ⟨entry, hentry, -, hadd⟩ := addRoute_cases (build regs) r
    · rw [hadd, hentry]
      change (assign (build regs).routes entry.1 entry.2).lookup key = _
      rw [lookup_assign (nodup_routes regs)]
      by_cases hkey : key = entry.1
      · simp [hkey]
      · simp [hkey]
    · rw [hadd, hentry]
      rfl

/-- An entry of the table has been assigned and not been overwritten. -/
theorem mem_routes (regs : List (Registration N)) (m : JsString × RouteEntry N) :
    m ∈ (build regs).routes ↔ ∃ before r after, regs = before ++ r :: after ∧ r.entry = some m ∧
      ∀ r' ∈ after, ∀ m', r'.entry = some m' → m'.1 ≠ m.1 := by
  induction regs using List.reverseRecOn with
  | nil => simp [build]
  | append_singleton regs r ih =>
    rw [build_append_singleton]
    -- A split of the longer list either ends with the new registration or is one of the shorter.
    have hsplits : (∃ before r₀ after, regs ++ [r] = before ++ r₀ :: after ∧ r₀.entry = some m ∧
        ∀ r' ∈ after, ∀ m', r'.entry = some m' → m'.1 ≠ m.1) ↔
        r.entry = some m ∨ (∀ m', r.entry = some m' → m'.1 ≠ m.1) ∧ m ∈ (build regs).routes := by
      rw [ih]
      constructor
      · rintro ⟨before, r₀, after, hsplit, hentry, hafter⟩
        cases after using List.reverseRecOn with
        | nil =>
          have hlast := List.append_inj_right' hsplit rfl
          obtain rfl : r = r₀ := by simpa using hlast
          exact .inl hentry
        | append_singleton after last =>
          have hsplit' : regs ++ [r] = (before ++ r₀ :: after) ++ [last] := by simpa using hsplit
          have hregs := List.append_inj_left' hsplit' rfl
          obtain rfl : r = last := by simpa using List.append_inj_right' hsplit' rfl
          refine .inr ⟨hafter r (by simp), before, r₀, after, hregs, hentry, ?_⟩
          intro r' hr'
          exact hafter r' (List.mem_append_left _ hr')
      · rintro (hentry | ⟨hkept, before, r₀, after, hsplit, hentry, hafter⟩)
        · exact ⟨regs, r, [], rfl, hentry, by simp⟩
        · refine ⟨before, r₀, after ++ [r], by simp [hsplit], hentry, ?_⟩
          intro r' hr'
          rcases List.mem_append.mp hr' with hmem | hmem
          · exact hafter r' hmem
          · rw [List.mem_singleton.mp hmem]
            exact hkept
    rw [hsplits]
    obtain ⟨entry, hentry, -, hadd⟩ | ⟨entry, hentry, -, hadd⟩ := addRoute_cases (build regs) r
    · rw [hadd, mem_assign, hentry]
      constructor
      · rintro (rfl | ⟨hmem, hne⟩)
        · exact .inl rfl
        · refine .inr ⟨?_, hmem⟩
          rintro m' ⟨⟩
          exact hne.symm
      · rintro (hsame | ⟨hkept, hmem⟩)
        · exact .inl (Option.some.inj hsame).symm
        · exact .inr ⟨hmem, (hkept entry rfl).symm⟩
    · rw [hadd, hentry]
      simp

/-- The dynamic routes are grouped by method. -/
def Grouped (dynamicRoutes : List (Method × List DynamicEntry)) : Prop :=
  (dynamicRoutes.map Prod.fst).Nodup ∧ ∀ group ∈ dynamicRoutes, ∀ entry ∈ group.2,
    entry.method = group.1

/-- The routes of a method are its group. -/
theorem filter_flatMap_of_grouped {dynamicRoutes : List (Method × List DynamicEntry)}
    (hgrouped : Grouped dynamicRoutes) (method : Method) :
    (dynamicRoutes.flatMap Prod.snd).filter (·.method = method) =
      (dynamicRoutes.lookup method).getD [] := by
  induction dynamicRoutes with
  | nil => rfl
  | cons group groups ih =>
    obtain ⟨m, entries⟩ := group
    obtain ⟨hnodup, hmethods⟩ := hgrouped
    rw [List.map_cons, List.nodup_cons] at hnodup
    have hgroup : ∀ entry ∈ entries, entry.method = m := hmethods (m, entries) (List.mem_cons_self ..)
    have hgroups : Grouped groups :=
      ⟨hnodup.2, fun group hgroup => hmethods group (List.mem_cons_of_mem _ hgroup)⟩
    rw [List.flatMap_cons, List.filter_append, ih hgroups, List.lookup_cons]
    by_cases hsame : method = m
    · have habsent : groups.lookup method = none := by
        rw [List.lookup_eq_none_iff]
        intro group hmem
        have hne : group.1 ≠ m := fun h => hnodup.1 (List.mem_map.mpr ⟨group, hmem, h⟩)
        simpa [hsame] using hne.symm
      have hall : entries.filter (·.method = method) = entries := by
        rw [List.filter_eq_self]
        intro entry hentry
        simpa [hsame] using hgroup entry hentry
      rw [habsent, hall, hsame]
      simp
    · have hnone : entries.filter (·.method = method) = [] := by
        rw [List.filter_eq_nil_iff]
        intro entry hentry
        simpa [hgroup entry hentry] using Ne.symm hsame
      have hne : (method == m) = false := by simpa using hsame
      rw [hnone, hne, List.nil_append]

/-- Pushing keeps the groups. -/
theorem grouped_pushDynamic {dynamicRoutes : List (Method × List DynamicEntry)}
    (hgrouped : Grouped dynamicRoutes) (entry : DynamicEntry) :
    Grouped (pushDynamic dynamicRoutes entry) := by
  refine ⟨nodup_assign hgrouped.1 _ _, ?_⟩
  intro group hgroup e he
  rcases (mem_assign _ _ _ _).mp hgroup with rfl | ⟨hmem, -⟩
  · rcases List.mem_append.mp he with hold | hnew
    · cases hlookup : dynamicRoutes.lookup entry.method with
      | none =>
        rw [hlookup] at hold
        exact absurd hold List.not_mem_nil
      | some entries =>
        rw [hlookup] at hold
        exact hgrouped.2 _ ((lookup_eq_some_iff hgrouped.1 _ _).mp hlookup) e hold
    · rw [List.mem_singleton.mp hnew]
  · exact hgrouped.2 group hmem e he

theorem grouped_build (regs : List (Registration N)) : Grouped (build regs).dynamicRoutes := by
  induction regs using List.reverseRecOn with
  | nil => exact ⟨List.nodup_nil, by simp [build]⟩
  | append_singleton regs r ih =>
    rw [build_append_singleton]
    obtain ⟨entry, -, -, hadd⟩ | ⟨entry, -, -, hadd⟩ := addRoute_cases (build regs) r
    · rw [hadd]
      exact ih
    · rw [hadd]
      exact grouped_pushDynamic ih entry

/-- The dynamic routes of a method stand in the order of their registration. -/
theorem filter_flatDynamic (regs : List (Registration N)) (method : Method) :
    (build regs).flatDynamic.filter (·.method = method) =
      (regs.filterMap Registration.dynamicEntry).filter (·.method = method) := by
  induction regs using List.reverseRecOn with
  | nil => rfl
  | append_singleton regs r ih =>
    rw [build_append_singleton, List.filterMap_append, List.filter_append, ← ih]
    obtain ⟨entry, -, hentry, hadd⟩ | ⟨entry, -, hentry, hadd⟩ := addRoute_cases (build regs) r
    · rw [hadd]
      simp [hentry, Builder.flatDynamic]
    · have hgrouped := grouped_build regs
      have hold := filter_flatMap_of_grouped hgrouped method
      have hnew := filter_flatMap_of_grouped (grouped_pushDynamic hgrouped entry) method
      rw [pushDynamic, lookup_assign hgrouped.1] at hnew
      rw [hadd]
      change ((pushDynamic (build regs).dynamicRoutes entry).flatMap Prod.snd).filter _ =
        ((build regs).dynamicRoutes.flatMap Prod.snd).filter _ ++ _
      rw [pushDynamic, hnew, hold]
      by_cases hsame : method = entry.method
      · simp [hsame, hentry]
      · have hne : entry.method ≠ method := Ne.symm hsame
        simp [hsame, hne, hentry]

/-- The dynamic routes are those of the registrations. -/
theorem mem_flatDynamic (regs : List (Registration N)) (entry : DynamicEntry) :
    entry ∈ (build regs).flatDynamic ↔ ∃ r ∈ regs, r.dynamicEntry = some entry := by
  have hfilter := filter_flatDynamic regs entry.method
  have hmem : entry ∈ (build regs).flatDynamic ↔
      entry ∈ (build regs).flatDynamic.filter (·.method = entry.method) := by
    simp
  rw [hmem, hfilter]
  simp

end FrameworkBenchmarks.TitanPl
