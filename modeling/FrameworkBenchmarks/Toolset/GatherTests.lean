import FrameworkBenchmarks.Toolset.Metadata

/-!
# Which tests are gathered

The filter keeps the selected tests, and with both names and tags given also the tagged ones that
are not named. Only test objects are deduplicated, not their names.
-/

namespace FrameworkBenchmarks.Toolset

variable {suite : Suite} {config : Config} {incl excl : List String} {t : FrameworkTest}
  {T l : List FrameworkTest}

/-- A test carries one of the given tags. -/
def CarriesTag (config : Config) (t : FrameworkTest) : Prop :=
  ∃ tag ∈ config.tag, t.hasTag tag = true

/-- A test is selected by the options: it is not broken, and it is named; or without any names,
it is not excluded, and it carries a tag if there are some. -/
structure Selected (config : Config) (incl excl : List String) (t : FrameworkTest) : Prop where
  notBroken : t.hasTag "broken" = false
  named : incl ≠ [] → t.name ∈ incl
  notExcluded : incl = [] → t.name ∉ excl
  tagged : incl = [] → config.tag ≠ [] → CarriesTag config t

/-- The gathered tests are the selected ones of the chosen directories, once by name and sorted by
name, and all names given are among theirs. -/
structure GathersExactly (suite : Suite) (config : Config) (incl excl : List String)
    (result : Except GatherError (List FrameworkTest)) (T l : List FrameworkTest) : Prop where
  chosen : chosenTests suite config = .ok T
  returned : result = .ok l
  sorted : l.Pairwise fun s t => s.name ≤ t.name
  once : (l.map FrameworkTest.name).Nodup
  sound : ∀ t ∈ l, t ∈ T ∧ Selected config incl excl t
  complete : ∀ t ∈ T, Selected config incl excl t → t.name ∈ l.map FrameworkTest.name
  namesFound : ∀ name ∈ incl, name ∈ l.map FrameworkTest.name

/-- The runs whose tests are gathered exactly: all config files are found and valid, every given
name is that of a selected test, no two selected tests have one name, and with both names and tags
given, the tagged tests are named. -/
structure Gatherable (suite : Suite) (config : Config) (incl excl : List String)
    (T : List FrameworkTest) : Prop where
  chosen : chosenTests suite config = .ok T
  found : ∀ name ∈ incl, ∃ t ∈ T, Selected config incl excl t ∧ t.name = name
  distinct : ∀ t ∈ T, ∀ u ∈ T, Selected config incl excl t → Selected config incl excl u →
    t.name = u.name → t = u
  taggedNamed : incl ≠ [] → ∀ t ∈ T, t.hasTag "broken" = false → CarriesTag config t →
    t.name ∉ excl → t.name ∈ incl

/-- The tests that the filter keeps. -/
theorem mem_filterTest_iff {u : FrameworkTest} :
    u ∈ filterTest config incl excl t ↔ u = t ∧ t.hasTag "broken" = false ∧
      (CarriesTag config t ∧ t.name ∉ excl ∨ incl ≠ [] ∧ t.name ∈ incl ∨
        incl = [] ∧ t.name ∉ excl ∧ config.tag = []) := by
  have htag : (config.tag.any fun tag => t.hasTag tag && !excl.contains t.name) = true ↔
      CarriesTag config t ∧ t.name ∉ excl := by
    simp [CarriesTag, List.any_eq_true]
    tauto
  rw [filterTest]
  cases hbroken : t.hasTag "broken" with
  | true => simp
  | false =>
    simp only [Bool.false_eq_true, if_false, List.mem_append, htag, List.mem_ite_nil_right,
      List.mem_singleton, List.length_pos_iff]
    by_cases hincl : incl = []
    · by_cases hnot : t.name ∉ excl ∧ config.tag = []
      · simp_all
      · simp_all
        tauto
    · by_cases hname : t.name ∈ incl
      · simp_all
      · simp_all
        tauto

/-- A selected test is kept. -/
theorem Selected.mem_filterTest (h : Selected config incl excl t) :
    t ∈ filterTest config incl excl t := by
  refine mem_filterTest_iff.2 ⟨rfl, h.notBroken, ?_⟩
  by_cases hincl : incl = []
  · by_cases htag : config.tag = []
    · exact .inr (.inr ⟨hincl, h.notExcluded hincl, htag⟩)
    · exact .inl ⟨h.tagged hincl htag, h.notExcluded hincl⟩
  · exact .inr (.inl ⟨hincl, h.named hincl⟩)

/-- A kept test is selected, unless names are given and it is only tagged. -/
theorem selected_of_mem_filterTest (h : t ∈ filterTest config incl excl t)
    (htagged : incl ≠ [] → CarriesTag config t → t.name ∉ excl → t.name ∈ incl) :
    Selected config incl excl t := by
  obtain ⟨-, hbroken, hkept⟩ := mem_filterTest_iff.1 h
  rcases hkept with ⟨htag, hexcl⟩ | ⟨hincl, hname⟩ | ⟨hincl, hexcl, htag⟩
  · exact ⟨hbroken, fun hincl => htagged hincl htag hexcl, fun _ => hexcl, fun _ _ => htag⟩
  · exact ⟨hbroken, fun _ => hname, fun h => absurd h hincl, fun h => absurd h hincl⟩
  · exact ⟨hbroken, fun h => absurd hincl h, fun _ => hexcl, fun _ h => absurd htag h⟩

/-- A sequence of computations returns what the second one returns after the first. -/
theorem bind_eq_ok_iff {ε α β : Type} {x : Except ε α} {f : α → Except ε β} {b : β} :
    x >>= f = .ok b ↔ ∃ a, x = .ok a ∧ f a = .ok b := by
  cases x with
  | error e => exact iff_of_false (nomatch ·) fun ⟨_, h, _⟩ => nomatch h
  | ok a => exact ⟨fun h => ⟨a, rfl, h⟩, fun ⟨_, ha, h⟩ => Except.ok.inj ha ▸ h⟩

/-- Every test object has an identity of its own. -/
theorem nodup_of_chosenTests (h : chosenTests suite config = .ok T) : T.Nodup := by
  obtain ⟨files, -, h⟩ := bind_eq_ok_iff.1 h
  obtain ⟨tests, -, h⟩ := bind_eq_ok_iff.1 h
  obtain rfl := Except.ok.inj h
  refine List.Nodup.of_map FrameworkTest.ident ?_
  rw [List.map_map]
  have hidents : tests.flatten.zipIdx.map
      (FrameworkTest.ident ∘ fun t => { t.1 with ident := t.2 }) = List.range' 0 _ :=
    List.zipIdx_map_snd 0 tests.flatten
  rw [hidents]
  exact List.nodup_range'

/-- Once the tests of the chosen directories are known, gathering raises an exception for the names
that are not found, or returns the sorted set of the kept tests. -/
theorem gatherTests_eq {sets : SetOrder} (hT : chosenTests suite config = .ok T) :
    gatherTests sets suite config incl excl =
      let tests := T.flatMap (filterTest config incl excl)
      let missing := incl.filter fun name => name ∉ tests.map FrameworkTest.name
      if missing ≠ [] then .error (.testsNotFound missing)
      else .ok ((sets.order tests).insertionSort fun s t => s.name ≤ t.name) := by
  rw [gatherTests, hT]
  simp only [bind, Except.bind, pure, Except.pure, throw, throwThe, MonadExceptOf.throw]

/-- Every kept test is in the list once. -/
theorem mem_flatMap_filterTest_iff :
    t ∈ T.flatMap (filterTest config incl excl) ↔ t ∈ T ∧ t ∈ filterTest config incl excl t := by
  rw [List.mem_flatMap]
  constructor
  · rintro ⟨u, hu, ht⟩
    obtain rfl := (mem_filterTest_iff.1 ht).1
    exact ⟨hu, ht⟩
  · rintro ⟨hT, ht⟩
    exact ⟨t, hT, ht⟩

/-- The gathered tests are the kept ones of the chosen directories. -/
theorem mem_gatherTests {sets : SetOrder} (hT : chosenTests suite config = .ok T)
    (h : gatherTests sets suite config incl excl = .ok l) :
    l.Nodup ∧ (l.Pairwise fun s t => s.name ≤ t.name) ∧
      ∀ t, t ∈ l ↔ t ∈ T ∧ t ∈ filterTest config incl excl t := by
  rw [gatherTests_eq hT] at h
  dsimp only at h
  split at h
  · cases h
  · obtain rfl := Except.ok.inj h
    set tests := T.flatMap (filterTest config incl excl)
    have hperm : ((sets.order tests).insertionSort fun s t => s.name ≤ t.name).Perm tests.dedup :=
      (List.perm_insertionSort _ _).trans (sets.perm tests)
    refine ⟨hperm.nodup_iff.2 (List.nodup_dedup _), ?_, fun t => ?_⟩
    · have htotal : Std.Total fun s t : FrameworkTest => s.name ≤ t.name :=
        ⟨fun s t => String.le_total s.name t.name⟩
      have htrans : IsTrans FrameworkTest fun s t => s.name ≤ t.name :=
        ⟨fun s t u => String.le_trans⟩
      exact List.pairwise_insertionSort _ _
    · rw [hperm.mem_iff, List.mem_dedup, mem_flatMap_filterTest_iff]

/-- Gathering raises an exception only if a file is missing or invalid, or a name is not found. -/
theorem gatherTests_returns_iff (sets : SetOrder) (hT : chosenTests suite config = .ok T) :
    (∃ l, gatherTests sets suite config incl excl = .ok l) ↔
      ∀ name ∈ incl, ∃ t ∈ T, t ∈ filterTest config incl excl t ∧ t.name = name := by
  have hmissing : (incl.filter fun name =>
      name ∉ (T.flatMap (filterTest config incl excl)).map FrameworkTest.name) = [] ↔
      ∀ name ∈ incl, ∃ t ∈ T, t ∈ filterTest config incl excl t ∧ t.name = name := by
    rw [List.filter_eq_nil_iff]
    simp only [decide_eq_true_eq, not_not, List.mem_map, mem_flatMap_filterTest_iff, and_assoc]
  rw [gatherTests_eq hT, ← hmissing]
  dsimp only
  split_ifs with hnil <;> simp_all

/-- A set that is listed in the order of its first occurrences from the end. -/
def dedupOrder : SetOrder where
  order := List.dedup
  perm := fun l => .refl l.dedup

/-- A suite of one config file with two tests, one of them tagged. -/
def taggedSuite : Suite where
  languageTests := fun _ => none
  frameworkConfig := fun _ => none
  configFiles := ["C/f/benchmark_config.json"]
  load := fun _ => some
    { framework := "f", directory := "C/f",
      tests := [[("default", { fields := validFields }),
        ("pg", { fields := validFields, tags := some ["x"] })]] }
  supportedDbs := []
where
  validFields :=
    [("language", "C"), ("classification", "Micro"), ("approach", "Realistic"), ("os", "Linux"),
      ("database", "None"), ("orm", "Raw"), ("database_os", "Linux")]

end FrameworkBenchmarks.Toolset
