import FrameworkBenchmarks.AspNetCore.UpdateIds
import Mathlib.Data.Int.Notation
import Mathlib.Data.List.Forall2

/-!
# Updates of the platform

`LoadMultipleUpdatesRows` of `RawDbNpgsql.cs` reads the rows of its ids one by one, draws another number for each
of them, and updates the table from the arrays of ids and numbers. Where an id occurs more than once, the database
may take any of its numbers.
-/

namespace FrameworkBenchmarks.AspNetCore

/-- A row of the table, or what is read from it. -/
@[ext]
structure World where
  id : ℕ
  randomNumber : ℤ
  deriving DecidableEq

/-- `ReadSingleRow`: where there is no row, its columns cannot be read. -/
def readSingleRow (table : List World) (id : ℕ) : Option World := table.find? fun row => row.id = id

/-- The number for a world that is read. -/
def otherNumber (world : World) (draw : ℕ) : ℤ :=
  let randomNumber : ℤ := draw
  if world.randomNumber = randomNumber then randomNumber % 10000 + 1 else randomNumber

/-- A world with the number that it is returned with. -/
def World.withNumber (world : World) (number : ℤ) : World := { world with randomNumber := number }

/-- What a call passes to its update, and what it returns. -/
structure UpdatesCall where
  ids : List ℕ
  numbers : List ℤ
  results : List World

/-- `LoadMultipleUpdatesRows` with the draws in their order. The one behind the ids is the first value of the
parameter of `CreateReadCommand`, which is overwritten. -/
def loadMultipleUpdatesRows (count : ℕ) (draws : ℕ → ℕ) (table : List World) : Option UpdatesCall := do
  let ids := uniqueIds ((List.range count).map draws)
  let worlds ← ids.mapM (readSingleRow table)
  let numbers := List.zipWith otherNumber worlds ((List.range count).map fun i => draws (count + 1 + i))
  return ⟨ids, numbers, List.zipWith World.withNumber worlds numbers⟩

/-- `UPDATE world w SET randomnumber = u.new_val FROM u WHERE w.id = u.id`: a row takes the number of some row of `u`
with its id. -/
def UpdateFrom (u : List (ℕ × ℤ)) (table table' : List World) : Prop :=
  List.Forall₂ (fun row row' => row'.id = row.id ∧
    ((∃ pair ∈ u, pair.1 = row.id ∧ row'.randomNumber = pair.2) ∨
      (∀ pair ∈ u, pair.1 ≠ row.id) ∧ row'.randomNumber = row.randomNumber)) table table'

/-- The ids are distinct ids of the table. Whatever the update takes, the worlds that are returned are in the table
behind it, with other numbers than before, and the other rows are as they were. -/
structure UpdatesCall.Stored (call : UpdatesCall) (table : List World) : Prop where
  distinct : call.ids.Nodup
  range : ∀ id ∈ call.ids, 1 ≤ id ∧ id ≤ 10000
  returned : ∀ table', UpdateFrom (call.ids.zip call.numbers) table table' → ∀ world ∈ call.results, world ∈ table'
  rows : ∀ table', UpdateFrom (call.ids.zip call.numbers) table table' → List.Forall₂ (fun row row' =>
    (∀ world ∈ call.results, world.id = row.id → row' = world ∧ world.randomNumber ≠ row.randomNumber) ∧
      ((∀ world ∈ call.results, world.id ≠ row.id) → row' = row)) table table'

/-! ### Reading -/

theorem otherNumber_ne (world : World) (draw : ℕ) : otherNumber world draw ≠ world.randomNumber := by
  unfold otherNumber
  by_cases heq : world.randomNumber = draw
  · rw [if_pos heq]
    omega
  · rw [if_neg heq]
    exact fun heq' => heq heq'.symm

theorem readSingleRow_of_mem {table : List World} {id : ℕ} (h : id ∈ table.map World.id) :
    ∃ row ∈ table, row.id = id ∧ readSingleRow table id = some row := by
  obtain ⟨row, hrow, hid⟩ := List.mem_map.mp h
  cases hfind : readSingleRow table id with
  | none => exact absurd (decide_eq_true hid) (List.find?_eq_none.mp hfind row hrow)
  | some found =>
    have hfound := @List.find?_some _ (fun row : World => decide (row.id = id)) _ _ hfind
    exact ⟨found, List.mem_of_find?_eq_some hfind, of_decide_eq_true hfound, rfl⟩

theorem mapM_readSingleRow {table : List World} {ids : List ℕ} (h : ∀ id ∈ ids, id ∈ table.map World.id) :
    ∃ worlds, ids.mapM (readSingleRow table) = some worlds ∧ worlds.map World.id = ids ∧
      ∀ world ∈ worlds, world ∈ table := by
  induction ids with
  | nil => exact ⟨[], rfl, rfl, fun world hworld => (nomatch hworld)⟩
  | cons id ids ih =>
    obtain ⟨worlds, hworlds, hids, hmem⟩ := ih fun id' hid' => h id' (List.mem_cons_of_mem id hid')
    obtain ⟨row, hrow, hid, hread⟩ := readSingleRow_of_mem (h id List.mem_cons_self)
    refine ⟨row :: worlds, ?_, by rw [List.map_cons, hid, hids], ?_⟩
    · rw [List.mapM_cons, hread, hworlds]
      rfl
    · intro world hworld
      rcases List.mem_cons.mp hworld with rfl | hworld
      · exact hrow
      · exact hmem world hworld

theorem length_incrementDuplicates (previous : ℕ) (ids : List ℕ) :
    (incrementDuplicates previous ids).length = ids.length := by
  induction ids generalizing previous with
  | nil => rfl
  | cons id ids ih => rw [incrementDuplicates, List.length_cons, List.length_cons, ih]

theorem length_uniqueIds (draws : List ℕ) : (uniqueIds draws).length = draws.length := by
  have hlength := List.length_insertionSort (· ≤ ·) draws
  unfold uniqueIds
  revert hlength
  cases draws.insertionSort (· ≤ ·) with
  | nil => exact fun h => h
  | cons id ids =>
    intro h
    rwa [List.length_cons, length_incrementDuplicates]

theorem ids_withNumber {worlds : List World} {numbers : List ℤ} (h : numbers.length = worlds.length) :
    (List.zipWith World.withNumber worlds numbers).map World.id = worlds.map World.id := by
  induction worlds generalizing numbers with
  | nil => rfl
  | cons world worlds ih =>
    cases numbers with
    | nil => cases h
    | cons number numbers =>
      rw [List.zipWith_cons_cons, List.map_cons, List.map_cons, ih (Nat.succ.inj h)]
      rfl

theorem pairs_withNumber (worlds : List World) (numbers : List ℤ) :
    (List.zipWith World.withNumber worlds numbers).map (fun world => (world.id, world.randomNumber)) =
      (worlds.map World.id).zip numbers := by
  induction worlds generalizing numbers with
  | nil => rfl
  | cons world worlds ih =>
    cases numbers with
    | nil => rfl
    | cons number numbers =>
      rw [List.zipWith_cons_cons, List.map_cons, List.map_cons, List.zip_cons_cons, ih]
      rfl

theorem otherNumbers_ne (worlds : List World) (ds : List ℕ) :
    ∀ world ∈ List.zipWith World.withNumber worlds (List.zipWith otherNumber worlds ds),
      ∃ row ∈ worlds, row.id = world.id ∧ world.randomNumber ≠ row.randomNumber := by
  induction worlds generalizing ds with
  | nil => exact fun world hworld => (nomatch hworld)
  | cons first worlds ih =>
    cases ds with
    | nil => exact fun world hworld => (nomatch hworld)
    | cons d ds =>
      intro world hworld
      rw [List.zipWith_cons_cons, List.zipWith_cons_cons] at hworld
      rcases List.mem_cons.mp hworld with rfl | hworld
      · exact ⟨first, List.mem_cons_self, rfl, otherNumber_ne first d⟩
      · obtain ⟨row, hrow, hne⟩ := ih ds world hworld
        exact ⟨row, List.mem_cons_of_mem first hrow, hne⟩

/-- A call reads the row of each id, returns it with a number other than its own, and updates from the same pairs. -/
theorem loadMultipleUpdatesRows_eq {count : ℕ} {draws : ℕ → ℕ} {table : List World}
    (hdraws : ∀ k, 1 ≤ draws k ∧ draws k ≤ 10000) (htable : ∀ id, 1 ≤ id → id ≤ 10000 → id ∈ table.map World.id) :
    ∃ call, loadMultipleUpdatesRows count draws table = some call ∧
      call.ids = uniqueIds ((List.range count).map draws) ∧ call.results.map World.id = call.ids ∧
      call.ids.zip call.numbers = call.results.map (fun world => (world.id, world.randomNumber)) ∧
      ∀ world ∈ call.results, ∃ row ∈ table, row.id = world.id ∧ world.randomNumber ≠ row.randomNumber := by
  have hrange : ∀ id ∈ uniqueIds ((List.range count).map draws), 1 ≤ id ∧ id ≤ 10000 := by
    apply uniqueIds_range
    intro id hid
    obtain ⟨k, _, rfl⟩ := List.mem_map.mp hid
    exact hdraws k
  obtain ⟨worlds, hworlds, hids, hmem⟩ := mapM_readSingleRow fun id hid => htable id (hrange id hid).1 (hrange id hid).2
  have hlength : worlds.length = count := by
    rw [← List.length_map World.id, hids, length_uniqueIds, List.length_map, List.length_range]
  have hnumbers : (List.zipWith otherNumber worlds ((List.range count).map fun i => draws (count + 1 + i))).length =
      worlds.length := by
    rw [List.length_zipWith, List.length_map, List.length_range, hlength, Nat.min_self]
  refine ⟨_, by rw [loadMultipleUpdatesRows, hworlds]; rfl, rfl, ?_, ?_, ?_⟩
  · rw [ids_withNumber hnumbers, hids]
  · rw [pairs_withNumber, hids]
  · intro world hworld
    obtain ⟨row, hrow, hne⟩ := otherNumbers_ne worlds _ world hworld
    exact ⟨row, hmem row hrow, hne⟩

/-! ### Storing -/

theorem exists_of_forall₂ {R : World → World → Prop} {rows rows' : List World} (h : List.Forall₂ R rows rows')
    {row : World} (hrow : row ∈ rows) : ∃ row' ∈ rows', R row row' := by
  induction h with
  | nil => cases hrow
  | @cons first first' rows rows' hfirst _ ih =>
    rcases List.mem_cons.mp hrow with rfl | hrow
    · exact ⟨first', List.mem_cons_self, hfirst⟩
    · obtain ⟨row', hrow', hR⟩ := ih hrow
      exact ⟨row', List.mem_cons_of_mem first' hrow', hR⟩

/-- With distinct ids, the update sets each row to the one world that has its id. -/
theorem rows_of_updateFrom {results table table' : List World} (hnodup : (results.map World.id).Nodup)
    (htable : (table.map World.id).Nodup)
    (hread : ∀ world ∈ results, ∃ row ∈ table, row.id = world.id ∧ world.randomNumber ≠ row.randomNumber)
    (h : UpdateFrom (results.map fun world => (world.id, world.randomNumber)) table table') :
    List.Forall₂ (fun row row' =>
      (∀ world ∈ results, world.id = row.id → row' = world ∧ world.randomNumber ≠ row.randomNumber) ∧
        ((∀ world ∈ results, world.id ≠ row.id) → row' = row)) table table' := by
  have hstep : ∀ row row', row ∈ table → (row'.id = row.id ∧
      ((∃ pair ∈ results.map fun world => (world.id, world.randomNumber), pair.1 = row.id ∧
        row'.randomNumber = pair.2) ∨
        (∀ pair ∈ results.map fun world => (world.id, world.randomNumber), pair.1 ≠ row.id) ∧
          row'.randomNumber = row.randomNumber)) →
      (∀ world ∈ results, world.id = row.id → row' = world ∧ world.randomNumber ≠ row.randomNumber) ∧
        ((∀ world ∈ results, world.id ≠ row.id) → row' = row) := by
    intro row row' hrow hrow'
    obtain ⟨hid, hset⟩ := hrow'
    rcases hset with ⟨pair, hpair, hpairId, hnumber⟩ | ⟨hnone, hnumber⟩
    · obtain ⟨found, hfound, rfl⟩ := List.mem_map.mp hpair
      constructor
      · intro world hworld hworldId
        obtain rfl : world = found := List.inj_on_of_nodup_map hnodup hworld hfound (hworldId.trans hpairId.symm)
        obtain ⟨row₀, hrow₀, hid₀, hne⟩ := hread world hworld
        obtain rfl : row₀ = row := List.inj_on_of_nodup_map htable hrow₀ hrow (hid₀.trans hworldId)
        refine ⟨?_, hne⟩
        exact World.ext (hid.trans hworldId.symm) hnumber
      · intro hnone
        exact absurd hpairId (hnone found hfound)
    · constructor
      · intro world hworld hworldId
        exact absurd hworldId (hnone _ (List.mem_map.mpr ⟨world, hworld, rfl⟩))
      · intro _
        exact World.ext hid hnumber
  have hrows := (List.forall₂_and_left table table').mpr ⟨fun row hrow => hrow, h⟩
  exact hrows.imp fun row row' hboth => hstep row row' hboth.1 hboth.2

/-- For every number of updates, every table with the ids and all draws, a call returns and stores what it returns if and
only if the draws are not too crowded. -/
theorem loadMultipleUpdatesRows_stored_iff {count : ℕ} {draws : ℕ → ℕ} {table : List World}
    (hdraws : ∀ k, 1 ≤ draws k ∧ draws k ≤ 10000) (htable : (table.map World.id).Perm (List.range' 1 10000)) :
    (∃ call, loadMultipleUpdatesRows count draws table = some call ∧ call.Stored table) ↔
      Uncrowded ((List.range count).map draws) := by
  have hids : ∀ id ∈ (List.range count).map draws, 1 ≤ id ∧ id ≤ 10000 := by
    intro id hid
    obtain ⟨k, _, rfl⟩ := List.mem_map.mp hid
    exact hdraws k
  have hmem : ∀ id, 1 ≤ id → id ≤ 10000 → id ∈ table.map World.id := by
    intro id hone hlast
    rw [htable.mem_iff, List.mem_range'_1]
    omega
  have hdistinct : (table.map World.id).Nodup := htable.nodup_iff.mpr List.nodup_range'
  obtain ⟨call, hcall, hcallIds, hresults, hpairs, hread⟩ := @loadMultipleUpdatesRows_eq count draws table hdraws hmem
  rw [← nodup_uniqueIds_iff hids]
  constructor
  · rintro ⟨call', hcall', hstored⟩
    rw [hcall, Option.some.injEq] at hcall'
    rw [← hcallIds, hcall']
    exact hstored.distinct
  · intro hnodup
    have hresultIds : (call.results.map World.id).Nodup := by
      rw [hresults, hcallIds]
      exact hnodup
    have hrows : ∀ table', UpdateFrom (call.ids.zip call.numbers) table table' → List.Forall₂ (fun row row' =>
        (∀ world ∈ call.results, world.id = row.id → row' = world ∧ world.randomNumber ≠ row.randomNumber) ∧
          ((∀ world ∈ call.results, world.id ≠ row.id) → row' = row)) table table' := by
      intro table' h
      rw [hpairs] at h
      exact rows_of_updateFrom hresultIds hdistinct hread h
    refine ⟨call, hcall, ?_, ?_, ?_, hrows⟩
    · rw [hcallIds]
      exact hnodup
    · rw [hcallIds]
      exact uniqueIds_range hids
    · intro table' h world hworld
      obtain ⟨row, hrow, hid, _⟩ := hread world hworld
      obtain ⟨row', hrow', hset, _⟩ := exists_of_forall₂ (hrows table' h) hrow
      rwa [← (hset world hworld hid.symm).1]

/-- The table whose rows all have one random number. -/
def uniformTable (randomNumber : ℤ) : List World := (List.range' 1 10000).map fun id => ⟨id, randomNumber⟩

theorem ids_uniformTable (randomNumber : ℤ) : (uniformTable randomNumber).map World.id = List.range' 1 10000 := by
  rw [uniformTable, List.map_map]
  exact List.map_id' _

/-- Two equal draws. -/
theorem loadMultipleUpdatesRows_stored_pair :
    (∃ call, loadMultipleUpdatesRows 2 (fun _ => 5) (uniformTable 7) = some call ∧ call.Stored (uniformTable 7)) ↔
      Uncrowded ((List.range 2).map fun _ => 5) :=
  loadMultipleUpdatesRows_stored_iff (fun _ => by decide) (by rw [ids_uniformTable])

/-- Three equal draws: the pass leaves the ids 5, 6 and 5. -/
theorem loadMultipleUpdatesRows_crowded :
    ¬∃ call, loadMultipleUpdatesRows 3 (fun _ => 5) (uniformTable 7) = some call ∧ call.Stored (uniformTable 7) := by
  rintro ⟨call, hcall, hstored⟩
  have hmem : ∀ id, 1 ≤ id → id ≤ 10000 → id ∈ (uniformTable 7).map World.id := by
    intro id hone hlast
    rw [ids_uniformTable, List.mem_range'_1]
    omega
  obtain ⟨call', hcall', hids, _⟩ := @loadMultipleUpdatesRows_eq 3 (fun _ => 5) _ (fun _ => by decide) hmem
  have hsame : call = call' := Option.some.inj (hcall.symm.trans hcall')
  have hdistinct := hstored.distinct
  rw [hsame, hids, show uniqueIds ((List.range 3).map fun _ => 5) = [5, 6, 5] from rfl] at hdistinct
  exact absurd hdistinct (by decide)

end FrameworkBenchmarks.AspNetCore
