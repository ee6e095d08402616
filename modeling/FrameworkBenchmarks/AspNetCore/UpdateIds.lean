import Mathlib.Data.List.Sort
import Mathlib.Data.Nat.Notation

/-!
# Unique ids of the platform updates

`LoadMultipleUpdatesRows` sorts the drawn ids and increments, in one pass, each id that equals the one before it.
An id that the pass has already gone beyond stays as it is, though it is there twice then; so the ids are distinct
only where the draws are not too crowded.
-/

namespace FrameworkBenchmarks.AspNetCore

/-- The pass over the ids behind one that has the value `previous` by now. -/
def incrementDuplicates (previous : ℕ) : List ℕ → List ℕ
  | [] => []
  | id :: ids =>
    let id := if id = previous then id % 10000 + 1 else id
    id :: incrementDuplicates id ids

/-- The ids for some draws, sorted and unique as far as the pass makes them so. -/
def uniqueIds (draws : List ℕ) : List ℕ :=
  match draws.insertionSort (· ≤ ·) with
  | [] => []
  | id :: ids => id :: incrementDuplicates id ids

/-- The number of draws in a range. -/
def drawnIn (a b : ℕ) (draws : List ℕ) : ℕ := draws.countP fun id => a ≤ id ∧ id ≤ b

/-- No range has more than one draw too many, and one that ends at the last id has none where the id 1 is drawn. -/
structure Uncrowded (draws : List ℕ) : Prop where
  range : ∀ a b, a ≤ b → drawnIn a b draws ≤ b - a + 2
  last : 1 ∈ draws → ∀ a ≤ 10000, drawnIn a 10000 draws ≤ 10000 - a + 1

/-! ### Sorted draws -/

/-- No id is one that the pass has gone beyond. -/
def Ahead : ℕ → List ℕ → Prop
  | _, [] => True
  | previous, id :: ids => previous ≤ id ∧ Ahead (max (previous + 1) id) ids

/-- The last id is not incremented. -/
def Below : ℕ → List ℕ → Prop
  | _, [] => True
  | previous, id :: ids => ¬(id = previous ∧ previous = 10000) ∧ Below (max (previous + 1) id) ids

/-- The ids up to a bound fit behind the last value. -/
def Room (previous : ℕ) (ids : List ℕ) : Prop := ∀ b, drawnIn 0 b ids ≤ b + 1 - previous

/-- No range has more than one id too many. -/
def Spread (ids : List ℕ) : Prop := ∀ a b, a ≤ b → drawnIn a b ids ≤ b - a + 2

/-- No range that ends at the last id has an id too many. -/
def SpreadBelow (ids : List ℕ) : Prop := ∀ a ≤ 10000, drawnIn a 10000 ids ≤ 10000 - a + 1

theorem drawnIn_cons_of_mem {a b id : ℕ} (ha : a ≤ id) (hb : id ≤ b) (ids : List ℕ) :
    drawnIn a b (id :: ids) = drawnIn a b ids + 1 :=
  List.countP_cons_of_pos (decide_eq_true ⟨ha, hb⟩)

theorem drawnIn_cons_of_not_mem {a b id : ℕ} (h : ¬(a ≤ id ∧ id ≤ b)) (ids : List ℕ) :
    drawnIn a b (id :: ids) = drawnIn a b ids :=
  List.countP_cons_of_neg (by rwa [decide_eq_true_eq])

theorem drawnIn_of_lt {b id : ℕ} {ids : List ℕ} (hids : ∀ id' ∈ ids, id ≤ id') (h : b < id) (a : ℕ) :
    drawnIn a b ids = 0 := by
  apply List.countP_eq_zero.mpr
  intro id' hid' hin
  have hle := hids id' hid'
  have hin' := of_decide_eq_true hin
  omega

/-- Below the smallest id, a range may as well start anywhere. -/
theorem drawnIn_of_le {a a' id : ℕ} {ids : List ℕ} (hids : ∀ id' ∈ ids, id ≤ id') (ha : a ≤ id) (ha' : a' ≤ id) (b : ℕ) :
    drawnIn a b ids = drawnIn a' b ids := by
  apply List.countP_congr
  intro id' hid'
  have hle := hids id' hid'
  simp only [decide_eq_true_eq]
  omega

theorem drawnIn_cons_le (a b id : ℕ) (ids : List ℕ) : drawnIn a b ids ≤ drawnIn a b (id :: ids) :=
  (List.sublist_cons_self id ids).countP_le

theorem drawnIn_last {ids : List ℕ} (hids : ∀ id ∈ ids, id ≤ 10000) : drawnIn 0 10000 ids = ids.length :=
  List.countP_eq_length.mpr fun id hid => decide_eq_true ⟨Nat.zero_le id, hids id hid⟩

theorem room_max (p q : ℕ) (ids : List ℕ) : Room (max p q) ids ↔ Room p ids ∧ Room q ids := by
  constructor
  · intro h
    exact ⟨fun b => Nat.le_trans (h b) (by omega), fun b => Nat.le_trans (h b) (by omega)⟩
  · intro h b
    have hp := h.1 b
    have hq := h.2 b
    omega

theorem room_cons (previous : ℕ) {id : ℕ} {ids : List ℕ} (hids : ∀ id' ∈ ids, id ≤ id') :
    Room previous (id :: ids) ↔ previous ≤ id ∧ Room (previous + 1) ids := by
  constructor
  · intro h
    constructor
    · have hid := h id
      rw [drawnIn_cons_of_mem (Nat.zero_le id) (Nat.le_refl id)] at hid
      omega
    · intro b
      rcases Nat.lt_or_ge b id with hlt | hge
      · rw [drawnIn_of_lt hids hlt]
        exact Nat.zero_le _
      · have hb := h b
        rw [drawnIn_cons_of_mem (Nat.zero_le id) hge] at hb
        omega
  · intro h b
    rcases Nat.lt_or_ge b id with hlt | hge
    · rw [drawnIn_cons_of_not_mem (by omega), drawnIn_of_lt hids hlt]
      exact Nat.zero_le _
    · have hb := h.2 b
      rw [drawnIn_cons_of_mem (Nat.zero_le id) hge]
      omega

theorem spread_cons {id : ℕ} {ids : List ℕ} (hids : ∀ id' ∈ ids, id ≤ id') :
    Spread (id :: ids) ↔ Room id ids ∧ Spread ids := by
  constructor
  · intro h
    constructor
    · intro b
      rcases Nat.lt_or_ge b id with hlt | hge
      · rw [drawnIn_of_lt hids hlt]
        exact Nat.zero_le _
      · have hb := h id b hge
        rw [drawnIn_cons_of_mem (Nat.le_refl id) hge, drawnIn_of_le hids (Nat.le_refl id) (Nat.zero_le id)] at hb
        omega
    · intro a b hab
      exact Nat.le_trans (drawnIn_cons_le a b id ids) (h a b hab)
  · intro h a b hab
    by_cases hin : a ≤ id ∧ id ≤ b
    · have hb := h.1 b
      rw [drawnIn_cons_of_mem hin.1 hin.2, drawnIn_of_le hids hin.1 (Nat.zero_le id)]
      omega
    · rw [drawnIn_cons_of_not_mem hin]
      exact h.2 a b hab

theorem spreadBelow_cons {id : ℕ} {ids : List ℕ} (hids : ∀ id' ∈ ids, id ≤ id') (hlast : id ≤ 10000)
    (hlasts : ∀ id' ∈ ids, id' ≤ 10000) : SpreadBelow (id :: ids) ↔ ids.length ≤ 10000 - id ∧ SpreadBelow ids := by
  constructor
  · intro h
    constructor
    · have hid := h id hlast
      rw [drawnIn_cons_of_mem (Nat.le_refl id) hlast, drawnIn_of_le hids (Nat.le_refl id) (Nat.zero_le id),
        drawnIn_last hlasts] at hid
      omega
    · intro a ha
      exact Nat.le_trans (drawnIn_cons_le a 10000 id ids) (h a ha)
  · intro h a ha
    by_cases hin : a ≤ id ∧ id ≤ 10000
    · rw [drawnIn_cons_of_mem hin.1 hin.2, drawnIn_of_le hids hin.1 (Nat.zero_le id), drawnIn_last hlasts]
      omega
    · rw [drawnIn_cons_of_not_mem hin]
      exact h.2 a ha

theorem ahead_iff {ids : List ℕ} (hsorted : ids.Pairwise (· ≤ ·)) (previous : ℕ) :
    Ahead previous ids ↔ Room previous ids ∧ Spread ids := by
  induction ids generalizing previous with
  | nil => exact iff_of_true trivial ⟨fun b => Nat.zero_le _, fun a b _ => Nat.zero_le _⟩
  | cons id ids ih =>
    rw [List.pairwise_cons] at hsorted
    rw [Ahead, ih hsorted.2, room_max, room_cons previous hsorted.1, spread_cons hsorted.1]
    constructor
    · rintro ⟨hle, ⟨hroom, hroom'⟩, hspread⟩
      exact ⟨⟨hle, hroom⟩, hroom', hspread⟩
    · rintro ⟨⟨hle, hroom⟩, hroom', hspread⟩
      exact ⟨hle, ⟨hroom, hroom'⟩, hspread⟩

theorem below_iff {ids : List ℕ} (hsorted : ids.Pairwise (· ≤ ·)) (hlasts : ∀ id ∈ ids, id ≤ 10000) {previous : ℕ}
    (hprevious : previous ≤ 10000) (hahead : Ahead previous ids) :
    Below previous ids ↔ ids.length ≤ 10000 - previous ∧ SpreadBelow ids := by
  induction ids generalizing previous with
  | nil => exact iff_of_true trivial ⟨Nat.zero_le _, fun a _ => Nat.zero_le _⟩
  | cons id ids ih =>
    rw [List.pairwise_cons] at hsorted
    have hid : id ≤ 10000 := hlasts id List.mem_cons_self
    have hids : ∀ id' ∈ ids, id' ≤ 10000 := fun id' hid' => hlasts id' (List.mem_cons_of_mem id hid')
    rw [Below, spreadBelow_cons hsorted.1 hid hids, List.length_cons]
    by_cases hlast : id = previous ∧ previous = 10000
    · constructor
      · intro h
        exact absurd hlast h.1
      · intro h
        omega
    · have hle := hahead.1
      rw [ih hsorted.2 hids (by omega) hahead.2]
      constructor
      · rintro ⟨-, hlength, hspread⟩
        exact ⟨by omega, by omega, hspread⟩
      · rintro ⟨hlength, hlength', hspread⟩
        exact ⟨hlast, by omega, hspread⟩

/-! ### The pass -/

theorem incrementDuplicates_range {ids : List ℕ} (hids : ∀ id ∈ ids, 1 ≤ id ∧ id ≤ 10000) (previous : ℕ) :
    ∀ id ∈ incrementDuplicates previous ids, 1 ≤ id ∧ id ≤ 10000 := by
  induction ids generalizing previous with
  | nil => exact fun id h => (nomatch h)
  | cons first ids ih =>
    intro id h
    rcases List.mem_cons.mp h with rfl | h
    · have hfirst := hids first List.mem_cons_self
      split
      · omega
      · exact hfirst
    · exact ih (fun id' hid' => hids id' (List.mem_cons_of_mem first hid')) _ id h

/-- Behind distinct values up to `previous`, the values of the pass are distinct if and only if it stays ahead, and
does not come to the id 1 again. -/
theorem nodup_incrementDuplicates {ids : List ℕ} (hsorted : ids.Pairwise (· ≤ ·)) (hlasts : ∀ id ∈ ids, id ≤ 10000)
    {done : List ℕ} {previous : ℕ} (hdone : done.Nodup) (hmem : previous ∈ done) (hle : ∀ id ∈ done, 1 ≤ id ∧ id ≤ previous)
    (hstale : ∀ id ∈ ids, id < previous → id ∈ done) :
    (done ++ incrementDuplicates previous ids).Nodup ↔ Ahead previous ids ∧ (Below previous ids ∨ 1 ∉ done) := by
  induction ids generalizing done previous with
  | nil => exact iff_of_true (by rwa [incrementDuplicates, List.append_nil]) ⟨trivial, Or.inl trivial⟩
  | cons id ids ih =>
    rw [List.pairwise_cons] at hsorted
    have hid : id ≤ 10000 := hlasts id List.mem_cons_self
    have hids : ∀ id' ∈ ids, id' ≤ 10000 := fun id' hid' => hlasts id' (List.mem_cons_of_mem id hid')
    have hprevious := hle previous hmem
    -- A value behind the done ones goes on with the pass.
    have hnext : ∀ {next : ℕ}, previous ≤ id → max (previous + 1) id = next → ¬(id = previous ∧ previous = 10000) →
        ((done ++ next :: incrementDuplicates next ids).Nodup ↔
          Ahead previous (id :: ids) ∧ (Below previous (id :: ids) ∨ 1 ∉ done)) := by
      intro next hge hmax hlast
      have hfresh : next ∉ done := by
        intro h
        have hdone' := hle next h
        omega
      have hdone' : (done ++ [next]).Nodup := by
        rw [List.nodup_append]
        refine ⟨hdone, List.nodup_singleton next, fun id' hid' next' hnext' heq => ?_⟩
        rw [heq, List.mem_singleton.mp hnext'] at hid'
        exact hfresh hid'
      have hle' : ∀ id' ∈ done ++ [next], 1 ≤ id' ∧ id' ≤ next := by
        intro id' hid'
        rcases List.mem_append.mp hid' with hid' | hid'
        · have hrange := hle id' hid'
          omega
        · rw [List.mem_singleton] at hid'
          omega
      have hstale' : ∀ id' ∈ ids, id' < next → id' ∈ done ++ [next] := by
        intro id' hid' hlt
        have hsorted' := hsorted.1 id' hid'
        have heq : id' = previous := by omega
        rw [heq]
        exact List.mem_append_left _ hmem
      have hone : 1 ∉ done ++ [next] ↔ 1 ∉ done := by
        rw [List.mem_append, List.mem_singleton, not_or]
        exact ⟨fun h => h.1, fun h => ⟨h, by omega⟩⟩
      have hrest := ih hsorted.2 hids hdone' (List.mem_append_right done (List.mem_singleton_self next)) hle' hstale'
      rw [List.append_assoc, List.singleton_append, hone] at hrest
      rw [hrest, Ahead, Below, hmax]
      constructor
      · exact fun h => ⟨⟨hge, h.1⟩, h.2.imp_left fun hbelow => ⟨hlast, hbelow⟩⟩
      · exact fun h => ⟨h.1.2, h.2.imp_left fun hbelow => hbelow.2⟩
    -- A value that is there already is one too many.
    have hagain : ∀ {value : ℕ} (rest : List ℕ), value ∈ done → ¬(done ++ value :: rest).Nodup := by
      intro value rest hvalue hnodup
      exact (List.nodup_append.mp hnodup).2.2 value hvalue value List.mem_cons_self rfl
    rcases Nat.lt_trichotomy id previous with hlt | heq | hgt
    · rw [incrementDuplicates, if_neg (Nat.ne_of_lt hlt)]
      apply iff_of_false (hagain _ (hstale id List.mem_cons_self hlt))
      intro h
      exact Nat.not_le_of_lt hlt h.1.1
    · by_cases hlast : previous = 10000
      · rw [incrementDuplicates, if_pos heq, heq, hlast]
        cases ids with
        | nil =>
          rw [incrementDuplicates, List.nodup_append]
          constructor
          · intro h
            exact ⟨⟨Nat.le_refl _, trivial⟩, Or.inr fun hone => h.2.2 1 hone 1 (List.mem_singleton_self 1) rfl⟩
          · intro h
            have hone : 1 ∉ done := h.2.resolve_left fun hbelow => hbelow.1 ⟨rfl, rfl⟩
            refine ⟨hdone, List.nodup_singleton _, fun id' hid' one hmem' heq' => ?_⟩
            rw [heq', List.mem_singleton.mp hmem'] at hid'
            exact hone hid'
        | cons id' ids =>
          have hid' : id' = 10000 := by
            have hge := hsorted.1 id' List.mem_cons_self
            have hle' := hids id' List.mem_cons_self
            omega
          subst hlast
          constructor
          · intro h
            rw [hid', incrementDuplicates, if_neg (by decide), ← List.singleton_append, ← List.append_assoc] at h
            exact absurd rfl ((List.nodup_append.mp h).2.2 10000 (List.mem_append_left _ hmem) 10000 List.mem_cons_self)
          · intro h
            have hahead : 10000 + 1 ≤ id' := h.1.2.1
            omega
      · subst heq
        rw [incrementDuplicates, if_pos rfl, Nat.mod_eq_of_lt (by omega)]
        exact hnext (Nat.le_refl id) (by omega) (by omega)
    · rw [incrementDuplicates, if_neg (Nat.ne_of_gt hgt)]
      exact hnext (by omega) (by omega) (by omega)

/-- The ids of an update are distinct if and only if the draws are not too crowded. -/
theorem nodup_uniqueIds_iff {draws : List ℕ} (hdraws : ∀ id ∈ draws, 1 ≤ id ∧ id ≤ 10000) :
    (uniqueIds draws).Nodup ↔ Uncrowded draws := by
  have hperm := List.perm_insertionSort (· ≤ ·) draws
  have hsorted := List.pairwise_insertionSort (· ≤ ·) draws
  have huncrowded : Uncrowded draws ↔ Spread (draws.insertionSort (· ≤ ·)) ∧
      (1 ∈ draws.insertionSort (· ≤ ·) → SpreadBelow (draws.insertionSort (· ≤ ·))) := by
    have hcount (a b : ℕ) : drawnIn a b draws = drawnIn a b (draws.insertionSort (· ≤ ·)) := (hperm.countP_eq _).symm
    unfold Spread SpreadBelow
    rw [hperm.mem_iff]
    simp only [← hcount]
    exact ⟨fun h => ⟨h.range, h.last⟩, fun h => ⟨h.1, h.2⟩⟩
  rw [huncrowded]
  unfold uniqueIds
  have hrange : ∀ id ∈ draws.insertionSort (· ≤ ·), 1 ≤ id ∧ id ≤ 10000 := fun id hid => hdraws id (hperm.mem_iff.mp hid)
  revert hsorted hrange
  generalize draws.insertionSort (· ≤ ·) = ids
  intro hsorted hrange
  cases ids with
  | nil => exact iff_of_true List.nodup_nil ⟨fun a b _ => Nat.zero_le _, fun h => (nomatch h)⟩
  | cons id ids =>
    rw [List.pairwise_cons] at hsorted
    have hid := hrange id List.mem_cons_self
    have hids : ∀ id' ∈ ids, id' ≤ 10000 := fun id' hid' => (hrange id' (List.mem_cons_of_mem id hid')).2
    have hpass := @nodup_incrementDuplicates ids hsorted.2 hids [id] id (List.nodup_singleton id)
      (List.mem_singleton_self id) (fun id' hid' => by rw [List.mem_singleton] at hid'; omega)
      (fun id' hid' hlt => absurd (hsorted.1 id' hid') (Nat.not_le_of_lt hlt))
    have hone : 1 ∈ id :: ids ↔ 1 ∈ [id] := by
      rw [List.mem_cons, List.mem_singleton]
      constructor
      · rintro (h | h)
        · exact h
        · have hle := hsorted.1 1 h
          omega
      · exact Or.inl
    rw [List.singleton_append] at hpass
    rw [hpass, hone, spread_cons hsorted.1, spreadBelow_cons hsorted.1 hid.2 hids, ← ahead_iff hsorted.2]
    constructor
    · intro h
      refine ⟨h.1, fun hmem => ?_⟩
      exact (below_iff hsorted.2 hids hid.2 h.1).mp (h.2.resolve_right fun hnot => hnot hmem)
    · intro h
      refine ⟨h.1, ?_⟩
      by_cases hmem : 1 ∈ [id]
      · exact Or.inl ((below_iff hsorted.2 hids hid.2 h.1).mpr (h.2 hmem))
      · exact Or.inr hmem

/-- Whatever is drawn, the pass leads to no id outside the table. -/
theorem uniqueIds_range {draws : List ℕ} (hdraws : ∀ id ∈ draws, 1 ≤ id ∧ id ≤ 10000) :
    ∀ id ∈ uniqueIds draws, 1 ≤ id ∧ id ≤ 10000 := by
  have hperm := List.perm_insertionSort (· ≤ ·) draws
  have hrange : ∀ id ∈ draws.insertionSort (· ≤ ·), 1 ≤ id ∧ id ≤ 10000 := fun id hid => hdraws id (hperm.mem_iff.mp hid)
  unfold uniqueIds
  revert hrange
  cases draws.insertionSort (· ≤ ·) with
  | nil => exact fun _ id h => (nomatch h)
  | cons id ids =>
    intro hrange id' hid'
    rcases List.mem_cons.mp hid' with rfl | hid'
    · exact hrange _ List.mem_cons_self
    · exact incrementDuplicates_range (fun id'' h => hrange id'' (List.mem_cons_of_mem id h)) id id' hid'

end FrameworkBenchmarks.AspNetCore
