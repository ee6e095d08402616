import Mathlib.Data.List.Perm.Basic
import Mathlib.Data.List.Nodup

/-!
# Pairs with different keys

Lists of pairs whose keys are all different: which of them share a property of their keys, and when
two such lists are the same up to order.
-/

namespace FrameworkBenchmarks.Common

section Parts

variable {α : Type}

/-- Two lists are the same up to order when the parts a test splits them into are. -/
theorem perm_iff_filter (p : α → Bool) (l l' : List α) :
    l.Perm l' ↔ (l.filter p).Perm (l'.filter p) ∧
      (l.filter (!p ·)).Perm (l'.filter (!p ·)) := by
  constructor
  · intro h
    exact ⟨h.filter p, h.filter (!p ·)⟩
  · intro h
    exact (List.filter_append_perm p l).symm.trans
      ((h.1.append h.2).trans (List.filter_append_perm p l'))

/-- A list with one element for each of two tests, and others that pass neither. -/
theorem perm_cons_cons_iff {p q : α → Bool} (hpq : ∀ x, q x → p x = false) {a b : α} (ha : p a)
    (hb : q b) {rest : List α} (hrest : ∀ x ∈ rest, p x = false ∧ q x = false) (l : List α) :
    l.Perm (a :: b :: rest) ↔ (l.filter p).Perm [a] ∧ (l.filter q).Perm [b] ∧
      (l.filter fun x => !p x && !q x).Perm rest := by
  have hp : rest.filter p = [] :=
    List.filter_eq_nil_iff.mpr fun x hx => by simp [(hrest x hx).1]
  have hq : rest.filter q = [] :=
    List.filter_eq_nil_iff.mpr fun x hx => by simp [(hrest x hx).2]
  have hp' : rest.filter (!p ·) = rest :=
    List.filter_eq_self.mpr fun x hx => by simp [(hrest x hx).1]
  have hq' : rest.filter (!q ·) = rest :=
    List.filter_eq_self.mpr fun x hx => by simp [(hrest x hx).2]
  have hmiddle : (l.filter (!p ·)).filter q = l.filter q := by
    rw [List.filter_filter]
    apply List.filter_congr
    intro x _
    cases hx : q x with
    | false => rfl
    | true => simp [hpq x hx]
  have hlast : (l.filter (!p ·)).filter (!q ·) = l.filter fun x => !p x && !q x := by
    rw [List.filter_filter]
    apply List.filter_congr
    intro x _
    exact Bool.and_comm _ _
  rw [perm_iff_filter p l, perm_iff_filter q (l.filter (!p ·)), hmiddle, hlast]
  simp [ha, hb, hpq b hb, hp, hq, hp', hq']

end Parts

variable {κ ν β : Type}

/-- A pair is the only one with a property of its key when every key with the property is its
key. -/
theorem filter_key_eq_singleton_iff {l : List (κ × ν)} (hnodup : (l.map Prod.fst).Nodup)
    (p : κ → Bool) (h : κ × ν) :
    l.filter (p ·.1) = [h] ↔ h ∈ l ∧ p h.1 ∧ ∀ h' ∈ l, p h'.1 → h'.1 = h.1 := by
  constructor
  · intro hl
    have hmem : h ∈ l.filter (p ·.1) := by rw [hl]; exact List.mem_singleton_self h
    obtain ⟨hin, hp⟩ := List.mem_filter.mp hmem
    refine ⟨hin, hp, ?_⟩
    intro h' hin' hp'
    have hmem' : h' ∈ l.filter (p ·.1) := List.mem_filter.mpr ⟨hin', hp'⟩
    rw [hl, List.mem_singleton] at hmem'
    rw [hmem']
  · rintro ⟨hin, hp, honly⟩
    have hkeys : ((l.filter (p ·.1)).map Prod.fst).Nodup := hnodup.sublist (l.filter_sublist.map _)
    have hall : ∀ h' ∈ l.filter (p ·.1), h' = h := by
      intro h' hmem'
      obtain ⟨hin', hp'⟩ := List.mem_filter.mp hmem'
      exact List.inj_on_of_nodup_map hnodup hin' hin (honly h' hin' hp')
    have hmem : h ∈ l.filter (p ·.1) := List.mem_filter.mpr ⟨hin, hp⟩
    rw [List.eq_replicate_of_mem hall] at hkeys hmem ⊢
    cases hn : (l.filter (p ·.1)).length with
    | zero => simp [hn] at hmem
    | succ n =>
      cases n with
      | zero => rfl
      | succ n => simp [hn, List.replicate_succ] at hkeys

section Lookup

variable [DecidableEq κ]

/-- What a map over the pairs sees of a pair is its key and what is looked up under it. -/
theorem map_eq_map_keys {l : List (κ × ν)} (hlookup : ∀ h ∈ l, l.lookup h.1 = some h.2)
    (g : κ → Option ν → β) :
    l.map (fun h => g h.1 (some h.2)) = (l.map Prod.fst).map fun k => g k (l.lookup k) := by
  rw [List.map_map]
  apply List.map_congr_left
  intro h hmem
  rw [Function.comp_apply, hlookup h hmem]

end Lookup

/-- A list of keys that holds all keys of another and is not longer is that list up to order. -/
theorem perm_of_subset_of_length_le {l l' : List κ} (hnodup : l.Nodup) (hsub : l ⊆ l')
    (hlen : l'.length ≤ l.length) : l.Perm l' :=
  (List.subperm_of_subset hnodup hsub).perm_of_length_le hlen

end FrameworkBenchmarks.Common
