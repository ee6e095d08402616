import Mathlib.Data.List.TakeWhile
import Mathlib.Tactic.Conv

/-!
# Delimited lists

A list is cut at a separator into segments, and trimmed of a value at both ends. Trimming a list of its
separator trims the list of its segments of the empty ones.
-/

namespace FrameworkBenchmarks.Common

variable {α β : Type*}

/-! ### Joined segments -/

/-- Segments joined by a separator. -/
def joined (c : α) (segs : List (List α)) : List α := [c].intercalate segs

theorem joined_cons {c : α} {seg : List α} {segs : List (List α)} (h : segs ≠ []) :
    joined c (seg :: segs) = seg ++ c :: joined c segs := by
  rw [joined, List.intercalate_cons_of_ne_nil h, List.append_assoc]
  rfl

theorem joined_singleton (c : α) (seg : List α) : joined c [seg] = seg := by simp [joined]

theorem joined_append {c : α} {segs segs' : List (List α)} (h : segs ≠ []) (h' : segs' ≠ []) :
    joined c (segs ++ segs') = joined c segs ++ c :: joined c segs' := by
  induction segs with
  | nil => exact absurd rfl h
  | cons seg segs ih =>
    by_cases hsegs : segs = []
    · subst hsegs
      rw [List.singleton_append, joined_cons h', joined_singleton]
    · rw [List.cons_append, joined_cons (by simp [h']), joined_cons hsegs, ih hsegs, List.append_assoc,
        List.cons_append]

theorem reverse_joined (c : α) (segs : List (List α)) :
    (joined c segs).reverse = joined c (segs.map List.reverse).reverse := by
  induction segs with
  | nil => rfl
  | cons seg segs ih =>
    by_cases hsegs : segs = []
    · subst hsegs
      simp [joined_singleton]
    · rw [joined_cons hsegs, List.reverse_append, List.reverse_cons, ih, List.map_cons,
        List.reverse_cons, joined_append (by simp [hsegs]) (by simp), joined_singleton,
        List.append_assoc]
      rfl

/-! ### Trimming -/

variable [DecidableEq α] [DecidableEq β]

/-- Drop a value at both ends. -/
def trim (a : α) (l : List α) : List α := ((l.dropWhile (· = a)).reverse.dropWhile (· = a)).reverse

theorem exists_dropWhile (a : α) (l : List α) :
    ∃ n, l = List.replicate n a ++ l.dropWhile (· = a) := by
  induction l with
  | nil => exact ⟨0, rfl⟩
  | cons b l ih =>
    by_cases h : b = a
    · obtain ⟨n, hn⟩ := ih
      exact ⟨n + 1, by simpa [h, List.replicate_succ] using hn⟩
    · exact ⟨0, by simp [h]⟩

/-- A list is its trimmed part between copies of the value. -/
theorem exists_trim (a : α) (l : List α) :
    ∃ m n, l = List.replicate m a ++ trim a l ++ List.replicate n a := by
  obtain ⟨m, hm⟩ := exists_dropWhile a l
  obtain ⟨n, hn⟩ := exists_dropWhile a (l.dropWhile (· = a)).reverse
  refine ⟨m, n, ?_⟩
  have hback := congrArg List.reverse hn
  rw [List.reverse_reverse, List.reverse_append, List.reverse_replicate] at hback
  rw [List.append_assoc, trim, ← hback, ← hm]

theorem dropWhile_replicate_append (a : α) (n : ℕ) (l : List α) :
    (List.replicate n a ++ l).dropWhile (· = a) = l.dropWhile (· = a) := by
  apply List.dropWhile_append_of_pos
  intro b hb
  exact decide_eq_true (List.eq_of_mem_replicate hb)

/-- Dropping at the front leaves nothing, or keeps everything at the back. -/
theorem dropWhile_append_replicate (a : α) (l : List α) (n : ℕ) :
    (l ++ List.replicate n a).dropWhile (· = a) = [] ∧ l.dropWhile (· = a) = [] ∨
      (l ++ List.replicate n a).dropWhile (· = a) = l.dropWhile (· = a) ++ List.replicate n a := by
  induction l with
  | nil => simp
  | cons b l ih =>
    by_cases h : b = a
    · simpa [h] using ih
    · right
      simp [h]

theorem trim_append_replicate (a : α) (m n : ℕ) (l : List α) :
    trim a (List.replicate m a ++ l ++ List.replicate n a) = trim a l := by
  unfold trim
  rw [List.append_assoc, dropWhile_replicate_append]
  obtain ⟨hall, hl⟩ | hback := dropWhile_append_replicate a l n
  · rw [hall, hl]
  · rw [hback, List.reverse_append, List.reverse_replicate, dropWhile_replicate_append]

theorem trim_trim (a : α) (l : List α) : trim a (trim a l) = trim a l := by
  obtain ⟨m, n, h⟩ := exists_trim a l
  conv_rhs => rw [h, trim_append_replicate]

theorem mem_of_mem_trim {a b : α} {l : List α} (h : b ∈ trim a l) : b ∈ l := by
  obtain ⟨m, n, hl⟩ := exists_trim a l
  rw [hl]
  exact List.mem_append_left _ (List.mem_append_right _ h)

/-- A map that keeps the value can be applied before or after trimming, up to trimming again. -/
theorem trim_map_trim {a : α} {b : β} {f : α → β} (hf : f a = b) (l : List α) :
    trim b (l.map f) = trim b ((trim a l).map f) := by
  obtain ⟨m, n, h⟩ := exists_trim a l
  conv_lhs => rw [h]
  rw [List.map_append, List.map_append, List.map_replicate, List.map_replicate, hf,
    trim_append_replicate]

theorem dropWhile_map_of_iff {a : α} {b : β} {f : α → β} {l : List α}
    (hf : ∀ x ∈ l, f x = b ↔ x = a) :
    (l.map f).dropWhile (· = b) = (l.dropWhile (· = a)).map f := by
  induction l with
  | nil => rfl
  | cons x l ih =>
    have hx := hf x List.mem_cons_self
    have ih := ih fun y hy => hf y (List.mem_cons_of_mem _ hy)
    by_cases h : x = a
    · rw [List.map_cons, List.dropWhile_cons_of_pos (by simp [hx.mpr h]),
        List.dropWhile_cons_of_pos (by simp [h]), ih]
    · simp [h, hx]

/-- A map under which only the value itself becomes the other value commutes with trimming. -/
theorem trim_map {a : α} {b : β} {f : α → β} {l : List α} (hf : ∀ x ∈ l, f x = b ↔ x = a) :
    trim b (l.map f) = (trim a l).map f := by
  unfold trim
  rw [dropWhile_map_of_iff hf, ← List.map_reverse, dropWhile_map_of_iff, List.map_reverse]
  intro x hx
  exact hf x ((List.dropWhile_suffix _).mem (List.mem_reverse.mp hx))

/-! ### Trimming joined segments -/

theorem dropWhile_joined {c : α} {segs : List (List α)} (h : ∀ seg ∈ segs, c ∉ seg) :
    (joined c segs).dropWhile (· = c) = joined c (segs.dropWhile (· = [])) := by
  induction segs with
  | nil => rfl
  | cons seg segs ih =>
    have ih := ih fun s hs => h s (List.mem_cons_of_mem _ hs)
    cases seg with
    | nil =>
      by_cases hsegs : segs = []
      · subst hsegs
        simp [joined]
      · rw [joined_cons hsegs]
        simpa using ih
    | cons b seg =>
      have hb : b ≠ c := fun heq => h _ List.mem_cons_self (heq ▸ List.mem_cons_self)
      have hstart : ∃ rest, joined c ((b :: seg) :: segs) = b :: rest := by
        by_cases hsegs : segs = []
        · subst hsegs
          exact ⟨seg, joined_singleton c _⟩
        · exact ⟨_, joined_cons hsegs⟩
      obtain ⟨rest, hrest⟩ := hstart
      rw [List.dropWhile_cons_of_neg (by simp), hrest, List.dropWhile_cons_of_neg (by simpa using hb)]

/-- Trimming the separator trims the empty segments. -/
theorem trim_joined {c : α} {segs : List (List α)} (h : ∀ seg ∈ segs, c ∉ seg) :
    trim c (joined c segs) = joined c (trim [] segs) := by
  have hreverse (l : List (List α)) : (l.map List.reverse).dropWhile (· = []) =
      (l.dropWhile (· = [])).map List.reverse :=
    dropWhile_map_of_iff fun x _ => List.reverse_eq_nil_iff
  have hmem : ∀ seg ∈ ((segs.dropWhile (· = [])).map List.reverse).reverse, c ∉ seg := by
    intro seg hseg hc
    obtain ⟨s, hs, rfl⟩ := List.mem_map.mp (List.mem_reverse.mp hseg)
    exact h s ((List.dropWhile_suffix _).mem hs) (List.mem_reverse.mp hc)
  unfold trim
  rw [dropWhile_joined h, reverse_joined, dropWhile_joined hmem, ← List.map_reverse, hreverse,
    reverse_joined]
  congr 1
  simp [Function.comp_def]

/-! ### Cutting at the separator -/

theorem joined_splitOn (c : α) (s : List α) : joined c (s.splitOn c) = s := List.intercalate_splitOn c

theorem splitOn_joined {c : α} {segs : List (List α)} (h : ∀ seg ∈ segs, c ∉ seg) (hne : segs ≠ []) :
    (joined c segs).splitOn c = segs := List.splitOn_intercalate c h hne

theorem not_mem_splitOn {c : α} {s seg : List α} (h : seg ∈ s.splitOn c) : c ∉ seg := by
  induction s generalizing seg with
  | nil =>
    rw [List.splitOn_nil, List.mem_singleton] at h
    simp [h]
  | cons b s ih =>
    rw [List.splitOn_cons_eq_if_modifyHead] at h
    split at h
    · obtain rfl | h := List.mem_cons.mp h
      · exact List.not_mem_nil
      · exact ih h
    · rename_i hb
      cases hs : s.splitOn c with
      | nil => exact absurd hs (List.splitOn_ne_nil c s)
      | cons first rest =>
        rw [hs, List.modifyHead_cons] at h
        obtain rfl | h := List.mem_cons.mp h
        · have hfirst := ih (hs ▸ List.mem_cons_self)
          intro hmem
          obtain rfl | hmem := List.mem_cons.mp hmem
          · simp at hb
          · exact hfirst hmem
        · exact ih (hs ▸ List.mem_cons_of_mem _ h)

/-- The segments of a trimmed list: the trimmed segments, or one empty one. -/
theorem splitOn_trim (c : α) (s : List α) : (trim c s).splitOn c =
    if trim [] (s.splitOn c) = [] then [[]] else trim [] (s.splitOn c) := by
  have hmem : ∀ seg ∈ s.splitOn c, c ∉ seg := fun seg => not_mem_splitOn
  conv_lhs => rw [← joined_splitOn c s, trim_joined hmem]
  split
  · rename_i h
    rw [h]
    exact List.splitOn_nil c
  · rename_i h
    exact splitOn_joined (fun seg hseg => hmem seg (mem_of_mem_trim hseg)) h

end FrameworkBenchmarks.Common
