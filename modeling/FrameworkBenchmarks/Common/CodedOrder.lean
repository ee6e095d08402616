import Mathlib.Data.List.Basic

/-!
# Order under a code

Words over an ordered alphabet are compared letter by letter, and so are their encodings by a code in
which no code word starts with another. The two orders differ exactly where two words differ first in
letters whose code words stand in the other order.
-/

namespace FrameworkBenchmarks.Common

variable {α β : Type*} [LT β] {code : α → List β}

/-- No code word starts with another one. -/
def PrefixFree (code : α → List β) : Prop := ∀ a b, code a <+: code b → a = b

/-- Lists that do not start with one another are compared without what follows them. -/
theorem append_lt_append {x y : List β} (hxy : ¬x <+: y) (hyx : ¬y <+: x) (s t : List β) :
    x ++ s < y ++ t ↔ x < y := by
  induction x generalizing y with
  | nil => exact absurd List.nil_prefix hxy
  | cons a x ih =>
    cases y with
    | nil => exact absurd List.nil_prefix hyx
    | cons b y =>
      rw [List.cons_append, List.cons_append, List.cons_lt_cons_iff, List.cons_lt_cons_iff]
      apply or_congr_right
      apply and_congr_right
      rintro rfl
      apply ih
      · exact fun h => hxy (List.cons_prefix_cons.mpr ⟨rfl, h⟩)
      · exact fun h => hyx (List.cons_prefix_cons.mpr ⟨rfl, h⟩)

theorem flatMap_cons_lt (hcode : PrefixFree code) {a b : α} (hne : a ≠ b) (s t : List α) :
    (a :: s).flatMap code < (b :: t).flatMap code ↔ code a < code b := by
  rw [List.flatMap_cons, List.flatMap_cons]
  exact append_lt_append (fun h => hne (hcode a b h)) (fun h => hne (hcode b a h).symm) _ _

variable [LT α] {s t : List α}

/-- The first letters in which two words differ stand in order, and their code words do not. -/
def Inversion (code : α → List β) (s t : List α) : Prop :=
  ∃ shared a b s' t', s = shared ++ a :: s' ∧ t = shared ++ b :: t' ∧ a < b ∧ code b < code a

theorem Inversion.lt (h : Inversion code s t) : s < t := by
  obtain ⟨shared, a, b, s', t', rfl, rfl, hlt, -⟩ := h
  exact List.append_left_lt (List.cons_lt_cons_iff.mpr (Or.inl hlt))

variable [Std.Irrefl (· < · : α → α → Prop)]

theorem Inversion.flatMap_lt (hcode : PrefixFree code) (h : Inversion code s t) :
    t.flatMap code < s.flatMap code := by
  obtain ⟨shared, a, b, s', t', rfl, rfl, hlt, hwords⟩ := h
  have hne : b ≠ a := by
    rintro rfl
    exact Std.Irrefl.irrefl b hlt
  rw [List.flatMap_append, List.flatMap_append]
  exact List.append_left_lt ((flatMap_cons_lt hcode hne t' s').mpr hwords)

/-- The encodings of two words in order are in order, or the words have an inversion. -/
theorem flatMap_lt_or_inversion [LE β] [Std.IsLinearOrder β] [Std.LawfulOrderLT β]
    (hcode : PrefixFree code) (hnil : ∀ a, code a ≠ []) (h : s < t) :
    s.flatMap code < t.flatMap code ∨ Inversion code s t := by
  induction s generalizing t with
  | nil =>
    cases t with
    | nil => exact absurd h (List.not_lt_nil _)
    | cons b t =>
      left
      obtain ⟨c, word, hword⟩ := List.exists_cons_of_ne_nil (hnil b)
      rw [List.flatMap_cons, hword]
      exact List.nil_lt_cons _ _
  | cons a s ih =>
    cases t with
    | nil => exact absurd h (List.not_lt_nil _)
    | cons b t =>
      obtain hlt | ⟨rfl, hrest⟩ := List.cons_lt_cons_iff.mp h
      · have hne : a ≠ b := by
          rintro rfl
          exact Std.Irrefl.irrefl a hlt
        by_cases hwords : code b < code a
        · exact Or.inr ⟨[], a, b, s, t, rfl, rfl, hlt, hwords⟩
        · obtain hwords | hwords := List.le_iff_lt_or_eq.mp (List.not_lt.mp hwords)
          · exact Or.inl ((flatMap_cons_lt hcode hne s t).mpr hwords)
          · exact absurd (hcode a b (hwords ▸ List.prefix_rfl)) hne
      · obtain hrest | ⟨shared, c, d, s', t', rfl, rfl, hlt, hwords⟩ := ih hrest
        · exact Or.inl (List.append_left_lt hrest)
        · exact Or.inr ⟨a :: shared, c, d, s', t', rfl, rfl, hlt, hwords⟩

end FrameworkBenchmarks.Common
