import Mathlib.Data.List.Chain
import Mathlib.Order.Basic

/-!
# Natural merge passes

A pass of a natural merge sort cuts a list into its maximal ascending runs and merges every two
neighbours. It permutes the list, keeps equivalent elements in order and at least halves the number
of places where the list descends.
-/

namespace FrameworkBenchmarks.Common

variable {α : Type} {le : α → α → Bool}

/-- The number of neighbours that are out of order. -/
def descents (le : α → α → Bool) : List α → ℕ
  | a :: b :: l => (if le a b then 0 else 1) + descents le (b :: l)
  | _ => 0

theorem descents_eq_zero {l : List α} :
    descents le l = 0 ↔ l.IsChain fun a b => le a b = true := by
  induction l with
  | nil => exact iff_of_true rfl List.isChain_nil
  | cons a l ih =>
    cases l with
    | nil => exact iff_of_true rfl (List.isChain_singleton a)
    | cons b l =>
      rw [descents, List.isChain_cons_cons, ← ih, Nat.add_eq_zero_iff]
      refine and_congr_left fun _ => ?_
      cases le a b <;> simp

theorem descents_le_length (l : List α) : descents le l ≤ l.length := by
  induction l with
  | nil => exact Nat.le_refl 0
  | cons a l ih =>
    cases l with
    | nil => exact Nat.zero_le _
    | cons b l =>
      rw [descents, List.length_cons]
      split <;> omega

theorem descents_append_le (le : α → α → Bool) (l l' : List α) :
    descents le (l ++ l') ≤ descents le l + 1 + descents le l' := by
  induction l with
  | nil => simp
  | cons a l ih =>
    cases l with
    | nil =>
      cases l' with
      | nil => simp [descents]
      | cons b l' =>
        simp only [List.singleton_append, descents]
        split <;> omega
    | cons b l =>
      simp only [List.cons_append, descents] at ih ⊢
      omega

theorem descents_append {l l' : List α} {a b : α} (ha : l.getLast? = some a) (hb : l'.head? = some b)
    (hab : le a b = false) : descents le (l ++ l') = descents le l + 1 + descents le l' := by
  induction l with
  | nil => cases ha
  | cons c l ih =>
    cases l with
    | nil =>
      obtain rfl : c = a := by simpa using ha
      cases l' with
      | nil => cases hb
      | cons d l' =>
        obtain rfl : d = b := by simpa using hb
        simp [descents, hab]
    | cons d l =>
      have hrest := ih (by simpa using ha)
      simp only [List.cons_append, descents] at hrest ⊢
      omega

/-- One pass over a list: an odd run at the end stays, and two neighbouring runs are merged. A run
ends where the list descends. -/
inductive MergePass (le : α → α → Bool) : List α → List α → Prop
  | nil : MergePass le [] []
  | single {run : List α} (hrun : run.IsChain fun a b => le a b = true) : MergePass le run run
  | pair {run₁ run₂ rest rest' : List α} {a b : α}
      (h₁ : run₁.IsChain fun a b => le a b = true) (h₂ : run₂.IsChain fun a b => le a b = true)
      (ha : run₁.getLast? = some a) (hb : run₂.head? = some b) (hab : le a b = false)
      (hrest : ∀ c ∈ run₂.getLast?, ∀ d ∈ rest.head?, le c d = false)
      (hpass : MergePass le rest rest') :
      MergePass le (run₁ ++ run₂ ++ rest) (List.merge run₁ run₂ le ++ rest')

/-- A decidable relation under which any two elements are comparable. -/
structure TotalPreorder (le : α → α → Bool) : Prop where
  trans : ∀ a b c, le a b = true → le b c = true → le a c = true
  total : ∀ a b, le a b = true ∨ le b a = true

theorem pairwise_of_isChain (hle : TotalPreorder le) {l : List α}
    (h : l.IsChain fun a b => le a b = true) : l.Pairwise fun a b => le a b = true := by
  have : IsTrans α fun a b => le a b = true := ⟨hle.trans⟩
  exact List.isChain_iff_pairwise.mp h

theorem isChain_merge (hle : TotalPreorder le) {l l' : List α}
    (h : l.IsChain fun a b => le a b = true) (h' : l'.IsChain fun a b => le a b = true) :
    (List.merge l l' le).IsChain fun a b => le a b = true := by
  have hpairwise : (List.merge l l' le).Pairwise fun a b => le a b = true :=
    List.pairwise_merge hle.trans (by simpa using hle.total) l l' (pairwise_of_isChain hle h)
      (pairwise_of_isChain hle h')
  exact hpairwise.isChain

theorem merge_ne_nil {l l' : List α} (h : l ≠ [] ∨ l' ≠ []) : List.merge l l' le ≠ [] := by
  rw [← List.length_pos_iff, List.length_merge]
  rcases h with h | h
  · exact Nat.add_pos_left (List.length_pos_iff.mpr h) _
  · exact Nat.add_pos_right _ (List.length_pos_iff.mpr h)

/-- A merge ends with the last element of one of the lists. -/
theorem getLast?_merge (le : α → α → Bool) (l l' : List α) : (List.merge l l' le).getLast? = l.getLast? ∨
    (List.merge l l' le).getLast? = l'.getLast? := by
  induction l, l' using List.merge.induct le with
  | case1 l' => exact Or.inr (by rw [List.nil_merge])
  | case2 l hne => exact Or.inl (by rw [List.merge_right])
  | case3 a l b l' hab ih =>
    rw [List.cons_merge_cons_pos le l l' hab, List.getLast?_cons_of_ne_nil (merge_ne_nil (by simp))]
    cases l with
    | nil => exact Or.inr (by rw [List.nil_merge])
    | cons c l => rwa [List.getLast?_cons_cons]
  | case4 a l b l' hab ih =>
    rw [List.cons_merge_cons_neg le l l' hab, List.getLast?_cons_of_ne_nil (merge_ne_nil (by simp))]
    cases l' with
    | nil => exact Or.inl (by rw [List.merge_right])
    | cons c l' => rwa [List.getLast?_cons_cons]

/-- A merge takes the elements equivalent to `c` from the first list first. -/
theorem filter_merge (hle : TotalPreorder le) (c : α) {l l' : List α}
    (h : l.Pairwise fun a b => le a b = true) :
    (List.merge l l' le).filter (fun a => le a c && le c a) =
      l.filter (fun a => le a c && le c a) ++ l'.filter (fun a => le a c && le c a) := by
  induction l, l' using List.merge.induct le with
  | case1 l' => simp
  | case2 l hne => simp
  | case3 a l b l' hab ih =>
    rw [List.cons_merge_cons_pos le l l' hab, List.filter_cons, ih (List.pairwise_cons.mp h).2,
      List.filter_cons (x := a)]
    split
    · rfl
    · rfl
  | case4 a l b l' hab ih =>
    rw [List.cons_merge_cons_neg le l l' hab, List.filter_cons, ih h, List.filter_cons (x := b)]
    split
    · rename_i hb
      -- An element of the first list equivalent to `b` would be at least `a`, and so would `b`.
      have hnone : (a :: l).filter (fun a => le a c && le c a) = [] := by
        refine List.filter_eq_nil_iff.mpr fun x hx hxc => hab ?_
        simp only [Bool.and_eq_true] at hb hxc
        have hxb := hle.trans x c b hxc.1 hb.2
        rcases List.mem_cons.mp hx with rfl | hx
        · exact hxb
        · exact hle.trans a x b ((List.pairwise_cons.mp h).1 x hx) hxb
      rw [hnone, List.nil_append, List.nil_append]
    · rfl

namespace MergePass

variable {l l' : List α}

theorem perm (h : MergePass le l l') : l'.Perm l := by
  induction h with
  | nil => exact List.Perm.refl _
  | single => exact List.Perm.refl _
  | @pair run₁ run₂ _ _ _ _ _ _ _ _ _ _ _ ih =>
    have hmerge : (List.merge run₁ run₂ le).Perm (run₁ ++ run₂) := List.merge_perm_append le
    exact hmerge.append ih

theorem filter_eq (h : MergePass le l l') (hle : TotalPreorder le) (c : α) :
    l'.filter (fun a => le a c && le c a) = l.filter (fun a => le a c && le c a) := by
  induction h with
  | nil => rfl
  | single => rfl
  | pair h₁ _ _ _ _ _ _ ih =>
    rw [List.filter_append, filter_merge hle c (pairwise_of_isChain hle h₁), ih,
      List.filter_append, List.filter_append]

/-- A pass at least halves the number of descents. -/
theorem descents_le (h : MergePass le l l') (hle : TotalPreorder le) :
    descents le l' ≤ descents le l / 2 := by
  induction h with
  | nil => simp [descents]
  | single hrun => simp [descents_eq_zero.mpr hrun]
  | @pair run₁ run₂ rest rest' a b h₁ h₂ ha hb hab hrest hpass ih =>
    have hmerge : descents le (List.merge run₁ run₂ le) = 0 :=
      descents_eq_zero.mpr (isChain_merge hle h₁ h₂)
    cases hlast : run₂.getLast? with
    | none =>
      rw [List.getLast?_eq_none_iff] at hlast
      rw [hlast] at hb
      cases hb
    | some c =>
      cases rest with
      | nil =>
        have hnil : rest' = [] := by simpa using hpass.perm
        rw [hnil, List.append_nil, hmerge]
        exact Nat.zero_le _
      | cons d rest =>
        have hcd : le c d = false := hrest c hlast d rfl
        have hlast' : (run₁ ++ run₂).getLast? = some c := by
          rw [List.getLast?_append, hlast]
          rfl
        have hl := descents_append hlast' (by rfl : (d :: rest).head? = some d) hcd
        rw [descents_append ha hb hab] at hl
        have hl' := descents_append_le le (List.merge run₁ run₂ le) rest'
        omega

end MergePass

end FrameworkBenchmarks.Common
