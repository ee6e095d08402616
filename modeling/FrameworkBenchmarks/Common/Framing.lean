import Mathlib.Data.List.Basic

/-!
# Framing of a stream

A framer cuts the first message off a stream once the message is complete, whatever follows it. The
messages of a stream, and what is left over, then do not depend on the pieces in which it arrives.
-/

namespace FrameworkBenchmarks.Common

/-- Cuts the first complete message off a stream. -/
structure Framer (β μ : Type*) where
  next : List β → Option (μ × List β)
  /-- the elements of a message -/
  text : μ → List β
  eq_append : ∀ {s m rest}, next s = some (m, rest) → s = text m ++ rest
  text_ne_nil : ∀ {s m rest}, next s = some (m, rest) → text m ≠ []
  stable : ∀ {s m rest}, next s = some (m, rest) → ∀ t, next (s ++ t) = some (m, rest ++ t)

namespace Framer

variable {β μ : Type*} (F : Framer β μ)

theorem length_lt {s : List β} {m : μ} {rest : List β} (h : F.next s = some (m, rest)) :
    rest.length < s.length := by
  have hpos := List.length_pos_of_ne_nil (F.text_ne_nil h)
  rw [F.eq_append h, List.length_append]
  omega

/-- The complete messages of a stream, and what is left over. -/
def frames (s : List β) : List μ × List β :=
  match h : F.next s with
  | none => ([], s)
  | some (m, rest) =>
    have := F.length_lt h
    (m :: (frames rest).1, (frames rest).2)
termination_by s.length

variable {F} {s t : List β} {m : μ} {rest : List β}

theorem frames_of_none (h : F.next s = none) : F.frames s = ([], s) := by
  rw [frames]
  split
  · rfl
  · rename_i hsome
    rw [h] at hsome
    cases hsome

theorem frames_of_some (h : F.next s = some (m, rest)) :
    F.frames s = (m :: (F.frames rest).1, (F.frames rest).2) := by
  rw [frames]
  split
  · rename_i hnone
    rw [h] at hnone
    cases hnone
  · rename_i hsome
    rw [h, Option.some.injEq, Prod.mk.injEq] at hsome
    obtain ⟨rfl, rfl⟩ := hsome
    rfl

/-- Induction on the messages of a stream. -/
theorem frames_induction {P : List β → Prop} (none : ∀ s, F.next s = none → P s)
    (some : ∀ s m rest, F.next s = some (m, rest) → P rest → P s) (s : List β) : P s := by
  induction hlength : s.length using Nat.strongRecOn generalizing s with
  | _ n ih =>
    subst hlength
    cases h : F.next s with
    | none => exact none s h
    | some result =>
      obtain ⟨m, rest⟩ := result
      exact some s m rest h (ih rest.length (F.length_lt h) rest rfl)

/-- A stream is its messages and what is left over. -/
theorem flatMap_frames (F : Framer β μ) (s : List β) :
    (F.frames s).1.flatMap F.text ++ (F.frames s).2 = s := by
  induction s using frames_induction (F := F) with
  | none s h => rw [frames_of_none h, List.flatMap_nil, List.nil_append]
  | some s m rest h ih =>
    rw [frames_of_some h, List.flatMap_cons, List.append_assoc, ih, ← F.eq_append h]

theorem next_leftover (F : Framer β μ) (s : List β) : F.next (F.frames s).2 = none := by
  induction s using frames_induction (F := F) with
  | none s h => rwa [frames_of_none h]
  | some s m rest h ih => rwa [frames_of_some h]

/-- The messages of a stream are those of its beginning, and then those of what was left over with the
rest. -/
theorem frames_append (F : Framer β μ) (s t : List β) :
    F.frames (s ++ t) = ((F.frames s).1 ++ (F.frames ((F.frames s).2 ++ t)).1,
      (F.frames ((F.frames s).2 ++ t)).2) := by
  induction s using frames_induction (F := F) with
  | none s h => rw [frames_of_none h, List.nil_append]
  | some s m rest h ih =>
    rw [frames_of_some (F.stable h t), frames_of_some h, ih, List.cons_append]

/-- The messages of the beginning of a stream come first. -/
theorem frames_isPrefix (F : Framer β μ) (h : s <+: t) : (F.frames s).1 <+: (F.frames t).1 := by
  obtain ⟨rest, rfl⟩ := h
  rw [frames_append]
  exact List.prefix_append _ _

/-- Messages that are read back, whatever follows them. -/
theorem frames_flatMap {ms : List μ} (h : ∀ m ∈ ms, ∀ t, F.next (F.text m ++ t) = some (m, t))
    (t : List β) : F.frames (ms.flatMap F.text ++ t) = (ms ++ (F.frames t).1, (F.frames t).2) := by
  induction ms with
  | nil => rfl
  | cons m ms ih =>
    obtain ⟨hfirst, hrest⟩ := List.forall_mem_cons.mp h
    rw [List.flatMap_cons, List.append_assoc, frames_of_some (hfirst _), ih hrest]
    rfl

end Framer

end FrameworkBenchmarks.Common
