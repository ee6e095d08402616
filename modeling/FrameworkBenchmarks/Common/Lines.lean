import FrameworkBenchmarks.Common.Bytes
import FrameworkBenchmarks.Common.Framing

/-!
# Lines

A line of a byte stream ends at the first carriage return that a line feed follows.
-/

namespace FrameworkBenchmarks.Common

abbrev CR : UInt8 := 13

abbrev LF : UInt8 := 10

abbrev lineEnd : List UInt8 := [CR, LF]

/-- The first line of a stream, once its line end is there. -/
def splitLine : List UInt8 → Option (List UInt8 × List UInt8)
  | [] => none
  | c :: s =>
    if c = CR ∧ s.head? = some LF then some ([], s.tail)
    else (splitLine s).map fun split => (c :: split.1, split.2)

theorem splitLine_eq_append {s line rest : List UInt8} (h : splitLine s = some (line, rest)) :
    s = line ++ lineEnd ++ rest := by
  induction s generalizing line with
  | nil => cases h
  | cons c s ih =>
    rw [splitLine] at h
    split at h
    · rename_i hend
      obtain ⟨rfl, hlf⟩ := hend
      obtain ⟨rfl, rfl⟩ := Prod.mk.inj (Option.some.inj h)
      cases s with
      | nil => cases hlf
      | cons d s =>
        obtain rfl : d = LF := by simpa using hlf
        rfl
    · obtain ⟨split, hsplit, heq⟩ := Option.map_eq_some_iff.mp h
      obtain ⟨rfl, rfl⟩ := Prod.mk.inj heq
      rw [ih hsplit]
      simp

theorem splitLine_stable {s line rest : List UInt8} (h : splitLine s = some (line, rest))
    (t : List UInt8) : splitLine (s ++ t) = some (line, rest ++ t) := by
  induction s generalizing line with
  | nil => cases h
  | cons c s ih =>
    rw [List.cons_append, splitLine]
    rw [splitLine] at h
    cases s with
    | nil => simp [splitLine] at h
    | cons d s =>
      by_cases hend : c = CR ∧ (d :: s).head? = some LF
      · rw [if_pos hend] at h
        obtain ⟨rfl, rfl⟩ := Prod.mk.inj (Option.some.inj h)
        exact if_pos hend
      · rw [if_neg hend] at h
        obtain ⟨split, hsplit, heq⟩ := Option.map_eq_some_iff.mp h
        obtain ⟨rfl, rfl⟩ := Prod.mk.inj heq
        rw [if_neg (show ¬(c = CR ∧ (d :: s ++ t).head? = some LF) from hend), ih hsplit]
        rfl

/-- The lines of a stream. -/
def lines : Framer UInt8 (List UInt8) where
  next := splitLine
  text line := line ++ lineEnd
  eq_append := splitLine_eq_append
  text_ne_nil _ := by simp
  stable := splitLine_stable

theorem splitLine_append {a : List UInt8} (h : CR ∉ a) (s : List UInt8) :
    splitLine (a ++ s) = (splitLine s).map fun split => (a ++ split.1, split.2) := by
  induction a with
  | nil => simp
  | cons c a ih =>
    rw [List.mem_cons, not_or] at h
    rw [List.cons_append, splitLine, if_neg fun hc => h.1 hc.1.symm, ih h.2, Option.map_map]
    rfl

theorem splitLine_eq_none {s : List UInt8} (h : CR ∉ s) : splitLine s = none := by
  have := splitLine_append h []
  rwa [List.append_nil] at this

/-- A line without line end is read back, whatever follows. -/
theorem splitLine_line {line : List UInt8} (h : ¬lineEnd <:+: line) (t : List UInt8) :
    splitLine (line ++ (lineEnd ++ t)) = some (line, t) := by
  induction line with
  | nil => rfl
  | cons c line ih =>
    have hline : ¬lineEnd <:+: line := fun hends => h (List.infix_cons hends)
    have hhere : ¬(c = CR ∧ (line ++ (lineEnd ++ t)).head? = some LF) := by
      rintro ⟨rfl, hhead⟩
      cases line with
      | nil => exact absurd (Option.some.inj hhead) (by decide)
      | cons d line =>
        obtain rfl : d = LF := by simpa using hhead
        exact h ⟨[], line, rfl⟩
    rw [List.cons_append, splitLine, if_neg hhere, ih hline]
    rfl

/-- Where a line end is first found. -/
theorem splitLine_eq_find (s : List UInt8) :
    splitLine s = (find s lineEnd).map fun i => (s.take i, s.drop (i + 2)) := by
  induction s with
  | nil => rfl
  | cons c s ih =>
    have hbegin : lineEnd.isPrefixOf (c :: s) = decide (c = CR ∧ s.head? = some LF) := by
      cases s with
      | nil => simp [List.isPrefixOf]
      | cons d s =>
        simp only [List.isPrefixOf, List.head?_cons, Option.some.injEq, Bool.and_true,
          Bool.decide_and, eq_comm (a := c), eq_comm (a := d)]
        rfl
    rw [splitLine, find, List.tails, List.findIdx?_cons, hbegin]
    by_cases hend : c = CR ∧ s.head? = some LF
    · rw [if_pos hend, decide_eq_true hend]
      cases s with
      | nil => simp at hend
      | cons d s => rfl
    · rw [if_neg hend, decide_eq_false hend, ih, find]
      cases s.tails.findIdx? fun rest => lineEnd.isPrefixOf rest with
      | none => rfl
      | some i => rfl

end FrameworkBenchmarks.Common
