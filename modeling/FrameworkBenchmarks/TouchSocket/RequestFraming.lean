import FrameworkBenchmarks.TouchSocket.ReceiveLoop

/-!
# Head blocks

A request is a head block: a first line, and header lines up to the first empty one. The loops of the
server cut exactly the complete head blocks off a buffer.
-/

namespace FrameworkBenchmarks.TouchSocket

open Common

/-! ### Head blocks -/

/-- The text of the lines up to and including the first empty one. -/
def splitHeaders (s : List UInt8) : Option (List UInt8 × List UInt8) :=
  match h : splitLine s with
  | none => none
  | some (line, rest) =>
    have : rest.length < s.length := lines.length_lt h
    if line = [] then some (lineEnd, rest)
    else (splitHeaders rest).map fun split => (line ++ lineEnd ++ split.1, split.2)
termination_by s.length

theorem splitHeaders_of_none {s : List UInt8} (h : splitLine s = none) : splitHeaders s = none := by
  rw [splitHeaders]
  split
  · rfl
  · rename_i hsome
    rw [h] at hsome
    cases hsome

theorem splitHeaders_of_some {s line rest : List UInt8} (h : splitLine s = some (line, rest)) :
    splitHeaders s = if line = [] then some (lineEnd, rest)
      else (splitHeaders rest).map fun split => (line ++ lineEnd ++ split.1, split.2) := by
  rw [splitHeaders]
  split
  · rename_i hnone
    rw [h] at hnone
    cases hnone
  · rename_i hsome
    rw [h, Option.some.injEq, Prod.mk.injEq] at hsome
    obtain ⟨rfl, rfl⟩ := hsome
    rfl

theorem splitHeaders_eq_append {s text rest : List UInt8} (h : splitHeaders s = some (text, rest)) :
    s = text ++ rest ∧ text ≠ [] := by
  induction s using Framer.frames_induction (F := lines) generalizing text with
  | none s hnone =>
    rw [splitHeaders_of_none hnone] at h
    cases h
  | some s line rest' hline ih =>
    rw [splitHeaders_of_some hline] at h
    have hs := splitLine_eq_append hline
    split at h
    · rename_i hempty
      obtain ⟨rfl, rfl⟩ := Prod.mk.inj (Option.some.inj h)
      exact ⟨by simpa [hempty] using hs, by simp⟩
    · obtain ⟨split, hsplit, heq⟩ := Option.map_eq_some_iff.mp h
      obtain ⟨rfl, rfl⟩ := Prod.mk.inj heq
      exact ⟨by rw [hs, (ih hsplit).1]; simp, by simp⟩

theorem splitHeaders_stable {s text rest : List UInt8} (h : splitHeaders s = some (text, rest))
    (t : List UInt8) : splitHeaders (s ++ t) = some (text, rest ++ t) := by
  induction s using Framer.frames_induction (F := lines) generalizing text with
  | none s hnone =>
    rw [splitHeaders_of_none hnone] at h
    cases h
  | some s line rest' hline ih =>
    rw [splitHeaders_of_some hline] at h
    rw [splitHeaders_of_some (splitLine_stable hline t)]
    split at h
    · rename_i hempty
      obtain ⟨rfl, rfl⟩ := Prod.mk.inj (Option.some.inj h)
      rw [if_pos hempty]
    · rename_i hempty
      obtain ⟨split, hsplit, heq⟩ := Option.map_eq_some_iff.mp h
      obtain ⟨rfl, rfl⟩ := Prod.mk.inj heq
      rw [if_neg hempty, ih hsplit]
      rfl

/-- A head block: its first line, and the text of its other lines. -/
structure HeadBlock where
  firstLine : List UInt8
  headers : List UInt8

def HeadBlock.text (block : HeadBlock) : List UInt8 := block.firstLine ++ lineEnd ++ block.headers

/-- The head blocks of a stream. -/
def headBlocks : Framer UInt8 HeadBlock where
  next s := (splitLine s).bind fun first =>
    (splitHeaders first.2).map fun split => (⟨first.1, split.1⟩, split.2)
  text := HeadBlock.text
  eq_append h := by
    obtain ⟨first, hfirst, h⟩ := Option.bind_eq_some_iff.mp h
    obtain ⟨split, hsplit, heq⟩ := Option.map_eq_some_iff.mp h
    obtain ⟨rfl, rfl⟩ := Prod.mk.inj heq
    rw [splitLine_eq_append hfirst, (splitHeaders_eq_append hsplit).1]
    simp [HeadBlock.text]
  text_ne_nil _ := by simp [HeadBlock.text]
  stable h t := by
    obtain ⟨first, hfirst, h⟩ := Option.bind_eq_some_iff.mp h
    obtain ⟨split, hsplit, heq⟩ := Option.map_eq_some_iff.mp h
    obtain ⟨rfl, rfl⟩ := Prod.mk.inj heq
    rw [splitLine_stable hfirst t, Option.bind_some, splitHeaders_stable hsplit t]
    rfl

theorem headBlocks_next {s rest : List UInt8} {block : HeadBlock}
    (h : headBlocks.next s = some (block, rest)) :
    ∃ rest', splitLine s = some (block.firstLine, rest') ∧
      splitHeaders rest' = some (block.headers, rest) := by
  obtain ⟨first, hfirst, h⟩ := Option.bind_eq_some_iff.mp h
  obtain ⟨split, hsplit, heq⟩ := Option.map_eq_some_iff.mp h
  obtain ⟨rfl, rfl⟩ := Prod.mk.inj heq
  exact ⟨first.2, hfirst, hsplit⟩

theorem headBlocks_next_eq_none {s line rest : List UInt8} (h : headBlocks.next s = none)
    (hline : splitLine s = some (line, rest)) : splitHeaders rest = none := by
  have hbind : (splitLine s).bind _ = none := h
  rwa [hline, Option.bind_some, Option.map_eq_none_iff] at hbind

/-! ### Reading lines -/

namespace SequenceReader

variable (reader : SequenceReader)

@[simp] theorem buffer_advance (count : ℕ) : (reader.advance count).buffer = reader.buffer := rfl

theorem unread_advance (count : ℕ) : (reader.advance count).unread = reader.unread.drop count := by
  simp [unread, advance]

/-- The reader stops before the first delimiter. -/
theorem tryAdvanceTo_append {delimiter : UInt8} {a b : List UInt8} (ha : delimiter ∉ a)
    (hunread : reader.unread = a ++ delimiter :: b) (past : Bool) :
    reader.tryAdvanceTo delimiter past = some (reader.advance (a.length + past.toNat)) := by
  have hfind : reader.unread.findIdx? (· = delimiter) = some a.length := by
    rw [hunread, List.findIdx?_append, List.findIdx?_eq_none_iff.mpr]
    · simp [List.findIdx?_cons]
    · intro c hc
      exact decide_eq_false fun heq => ha (heq ▸ hc)
  simp [tryAdvanceTo, hfind, advance, Nat.add_assoc]

theorem tryAdvanceTo_eq_none {delimiter : UInt8} (h : delimiter ∉ reader.unread) (past : Bool) :
    reader.tryAdvanceTo delimiter past = none := by
  rw [tryAdvanceTo, List.findIdx?_eq_none_iff.mpr]
  · rfl
  · intro c hc
    exact decide_eq_false fun heq => h (heq ▸ hc)

end SequenceReader

/-- The scanner finds the first line of what is unread, or goes back to where it started. -/
theorem tryReadLineFrom_eq {start fuel : ℕ} {reader : SequenceReader}
    (hstart : start ≤ reader.consumed) (hfuel : reader.unread.length < fuel) :
    tryReadLineFrom start fuel reader = some (match splitLine reader.unread with
      | none => ({ reader with consumed := start }, none)
      | some (line, _) =>
        (reader.advance (line.length + 2), some (reader.consumed - start + line.length))) := by
  induction fuel generalizing reader with
  | zero => omega
  | succ fuel ih =>
    have hback (count : ℕ) : (reader.advance count).rewind ((reader.advance count).consumed - start) =
        { reader with consumed := start } := by
      simp only [SequenceReader.rewind, SequenceReader.advance, SequenceReader.mk.injEq, true_and]
      omega
    rw [tryReadLineFrom]
    by_cases hcr : CR ∈ reader.unread
    · obtain ⟨a, b, hunread, ha⟩ := List.eq_append_cons_of_mem hcr
      rw [reader.tryAdvanceTo_append ha hunread, Bool.toNat_false, Nat.add_zero]
      have hpeek : (reader.advance a.length).tryPeek 1 = b[0]? := by
        simp [SequenceReader.tryPeek, SequenceReader.unread_advance, hunread]
      simp only [hpeek]
      rw [hunread, splitLine_append ha]
      cases b with
      | nil =>
        -- A carriage return at the end of the buffer may still become a line end.
        simp only [List.getElem?_nil, splitLine, List.head?_nil, reduceCtorEq, and_false, if_false,
          Option.map_none, hback]
      | cons next b =>
        simp only [List.getElem?_cons_zero]
        by_cases hlf : next = LF
        · subst hlf
          have hline : splitLine (CR :: LF :: b) = some ([], b) := rfl
          rw [if_pos rfl, hline]
          simp only [Option.map_some, List.append_nil, SequenceReader.advance, Nat.add_assoc,
            Option.some.injEq, Prod.mk.injEq, true_and]
          omega
        · have hline : splitLine (CR :: next :: b) =
              (splitLine (next :: b)).map fun split => (CR :: split.1, split.2) := by
            rw [splitLine, if_neg]
            simp [hlf]
          have hadvance : (reader.advance a.length).advance 1 = reader.advance (a.length + 1) := rfl
          have hrest : (reader.advance (a.length + 1)).unread = next :: b := by
            rw [reader.unread_advance, hunread, ← List.drop_drop, List.drop_left]
            rfl
          have hshorter : (reader.advance (a.length + 1)).unread.length < fuel := by
            rw [hrest]
            rw [hunread] at hfuel
            simp only [List.length_append, List.length_cons] at hfuel ⊢
            omega
          have hstart' : start ≤ (reader.advance (a.length + 1)).consumed := by
            simp only [SequenceReader.advance]
            omega
          rw [if_neg hlf, hadvance, ih hstart' hshorter, hrest, hline]
          cases splitLine (next :: b) with
          | none => rfl
          | some split =>
            simp only [Option.map_some, SequenceReader.advance, List.length_append, List.length_cons,
              Option.some.injEq, Prod.mk.injEq, SequenceReader.mk.injEq, true_and]
            omega
    · rw [reader.tryAdvanceTo_eq_none hcr, splitLine_eq_none hcr]
      have h := hback 0
      simp only [SequenceReader.advance, Nat.add_zero] at h
      simp only [h]

theorem tryReadLine_eq {fuel : ℕ} {reader : SequenceReader} (hfuel : reader.unread.length < fuel) :
    tryReadLine fuel reader = some (match splitLine reader.unread with
      | none => (reader, none)
      | some (line, _) => (reader.advance (line.length + 2), some line.length)) := by
  rw [tryReadLine, tryReadLineFrom_eq (Nat.le_refl _) hfuel]
  cases splitLine reader.unread with
  | none => rfl
  | some split => simp

/-- What is unread behind the first line. -/
theorem unread_advance_line {reader : SequenceReader} {line rest : List UInt8}
    (h : splitLine reader.unread = some (line, rest)) :
    (reader.advance (line.length + 2)).unread = rest := by
  have hlength : line.length + 2 = (line ++ lineEnd).length := by simp
  rw [reader.unread_advance, splitLine_eq_append h, hlength, List.drop_left]

/-! ### Reading headers -/

/-- The inner loop finds the end of the headers. -/
theorem readHeaders_eq_true {start fuel : ℕ} {reader : SequenceReader}
    (hfuel : reader.unread.length + 1 < fuel) {text rest : List UInt8}
    (h : splitHeaders reader.unread = some (text, rest)) :
    readHeaders start fuel reader = some (reader.advance text.length, true) := by
  induction fuel generalizing reader text with
  | zero => omega
  | succ fuel ih =>
    cases hline : splitLine reader.unread with
    | none =>
      rw [splitHeaders_of_none hline] at h
      cases h
    | some split =>
      obtain ⟨line, rest'⟩ := split
      have hatEnd : reader.atEnd = false := by
        rw [SequenceReader.atEnd, splitLine_eq_append hline]
        simp
      rw [splitHeaders_of_some hline] at h
      rw [readHeaders, hatEnd, tryReadLine_eq (by omega), hline]
      simp only [Bool.false_eq_true, if_false, List.length_eq_zero_iff]
      split at h
      · rename_i hempty
        obtain ⟨rfl, rfl⟩ := Prod.mk.inj (Option.some.inj h)
        rw [if_pos hempty, hempty]
        rfl
      · rename_i hempty
        obtain ⟨split, hsplit, heq⟩ := Option.map_eq_some_iff.mp h
        obtain ⟨rfl, rfl⟩ := Prod.mk.inj heq
        have hunread := unread_advance_line hline
        have hshorter : (reader.advance (line.length + 2)).unread.length + 1 < fuel := by
          rw [hunread]
          rw [splitLine_eq_append hline] at hfuel
          simp only [List.length_append, List.length_cons, List.length_nil] at hfuel
          omega
        have hlength : line.length + 2 + split.1.length = (line ++ lineEnd ++ split.1).length := by
          simp only [List.length_append, List.length_cons, List.length_nil]
        rw [if_neg hempty, ih hshorter (hunread ▸ hsplit), ← hlength, SequenceReader.advance,
          SequenceReader.advance, SequenceReader.advance, Nat.add_assoc]

/-- Without an end of the headers the inner loop stops with the buffer. -/
theorem readHeaders_eq_false (start : ℕ) {fuel : ℕ} {reader : SequenceReader}
    (hfuel : reader.unread.length + 1 < fuel) (h : splitHeaders reader.unread = none) :
    ∃ reader', readHeaders start fuel reader = some (reader', false) := by
  induction fuel generalizing reader with
  | zero => omega
  | succ fuel ih =>
    rw [readHeaders]
    by_cases hatEnd : reader.atEnd = true
    · rw [if_pos hatEnd]
      exact ⟨reader, rfl⟩
    · rw [if_neg hatEnd, tryReadLine_eq (by omega)]
      cases hline : splitLine reader.unread with
      | none => exact ⟨_, rfl⟩
      | some split =>
        obtain ⟨line, rest⟩ := split
        rw [splitHeaders_of_some hline] at h
        split at h
        · cases h
        · rename_i hempty
          have hunread := unread_advance_line hline
          have hshorter : (reader.advance (line.length + 2)).unread.length + 1 < fuel := by
            rw [hunread]
            rw [splitLine_eq_append hline] at hfuel
            simp only [List.length_append, List.length_cons, List.length_nil] at hfuel
            omega
          simp only [List.length_eq_zero_iff, if_neg hempty]
          exact ih hshorter (hunread ▸ Option.map_eq_none_iff.mp h)

end FrameworkBenchmarks.TouchSocket
