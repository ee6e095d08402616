import FrameworkBenchmarks.Common.Bytes
import Mathlib.Data.Int.Notation
import Mathlib.Data.Nat.Notation
import Mathlib.Logic.Function.Basic

/-!
# Bytes in memory

A memory gives a byte to every address. Texts are written to consecutive addresses.
-/

namespace FrameworkBenchmarks.Common

abbrev Memory := ℤ → UInt8

/-- The bytes at the addresses from one on. -/
def readBytes (memory : Memory) (base : ℤ) (n : ℕ) : List UInt8 :=
  (List.range n).map fun i : ℕ => memory (base + (i : ℤ))

/-- The memory with the bytes at the addresses from one on. -/
def writeBytes (memory : Memory) (base : ℤ) (bytes : List UInt8) : Memory := fun i =>
  if base ≤ i then bytes[(i - base).toNat]?.getD (memory i) else memory i

variable {memory : Memory} {base i : ℤ} {bytes : List UInt8}

theorem writeBytes_of_outside (h : i < base ∨ base + bytes.length ≤ i) :
    writeBytes memory base bytes i = memory i := by
  unfold writeBytes
  split
  · rw [List.getElem?_eq_none (by omega)]
    rfl
  · rfl

theorem readBytes_writeBytes_append (memory : Memory) (base : ℤ) (bytes rest : List UInt8) :
    readBytes (writeBytes memory base (bytes ++ rest)) base bytes.length = bytes := by
  apply List.ext_getElem
  · simp [readBytes]
  · intro n hn hn'
    have hindex : (base + (n : ℤ) - base).toNat = n := by omega
    have hle : base ≤ base + (n : ℤ) := by omega
    simp [readBytes, writeBytes, hindex, hle, List.getElem?_append_left hn', hn']

theorem readBytes_writeBytes (memory : Memory) (base : ℤ) (bytes : List UInt8) :
    readBytes (writeBytes memory base bytes) base bytes.length = bytes := by
  have happend := readBytes_writeBytes_append memory base bytes []
  rwa [List.append_nil] at happend

/-- The last byte may be written first. -/
theorem writeBytes_concat (memory : Memory) (base : ℤ) (bytes : List UInt8) (b : UInt8) :
    writeBytes (Function.update memory (base + bytes.length) b) base bytes =
      writeBytes memory base (bytes ++ [b]) := by
  funext i
  unfold writeBytes
  split
  · rename_i hi
    rcases Nat.lt_trichotomy (i - base).toNat bytes.length with hlt | heq | hgt
    · rw [List.getElem?_append_left hlt, List.getElem?_eq_getElem hlt]
      rfl
    · have hat : i = base + bytes.length := by omega
      rw [List.getElem?_append_right (Nat.le_of_eq heq.symm), heq, Nat.sub_self, List.getElem?_eq_none (Nat.le_refl _),
        hat]
      exact Function.update_self _ _ _
    · rw [List.getElem?_eq_none (Nat.le_of_lt hgt), List.getElem?_eq_none (by rw [List.length_append]; exact hgt)]
      exact Function.update_of_ne (by omega) _ _
  · exact Function.update_of_ne (by omega) _ _

/-- The first byte may be written last. -/
theorem writeBytes_cons (memory : Memory) (base : ℤ) (b : UInt8) (bytes : List UInt8) :
    Function.update (writeBytes memory (base + 1) bytes) base b = writeBytes memory base (b :: bytes) := by
  funext i
  rcases Int.lt_trichotomy i base with hlt | rfl | hgt
  · rw [Function.update_of_ne (Int.ne_of_lt hlt), writeBytes_of_outside (Or.inl (by omega)),
      writeBytes_of_outside (Or.inl hlt)]
  · simp [writeBytes]
  · have hindex : (i - base).toNat = (i - (base + 1)).toNat + 1 := by omega
    rw [Function.update_of_ne (Int.ne_of_gt hgt), writeBytes, writeBytes, if_pos (by omega), if_pos (Int.le_of_lt hgt), hindex,
      List.getElem?_cons_succ]

theorem writeBytes_nil (memory : Memory) (base : ℤ) : writeBytes memory base [] = memory := by
  funext i
  simp [writeBytes]

theorem writeBytes_singleton (memory : Memory) (base : ℤ) (b : UInt8) :
    writeBytes memory base [b] = Function.update memory base b := by
  rw [← writeBytes_cons, writeBytes_nil]

theorem writeBytes_append (memory : Memory) (base : ℤ) (bytes rest : List UInt8) :
    writeBytes memory base (bytes ++ rest) = writeBytes (writeBytes memory base bytes) (base + bytes.length) rest := by
  funext i
  by_cases hfirst : i < base + bytes.length
  · rw [@writeBytes_of_outside (writeBytes memory base bytes) _ i rest (Or.inl hfirst)]
    unfold writeBytes
    by_cases hbase : base ≤ i
    · rw [if_pos hbase, if_pos hbase, List.getElem?_append_left (by omega)]
    · rw [if_neg hbase, if_neg hbase]
  · have houtside : writeBytes memory base bytes i = memory i := writeBytes_of_outside (Or.inr (by omega))
    have hindex : (i - (base + bytes.length)).toNat = (i - base).toNat - bytes.length := by omega
    rw [writeBytes, writeBytes, houtside, if_pos (by omega), if_pos (by omega), hindex, List.getElem?_append_right (by omega)]

/-- Bytes that are written over by as many. -/
theorem writeBytes_overwrite {bytes bytes' : List UInt8} (h : bytes'.length = bytes.length) (memory : Memory) (base : ℤ)
    (before after : List UInt8) :
    writeBytes (writeBytes memory base (before ++ (bytes ++ after))) (base + before.length) bytes' =
      writeBytes memory base (before ++ (bytes' ++ after)) := by
  funext i
  by_cases hbefore : i < base + before.length
  · rw [writeBytes_of_outside (Or.inl hbefore)]
    unfold writeBytes
    by_cases hbase : base ≤ i
    · rw [if_pos hbase, if_pos hbase, List.getElem?_append_left (by omega), List.getElem?_append_left (by omega)]
    · rw [if_neg hbase, if_neg hbase]
  · have hindex : (i - (base + before.length)).toNat = (i - base).toNat - before.length := by omega
    by_cases hbytes : i < base + before.length + bytes'.length
    · have hright : (before ++ (bytes' ++ after))[(i - base).toNat]? = bytes'[(i - base).toNat - before.length]? := by
        rw [List.getElem?_append_right (by omega), List.getElem?_append_left (by omega)]
      have hlt : (i - base).toNat - before.length < bytes'.length := by omega
      have hsome : bytes'[(i - base).toNat - before.length]? = some bytes'[(i - base).toNat - before.length] :=
        List.getElem?_eq_getElem hlt
      unfold writeBytes
      rw [if_pos (by omega), hindex, hright, hsome, if_pos (by omega), if_pos (by omega)]
      rfl
    · rw [writeBytes_of_outside (Or.inr (by omega)), writeBytes, writeBytes, if_pos (by omega), if_pos (by omega),
        List.getElem?_append_right (by omega), List.getElem?_append_right (by omega), List.getElem?_append_right (by omega),
        List.getElem?_append_right (by omega), h]

theorem readBytes_append (memory : Memory) (base : ℤ) (m n : ℕ) :
    readBytes memory base (m + n) = readBytes memory base m ++ readBytes memory (base + m) n := by
  unfold readBytes
  rw [List.range_add, List.map_append, List.map_map]
  apply congrArg
  apply List.map_congr_left
  intro i _
  exact congrArg memory (by simp; omega)

/-- Bytes in front of those that are written stay. -/
theorem readBytes_writeBytes_of_le {n : ℕ} (h : base + n ≤ i) (memory : Memory) (bytes : List UInt8) :
    readBytes (writeBytes memory i bytes) base n = readBytes memory base n := by
  apply List.map_congr_left
  intro k hk
  exact writeBytes_of_outside (Or.inl (by have hlt := List.mem_range.mp hk; omega))

/-- Texts that do not overlap may be written in any order. -/
theorem writeBytes_comm {base' : ℤ} {bytes' : List UInt8} (h : base + bytes.length ≤ base') (memory : Memory) :
    writeBytes (writeBytes memory base' bytes') base bytes = writeBytes (writeBytes memory base bytes) base' bytes' := by
  funext i
  by_cases hi : i < base'
  · have hinner : writeBytes memory base' bytes' i = memory i := writeBytes_of_outside (Or.inl hi)
    rw [@writeBytes_of_outside (writeBytes memory base bytes) base' i bytes' (Or.inl hi), writeBytes, hinner, writeBytes]
  · have hbehind : base + bytes.length ≤ i := by omega
    have hinner : writeBytes memory base bytes i = memory i := writeBytes_of_outside (Or.inr hbehind)
    rw [@writeBytes_of_outside (writeBytes memory base' bytes') base i bytes (Or.inr hbehind), writeBytes, writeBytes,
      hinner]

/-- Bytes written behind a text go on with it. -/
theorem readBytes_writeBytes_behind {text : List UInt8} (h : readBytes memory base text.length = text)
    (bytes : List UInt8) :
    readBytes (writeBytes memory (base + text.length) bytes) base (text.length + bytes.length) = text ++ bytes := by
  rw [readBytes_append, readBytes_writeBytes_of_le (Int.le_refl _), h, readBytes_writeBytes]

theorem readBytes_left {text rest : List UInt8} (h : readBytes memory base (text.length + rest.length) = text ++ rest) :
    readBytes memory base text.length = text := by
  rw [readBytes_append] at h
  exact (List.append_inj h (by simp [readBytes])).1

end FrameworkBenchmarks.Common
