import FrameworkBenchmarks.Common.Decimal
import FrameworkBenchmarks.Common.Memory

/-!
# The buffer writer of the platform

A `BufferWriter` writes into a span of the free space of a pipe, and commits later what it has buffered there. The
free space is directly behind the bytes that are advanced, and `Advance` takes over what is written there.
-/

namespace FrameworkBenchmarks.AspNetCore

open FrameworkBenchmarks.Common

/-- The cells of a pipe, and how many of them are advanced. -/
structure Pipe where
  memory : Memory
  advanced : ℕ

/-- What a pipe has been given. -/
def Pipe.written (pipe : Pipe) : List UInt8 := readBytes pipe.memory 0 pipe.advanced

/-- The lengths of the spans that `GetSpan` returns behind some advanced bytes for a hint. -/
structure Spans where
  length : ℕ → ℕ → ℕ
  le_length : ∀ advanced sizeHint, sizeHint ≤ length advanced sizeHint
  length_pos : ∀ advanced sizeHint, 0 < length advanced sizeHint

/-- The place and the length of `_span`, and `_buffered`. -/
structure BufferWriter where
  start : ℕ
  length : ℕ
  buffered : ℕ

variable (spans : Spans)

namespace BufferWriter

/-- `GetWriter` -/
def new (pipe : Pipe) (sizeHint : ℕ) : BufferWriter := ⟨pipe.advanced, spans.length pipe.advanced sizeHint, 0⟩

def commit (writer : BufferWriter) (pipe : Pipe) : BufferWriter × Pipe :=
  if 0 < writer.buffered then
    ({ writer with buffered := 0 }, { pipe with advanced := pipe.advanced + writer.buffered })
  else (writer, pipe)

def advance (count : ℕ) (writer : BufferWriter) : BufferWriter :=
  ⟨writer.start + count, writer.length - count, writer.buffered + count⟩

/-- `CopyTo` the span -/
def copy (source : List UInt8) (writer : BufferWriter) (pipe : Pipe) : Pipe :=
  { pipe with memory := writeBytes pipe.memory writer.start source }

def ensureMore (count : ℕ) (writer : BufferWriter) (pipe : Pipe) : BufferWriter × Pipe :=
  let (writer, pipe) := if 0 < writer.buffered then writer.commit pipe else (writer, pipe)
  (⟨pipe.advanced, spans.length pipe.advanced count, writer.buffered⟩, pipe)

/-- The loop writes at least one byte in each pass, so it needs no more passes than there are bytes. -/
def writeMultiBuffer : ℕ → List UInt8 → BufferWriter → Pipe → BufferWriter × Pipe
  | 0, _, writer, pipe => (writer, pipe)
  | fuel + 1, source, writer, pipe =>
    if source.length > 0 then
      let (writer, pipe) := if writer.length = 0 then writer.ensureMore spans 0 pipe else (writer, pipe)
      let writable := min source.length writer.length
      writeMultiBuffer fuel (source.drop writable) (writer.advance writable) (writer.copy (source.take writable) pipe)
    else (writer, pipe)

def write (source : List UInt8) (writer : BufferWriter) (pipe : Pipe) : BufferWriter × Pipe :=
  if source.length ≤ writer.length then (writer.advance source.length, writer.copy source pipe)
  else writeMultiBuffer spans source.length source writer pipe

/-- The loop of `WriteNumericMultiWrite`, which fills its bytes from the end. -/
def numericBytes (number : ℕ) (bytes : List UInt8) : List UInt8 :=
  let quotient := number / 10
  let bytes := digit (number - quotient * 10) :: bytes
  if quotient = 0 then bytes else numericBytes quotient bytes
termination_by number
decreasing_by omega

def writeNumeric (number : ℕ) (writer : BufferWriter) (pipe : Pipe) : BufferWriter × Pipe :=
  if writer.length ≥ 3 ∧ number < 10 then (writer.advance 1, writer.copy [digit number] pipe)
  else if writer.length ≥ 3 ∧ number < 100 then
    let tens := (number * 205) >>> 11
    (writer.advance 2, writer.copy [digit tens, digit (number - tens * 10)] pipe)
  else if writer.length ≥ 3 ∧ number < 1000 then
    let digit0 := (number * 41) >>> 12
    let digits01 := (number * 205) >>> 11
    (writer.advance 3, writer.copy [digit digit0, digit (digits01 - digit0 * 10), digit (number - digits01 * 10)] pipe)
  else writer.write spans (numericBytes number []) pipe

/-! ### Writing at the end -/

/-- The span is the free space behind what is buffered. -/
def Attached (writer : BufferWriter) (pipe : Pipe) : Prop := writer.start = pipe.advanced + writer.buffered

/-- What an attached writer has done when it has written some bytes. -/
structure Wrote (source : List UInt8) (writer : BufferWriter) (pipe : Pipe) (after : BufferWriter × Pipe) : Prop where
  memory : after.2.memory = writeBytes pipe.memory writer.start source
  start : after.1.start = writer.start + source.length
  attached : after.1.Attached after.2

theorem new_attached (pipe : Pipe) (sizeHint : ℕ) : (new spans pipe sizeHint).Attached pipe := rfl

variable {spans} {writer : BufferWriter} {pipe : Pipe}

theorem commit_eq (h : writer.Attached pipe) : writer.commit pipe = ({ writer with buffered := 0 },
    { pipe with advanced := writer.start }) := by
  obtain ⟨start, length, buffered⟩ := writer
  obtain ⟨memory, advanced⟩ := pipe
  obtain rfl : start = advanced + buffered := h
  unfold commit
  by_cases hbuffered : 0 < buffered
  · rw [if_pos hbuffered]
  · obtain rfl : buffered = 0 := by omega
    exact if_neg hbuffered

theorem commit_attached (h : writer.Attached pipe) : (writer.commit pipe).1.Attached (writer.commit pipe).2 := by
  rw [commit_eq h]
  rfl

theorem copy_wrote (h : writer.Attached pipe) (source : List UInt8) :
    Wrote source writer pipe (writer.advance source.length, writer.copy source pipe) := by
  refine ⟨rfl, rfl, ?_⟩
  unfold Attached at h ⊢
  simp only [advance, copy, h, Nat.add_assoc]

/-- One write behind another. -/
theorem Wrote.append {source source' : List UInt8} {middle after : BufferWriter × Pipe}
    (h : Wrote source writer pipe middle) (h' : Wrote source' middle.1 middle.2 after) :
    Wrote (source ++ source') writer pipe after := by
  refine ⟨?_, ?_, h'.attached⟩
  · rw [h'.memory, h.memory, h.start, writeBytes_append, Int.natCast_add]
  · rw [h'.start, h.start, List.length_append, Nat.add_assoc]

theorem ensureMore_wrote (h : writer.Attached pipe) (count : ℕ) :
    Wrote [] writer pipe (writer.ensureMore spans count pipe) := by
  have hcommit : (if 0 < writer.buffered then writer.commit pipe else (writer, pipe)) = writer.commit pipe := by
    by_cases hbuffered : 0 < writer.buffered
    · exact if_pos hbuffered
    · rw [if_neg hbuffered, commit, if_neg hbuffered]
  unfold ensureMore
  rw [hcommit, commit_eq h]
  exact ⟨(writeBytes_nil _ _).symm, rfl, rfl⟩

theorem writeMultiBuffer_wrote {fuel : ℕ} {source : List UInt8} (hfuel : source.length ≤ fuel)
    (h : writer.Attached pipe) : Wrote source writer pipe (writeMultiBuffer spans fuel source writer pipe) := by
  induction fuel generalizing source writer pipe with
  | zero =>
    obtain rfl : source = [] := List.eq_nil_of_length_eq_zero (Nat.le_zero.mp hfuel)
    exact ⟨(writeBytes_nil _ _).symm, rfl, h⟩
  | succ fuel ih =>
    unfold writeMultiBuffer
    by_cases hsource : source.length > 0
    · rw [if_pos hsource]
      -- The span has room for a byte at least.
      have hroom : ∃ room : BufferWriter × Pipe, (if writer.length = 0 then writer.ensureMore spans 0 pipe
          else (writer, pipe)) = room ∧ Wrote [] writer pipe room ∧ 0 < room.1.length := by
        by_cases hfull : writer.length = 0
        · refine ⟨_, if_pos hfull, ensureMore_wrote h 0, spans.length_pos _ _⟩
        · exact ⟨_, if_neg hfull, ⟨(writeBytes_nil _ _).symm, rfl, h⟩, Nat.pos_of_ne_zero hfull⟩
      obtain ⟨room, heq, hwrote, hlength⟩ := hroom
      rw [heq]
      have hmin : (source.take (min source.length room.1.length)).length = min source.length room.1.length := by
        rw [List.length_take]
        omega
      have hcopy := copy_wrote hwrote.attached (source.take (min source.length room.1.length))
      rw [hmin] at hcopy
      have hrest := @ih (room.1.advance (min source.length room.1.length))
        (room.1.copy (source.take (min source.length room.1.length)) room.2)
        (source.drop (min source.length room.1.length)) (by rw [List.length_drop]; omega) hcopy.attached
      have hall := hwrote.append (hcopy.append hrest)
      rwa [List.nil_append, List.take_append_drop] at hall
    · obtain rfl : source = [] := List.eq_nil_of_length_eq_zero (by omega)
      rw [if_neg hsource]
      exact ⟨(writeBytes_nil _ _).symm, rfl, h⟩

/-- An attached writer writes all bytes one behind the other, over as many spans as it takes. -/
theorem write_wrote (h : writer.Attached pipe) (source : List UInt8) :
    Wrote source writer pipe (writer.write spans source pipe) := by
  unfold write
  by_cases hlength : source.length ≤ writer.length
  · rw [if_pos hlength]
    exact copy_wrote h source
  · rw [if_neg hlength]
    exact writeMultiBuffer_wrote (Nat.le_refl _) h

/-! ### Numbers -/

theorem numericBytes_eq (number : ℕ) (bytes : List UInt8) : numericBytes number bytes = decimal number ++ bytes := by
  induction number using Nat.strongRecOn generalizing bytes with
  | _ number ih =>
    have hmod : number - number / 10 * 10 = number % 10 := by omega
    rw [numericBytes, hmod]
    by_cases hquotient : number / 10 = 0
    · have hlt : number < 10 := by omega
      rw [if_pos hquotient, decimal_of_lt hlt, Nat.mod_eq_of_lt hlt]
      rfl
    · rw [if_neg hquotient, ih (number / 10) (by omega), @decimal_of_le number (by omega), List.append_assoc]
      rfl

theorem div_ten {number : ℕ} (h : number < 1000) : (number * 205) >>> 11 = number / 10 := by
  rw [Nat.shiftRight_eq_div_pow]
  omega

theorem div_hundred {number : ℕ} (h : number < 1000) : (number * 41) >>> 12 = number / 100 := by
  rw [Nat.shiftRight_eq_div_pow]
  omega

/-- A number is written with its digits, in each of the branches. -/
theorem writeNumeric_eq {number : ℕ} (h : (decimal number).length ≤ writer.length) :
    writer.writeNumeric spans number pipe = (writer.advance (decimal number).length, writer.copy (decimal number) pipe) := by
  unfold writeNumeric
  by_cases hone : writer.length ≥ 3 ∧ number < 10
  · rw [if_pos hone, decimal_of_lt hone.2]
    rfl
  · by_cases htwo : writer.length ≥ 3 ∧ number < 100
    · have hdecimal : decimal number = [digit (number / 10), digit (number % 10)] := by
        rw [decimal_of_le (by omega), decimal_of_lt (by omega)]
        rfl
      have hunits : number - number / 10 * 10 = number % 10 := by omega
      rw [if_neg hone, if_pos htwo, div_ten (by omega), hdecimal, ← hunits]
      rfl
    · by_cases hthree : writer.length ≥ 3 ∧ number < 1000
      · have hdecimal : decimal number = [digit (number / 100), digit (number / 10 % 10), digit (number % 10)] := by
          rw [decimal_of_le (by omega), decimal_of_le (by omega), decimal_of_lt (by omega), Nat.div_div_eq_div_mul]
          rfl
        have htens : number / 10 - number / 100 * 10 = number / 10 % 10 := by omega
        have hunits : number - number / 10 * 10 = number % 10 := by omega
        rw [if_neg hone, if_neg htwo, if_pos hthree, div_ten hthree.2, div_hundred hthree.2, hdecimal, ← htens, ← hunits]
        rfl
      · rw [if_neg hone, if_neg htwo, if_neg hthree, numericBytes_eq, List.append_nil, write, if_pos h]

end BufferWriter

end FrameworkBenchmarks.AspNetCore
