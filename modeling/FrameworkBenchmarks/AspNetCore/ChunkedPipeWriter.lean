import Mathlib.Data.Nat.Log
import FrameworkBenchmarks.Common.ChunkedCoding

/-!
# The chunked pipe writer of the ASP.NET Core platform benchmark

`ChunkedPipeWriter` gathers small writes in one memory of the underlying writer and turns each
memory into a chunk. Room for the header is reserved when a memory is obtained; the size is written
into it when the chunk is committed.

A memory is the list of its bytes. `_currentChunk` is the part of `_currentFullChunk` from an offset
on, so that what is written through one is seen through the other. The debug assertions are not
compiled into a release build and are left out.
-/

namespace FrameworkBenchmarks.AspNetCore

open FrameworkBenchmarks.Common

/-- The exceptions a call can end in, and a loop that has not ended. -/
inductive Failure
  | invalidOperation (message : String)
  | notSupported (message : String)
  | argument
  | argumentOutOfRange
  | nullReference
  | outOfFuel
  deriving DecidableEq, Repr

/-- The memories the underlying writer returns: for each call of `GetMemory` and each requested size
the bytes that happen to be in a memory of at least that size. -/
structure Memories where
  memory : ℕ → ℕ → List UInt8
  length_ge : ∀ call size, size ≤ (memory call size).length

/-- The underlying writer: the bytes it has been advanced over and the calls of `GetMemory` made. -/
structure PipeWriter where
  advanced : List UInt8 := []
  getMemoryCalls : ℕ := 0
  deriving DecidableEq, Repr

/-- An addition of two non-negative `int` values, unchecked. -/
def addInt (a b : ℕ) : ℤ := Int.bmod (a + b) (2 ^ 32)

def countHexDigits (n : ℕ) : ℕ := if n ≤ 16 then 1 else (Nat.log 2 n >>> 2) + 1

/-- The precision of the format `X`. -/
def getHexFormat (maxValue : ℕ) : ℕ := countHexDigits maxValue

def defaultChunkSizeHint : ℕ := 2048

def defaultHexFormat : ℕ := getHexFormat defaultChunkSizeHint

/-- Copy bytes into a memory, at an offset of it. -/
def copyTo (bytes memory : List UInt8) (offset : ℕ) : Except Failure (List UInt8) :=
  if memory.length < offset then .error .argumentOutOfRange
  else if memory.length < offset + bytes.length then .error .argument
  else .ok (memory.take offset ++ bytes ++ memory.drop (offset + bytes.length))

structure ChunkedPipeWriter where
  output : Option PipeWriter := none
  chunkSizeHint : ℕ := 0
  hexFormat : ℕ := defaultHexFormat
  currentFullChunk : List UInt8 := []
  /-- Where `_currentChunk` starts in `_currentFullChunk`. -/
  currentChunkStart : ℕ := 0
  buffered : ℕ := 0
  unflushedBytes : ℕ := 0
  ended : Bool := false
  deriving DecidableEq, Repr

namespace ChunkedPipeWriter

/-- `_currentChunk.Length` -/
def currentChunkLength (w : ChunkedPipeWriter) : ℕ := w.currentFullChunk.length - w.currentChunkStart

def throwIfEnded (w : ChunkedPipeWriter) : Except Failure Unit :=
  if w.ended then .error (.invalidOperation "Cannot use the writer after calling End().") else .ok ()

/-- `_output.GetMemory` -/
def outputGetMemory (memories : Memories) (size : ℕ) (w : ChunkedPipeWriter) :
    Except Failure ChunkedPipeWriter :=
  match w.output with
  | none => .error .nullReference
  | some output => .ok { w with
      output := some { output with getMemoryCalls := output.getMemoryCalls + 1 }
      currentFullChunk := memories.memory output.getMemoryCalls size }

/-- `_output.Advance`, over the first bytes of the memory obtained last. -/
def outputAdvance (count : ℕ) (w : ChunkedPipeWriter) : Except Failure ChunkedPipeWriter :=
  match w.output with
  | none => .error .nullReference
  | some output => .ok { w with output := some { output with
      advanced := output.advanced ++ w.currentFullChunk.take count } }

/-- `_output.Write`, which obtains a memory of its own. -/
def outputWrite (bytes : List UInt8) (w : ChunkedPipeWriter) : Except Failure ChunkedPipeWriter :=
  match w.output with
  | none => .error .nullReference
  | some output => .ok { w with output := some {
      advanced := output.advanced ++ bytes
      getMemoryCalls := output.getMemoryCalls + 1 } }

def startNewChunk (memories : Memories) (sizeHint : ℤ) (isFirst : Bool) (w : ChunkedPipeWriter) :
    Except Failure ChunkedPipeWriter := do
  w.throwIfEnded
  let oldFullChunkHexLength : ℤ := if isFirst then -1 else countHexDigits w.currentFullChunk.length
  let w ← w.outputGetMemory memories (max (w.chunkSizeHint : ℤ) sizeHint).toNat
  let newFullChunkHexLength := countHexDigits w.currentFullChunk.length
  let zeroed ← copyTo (List.replicate newFullChunkHexLength 48) w.currentFullChunk 0
  let full ← copyTo crlf zeroed newFullChunkHexLength
  let hexFormat :=
    if (isFirst = false ∧ oldFullChunkHexLength ≠ newFullChunkHexLength) ∨
        (isFirst = true ∧ defaultChunkSizeHint ≠ w.chunkSizeHint)
    then getHexFormat w.currentFullChunk.length else w.hexFormat
  return { w with
    currentFullChunk := full
    currentChunkStart := newFullChunkHexLength + crlf.length
    hexFormat := hexFormat }

/-- The header and the line end of the current chunk are written into its memory, and the total
length of the chunk is computed. -/
def finishChunk (w : ChunkedPipeWriter) : Except Failure (ChunkedPipeWriter × ℕ) := do
  let contentLength := w.buffered
  let chunkLengthHexDigitsLength := countHexDigits contentLength
  let formatted := formatHex contentLength w.hexFormat
  if w.currentFullChunk.length < formatted.length then
    throw (.notSupported "Chunk size too large")
  let span ← copyTo formatted w.currentFullChunk 0
  let headerLength := chunkLengthHexDigitsLength + 2
  let spanOffset := headerLength + contentLength
  let span ← copyTo crlf span spanOffset
  return ({ w with currentFullChunk := span }, spanOffset + crlf.length)

def commitCurrentChunk (memories : Memories) (isFinal : Bool) (sizeHint : ℤ)
    (w : ChunkedPipeWriter) : Except Failure ChunkedPipeWriter := do
  w.throwIfEnded
  if 0 < w.buffered then
    let (w, chunkTotalLength) ← w.finishChunk
    if isFinal = false then
      let w ← w.outputAdvance chunkTotalLength
      let w ← w.startNewChunk memories sizeHint false
      return { w with buffered := 0 }
    else if addInt chunkTotalLength lastChunk.length ≤ w.currentFullChunk.length then
      let span ← copyTo lastChunk w.currentFullChunk chunkTotalLength
      let w ← { w with currentFullChunk := span }.outputAdvance (chunkTotalLength + lastChunk.length)
      return { w with buffered := 0 }
    else
      let w ← w.outputAdvance chunkTotalLength
      let w ← w.outputWrite lastChunk
      return { w with buffered := 0 }
  else return w

def setOutput (memories : Memories) (chunkSizeHint : ℕ) (w : ChunkedPipeWriter) :
    Except Failure ChunkedPipeWriter :=
  { w with buffered := 0, unflushedBytes := 0, chunkSizeHint := chunkSizeHint, output := some {} }
    |>.startNewChunk memories chunkSizeHint true

def reset (w : ChunkedPipeWriter) : ChunkedPipeWriter :=
  { w with
    buffered := 0
    unflushedBytes := 0
    output := none
    ended := false
    hexFormat := defaultHexFormat
    currentFullChunk := []
    currentChunkStart := 0 }

def advance (count : ℕ) (w : ChunkedPipeWriter) : Except Failure ChunkedPipeWriter := do
  w.throwIfEnded
  if w.currentChunkLength < count then throw .argumentOutOfRange
  return { w with
    buffered := w.buffered + count
    unflushedBytes := w.unflushedBytes + count
    currentChunkStart := w.currentChunkStart + count }

def ensureMore (memories : Memories) (count : ℤ) (w : ChunkedPipeWriter) :
    Except Failure ChunkedPipeWriter :=
  if count > w.currentChunkLength - w.buffered - 2 then
    if 0 < w.buffered then w.commitCurrentChunk memories false count
    else w.startNewChunk memories count false
  else .ok w

/-- `GetMemory`; the memory it returns is the current chunk of the writer after the call. -/
def getMemory (memories : Memories) (sizeHint : ℤ) (w : ChunkedPipeWriter) :
    Except Failure ChunkedPipeWriter := do
  w.throwIfEnded
  if (w.currentChunkLength : ℤ) ≤ sizeHint then w.ensureMore memories sizeHint else return w

/-- Bytes are copied to the start of the current chunk and the writer is advanced over them. -/
def copyAndAdvance (source : List UInt8) (w : ChunkedPipeWriter) :
    Except Failure ChunkedPipeWriter := do
  let full ← copyTo source w.currentFullChunk w.currentChunkStart
  { w with currentFullChunk := full }.advance source.length

/-- The first statement of the loop in `WriteMultiBuffer`. -/
def ensureWritable (memories : Memories) (w : ChunkedPipeWriter) :
    Except Failure ChunkedPipeWriter :=
  if (w.currentChunkLength : ℤ) - 2 = 0 then w.ensureMore memories 0 else .ok w

/-- One iteration of the loop in `WriteMultiBuffer`, with the part of the source that is left. -/
def writeIteration (memories : Memories) (source : List UInt8) (w : ChunkedPipeWriter) :
    Except Failure (List UInt8 × ChunkedPipeWriter) := do
  let w ← w.ensureWritable memories
  let writable : ℤ := min (source.length : ℤ) (w.currentChunkLength - 2)
  if writable < 0 then throw .argumentOutOfRange
  let w ← w.copyAndAdvance (source.take writable.toNat)
  return (source.drop writable.toNat, w)

def writeMultiBuffer (memories : Memories) :
    ℕ → List UInt8 → ChunkedPipeWriter → Except Failure ChunkedPipeWriter
  | _, [], w => .ok w
  | 0, _ :: _, _ => .error .outOfFuel
  | fuel + 1, source, w => do
    let (rest, w) ← w.writeIteration memories source
    writeMultiBuffer memories fuel rest w

def write (memories : Memories) (fuel : ℕ) (source : List UInt8) (w : ChunkedPipeWriter) :
    Except Failure ChunkedPipeWriter := do
  w.throwIfEnded
  if addInt source.length 2 ≤ w.currentChunkLength then w.copyAndAdvance source
  else w.writeMultiBuffer memories fuel source

def flushAsync (memories : Memories) (w : ChunkedPipeWriter) : Except Failure ChunkedPipeWriter := do
  let w ← w.commitCurrentChunk memories false 0
  return { w with unflushedBytes := 0 }

def complete (memories : Memories) (w : ChunkedPipeWriter) : Except Failure ChunkedPipeWriter := do
  w.throwIfEnded
  let w ← w.commitCurrentChunk memories true 0
  return { w with ended := true }

end ChunkedPipeWriter

/-- A call on the writer between `SetOutput` and `Complete`. An `advance` is the caller's: it writes
its bytes to the start of the memory it has got and advances over them. -/
inductive Call
  | write (source : List UInt8)
  | getMemory (sizeHint : ℤ)
  | advance (bytes : List UInt8)
  | flushAsync

/-- The bytes a call writes. -/
def Call.written : Call → List UInt8
  | .write source => source
  | .advance bytes => bytes
  | .getMemory _ | .flushAsync => []

namespace ChunkedPipeWriter

def call (memories : Memories) (fuel : ℕ) (w : ChunkedPipeWriter) :
    Call → Except Failure ChunkedPipeWriter
  | .write source => w.write memories fuel source
  | .getMemory sizeHint => w.getMemory memories sizeHint
  | .advance bytes => w.copyAndAdvance bytes
  | .flushAsync => w.flushAsync memories

/-- The calls of one response. -/
def calls (memories : Memories) (fuel : ℕ) (w : ChunkedPipeWriter) (cs : List Call) :
    Except Failure ChunkedPipeWriter :=
  cs.foldlM (call memories fuel) w

/-- One use of a writer that is new or has been reset: the bytes its output has been advanced over
when the body is complete. -/
def body (memories : Memories) (fuel chunkSizeHint : ℕ) (w : ChunkedPipeWriter) (cs : List Call) :
    Except Failure (List UInt8) := do
  let w ← w.reset.setOutput memories chunkSizeHint
  let w ← w.calls memories fuel cs
  let w ← w.complete memories
  match w.output with
  | none => throw .nullReference
  | some output => return output.advanced

end ChunkedPipeWriter

end FrameworkBenchmarks.AspNetCore
