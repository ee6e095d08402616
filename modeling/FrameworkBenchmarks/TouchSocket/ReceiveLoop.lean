import FrameworkBenchmarks.Common.Lines

/-!
# The receive loop of the touchsocket platform server

`MyTcpSessionClientBase` reads a pipe, takes the complete requests off each buffer and writes their
responses. The bytes of a buffer are a list; in which segments they lie makes no difference to the code.
The loops have fuel. The cached date header is a parameter, and flushing is left out.
-/

namespace FrameworkBenchmarks.TouchSocket

open Common

abbrev space : UInt8 := 32

/-! ### Sequence reader -/

/-- `SequenceReader<byte>` -/
structure SequenceReader where
  buffer : List UInt8
  consumed : ℕ

namespace SequenceReader

def unread (reader : SequenceReader) : List UInt8 := reader.buffer.drop reader.consumed

/-- `End` -/
def atEnd (reader : SequenceReader) : Bool := reader.unread.isEmpty

/-- `TryAdvanceTo`; the reader stays where it is when the delimiter is not found. -/
def tryAdvanceTo (reader : SequenceReader) (delimiter : UInt8) (advancePastDelimiter : Bool) :
    Option SequenceReader :=
  (reader.unread.findIdx? (· = delimiter)).map fun i =>
    { reader with consumed := reader.consumed + i + advancePastDelimiter.toNat }

def tryPeek (reader : SequenceReader) (offset : ℕ) : Option UInt8 := reader.unread[offset]?

def advance (reader : SequenceReader) (count : ℕ) : SequenceReader :=
  { reader with consumed := reader.consumed + count }

def rewind (reader : SequenceReader) (count : ℕ) : SequenceReader :=
  { reader with consumed := reader.consumed - count }

end SequenceReader

/-! ### Lines and urls -/

/-- The loop of `TryReadLine`: the reader, and the length of the line if it is complete. -/
def tryReadLineFrom (startConsumed : ℕ) : ℕ → SequenceReader → Option (SequenceReader × Option ℕ)
  | 0, _ => none
  | fuel + 1, reader =>
    match reader.tryAdvanceTo CR false with
    | none => some (reader.rewind (reader.consumed - startConsumed), none)
    | some reader =>
      match reader.tryPeek 1 with
      | none => some (reader.rewind (reader.consumed - startConsumed), none)
      | some next =>
        if next = LF then some (reader.advance 2, some (reader.consumed - startConsumed))
        else tryReadLineFrom startConsumed fuel (reader.advance 1)

/-- `TryReadLine` -/
def tryReadLine (fuel : ℕ) (reader : SequenceReader) : Option (SequenceReader × Option ℕ) :=
  tryReadLineFrom reader.consumed fuel reader

inductive RouteType
  | unknown
  | plaintext
  | json
  deriving DecidableEq, Repr

/-- `ParseUrlFast`; it does not look at the length of the request line. -/
def parseUrlFast (sequence : List UInt8) (_requestLineLength : ℕ) : RouteType :=
  let reader : SequenceReader := ⟨sequence, 0⟩
  match reader.tryAdvanceTo space true with
  | none => .unknown
  | some reader =>
    let urlStart := reader.consumed
    match reader.tryAdvanceTo space false with
    | none => .unknown
    | some reader =>
      let urlLength := reader.consumed - urlStart
      let urlSlice := (sequence.drop urlStart).take urlLength
      if urlLength = (ascii "/plaintext").length then
        if urlSlice = ascii "/plaintext" then .plaintext else .unknown
      else if urlLength = (ascii "/json").length then
        if urlSlice = ascii "/json" then .json else .unknown
      else .unknown

/-! ### Responses -/

def plaintextPreamble : List UInt8 :=
  ascii "HTTP/1.1 200 OK\r\nServer: T\r\nContent-Type: text/plain\r\nContent-Length: 13"

def jsonPreamble : List UInt8 :=
  ascii "HTTP/1.1 200 OK\r\nServer: T\r\nContent-Type: application/json\r\nContent-Length: 27"

def plainTextBody : List UInt8 := ascii "Hello, World!"

def jsonBody : List UInt8 := ascii "\x7b\"message\":\"Hello, World!\"\x7d"

/-- The bytes `WriteResponseSync` writes. -/
def writeResponseSync (dateHeader : List UInt8) : RouteType → List UInt8
  | .plaintext => plaintextPreamble ++ dateHeader ++ plainTextBody
  | .json => jsonPreamble ++ dateHeader ++ jsonBody
  | .unknown => []

/-! ### Requests -/

/-- The inner loop of `ProcessRequests`: whether the headers are complete. -/
def readHeaders (headersStartConsumed : ℕ) : ℕ → SequenceReader → Option (SequenceReader × Bool)
  | 0, _ => none
  | fuel + 1, seqReader =>
    if seqReader.atEnd then some (seqReader, false)
    else
      match tryReadLine fuel seqReader with
      | none => none
      | some (seqReader, none) =>
        some (seqReader.rewind (seqReader.consumed - headersStartConsumed), false)
      | some (seqReader, some headerLength) =>
        if headerLength = 0 then some (seqReader, true)
        else readHeaders headersStartConsumed fuel seqReader

/-- What `ProcessRequests` has consumed, written and counted. -/
structure Processed where
  totalConsumed : ℕ := 0
  written : List UInt8 := []
  responseCount : ℕ := 0

/-- The outer loop of `ProcessRequests`. -/
def processRequestsFrom (dateHeader : List UInt8) : ℕ → SequenceReader → Processed → Option Processed
  | 0, _, _ => none
  | fuel + 1, seqReader, done =>
    if seqReader.atEnd then some done
    else
      let startConsumed := seqReader.consumed
      match tryReadLine fuel seqReader with
      | none => none
      | some (_, none) => some done
      | some (seqReader, some requestLineLength) =>
        match readHeaders seqReader.consumed fuel seqReader with
        | none => none
        | some (_, false) => some done
        | some (seqReader, true) =>
          let routeType := parseUrlFast (seqReader.buffer.drop startConsumed) (requestLineLength + 2)
          processRequestsFrom dateHeader fuel seqReader
            { totalConsumed := done.totalConsumed + (seqReader.consumed - startConsumed)
              written := done.written ++ writeResponseSync dateHeader routeType
              responseCount := done.responseCount + 1 }

/-- `ProcessRequests` -/
def processRequests (dateHeader : List UInt8) (fuel : ℕ) (buffer : List UInt8) : Option Processed :=
  processRequestsFrom dateHeader fuel ⟨buffer, 0⟩ {}

/-- The bytes in the pipe that are not consumed, and the bytes written. -/
structure Session where
  unconsumed : List UInt8 := []
  written : List UInt8 := []

/-- One round of `ReceiveLoopAsync`: the pipe hands back the unconsumed bytes and new ones. -/
def Session.receive (dateHeader : List UInt8) (fuel : ℕ) (session : Session) (new : List UInt8) :
    Option Session :=
  let buffer := session.unconsumed ++ new
  (processRequests dateHeader fuel buffer).map fun done =>
    { unconsumed := buffer.drop done.totalConsumed
      written := session.written ++ done.written }

/-- `ReceiveLoopAsync` over the new bytes of each read. -/
def receiveLoop (dateHeader : List UInt8) (fuel : ℕ) (reads : List (List UInt8)) : Option Session :=
  reads.foldlM (Session.receive dateHeader fuel) {}

end FrameworkBenchmarks.TouchSocket
