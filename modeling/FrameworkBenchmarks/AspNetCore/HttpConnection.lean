import FrameworkBenchmarks.AspNetCore.MultipleQueries

/-!
# Connections of the platform

`ProcessRequestsAsync` answers the requests of a connection. `HandleRequests` answers the plaintext and JSON requests of
a read with one buffer writer; a request of another kind ends it, and is answered by a handler of its own. What a
request line says is taken from the parser, and what the handlers answer from the database.
-/

namespace FrameworkBenchmarks.AspNetCore

open FrameworkBenchmarks.Common

inductive RequestType where
  | notRecognized
  | plainText
  | json
  | fortunesRaw
  | singleQuery
  | caching
  | updates
  | multipleQueries
  deriving DecidableEq

inductive State where
  | startLine
  | headers
  | body
  deriving DecidableEq

/-- The parts of a request line, and `Utf8Parser.TryParse`. -/
structure Parser where
  isGet : List UInt8 → Bool
  path : List UInt8 → List UInt8
  tryParse : List UInt8 → Option ℤ

/-- What the handlers answer, some of them for a number of queries. -/
structure Handlers where
  fortunesRaw : List UInt8
  singleQuery : List UInt8
  caching : ℤ → List UInt8
  updates : ℤ → List UInt8
  multipleQueries : ℤ → List UInt8

structure Connection where
  state : State
  requestType : RequestType
  queries : ℤ

def Connection.new : Connection := ⟨.startLine, .notRecognized, 0⟩

variable (parser : Parser) (handlers : Handlers) (spans : Spans) (date : HttpDate)

/-! ### Request lines -/

def parseQueries (parameter : List UInt8) : ℤ :=
  match parser.tryParse parameter with
  | none => 1
  | some queries => max 1 (min queries 500)

/-- `GetRequestType`, which leaves the number of queries as it is for the other paths. -/
def getRequestType (path : List UInt8) (queries : ℤ) : RequestType × ℤ :=
  if path = ascii "/plaintext" then (.plainText, queries)
  else if path = ascii "/json" then (.json, queries)
  else if path = ascii "/db" then (.singleQuery, queries)
  else if ascii "/fortunes" <+: path then (.fortunesRaw, queries)
  else if ascii "/cached-worlds/" <+: path then (.caching, parseQueries parser (path.drop 15))
  else if ascii "/updates/" <+: path then (.updates, parseQueries parser (path.drop 9))
  else if ascii "/queries/" <+: path then (.multipleQueries, parseQueries parser (path.drop 9))
  else (.notRecognized, queries)

def onStartLine (line : List UInt8) (connection : Connection) : Connection :=
  let (requestType, queries) :=
    if parser.isGet line then getRequestType parser (parser.path line) connection.queries
    else (.notRecognized, connection.queries)
  { connection with requestType := requestType, queries := queries }

/-! ### Parsing -/

/-- `ParseHeaders`: whether the empty line has been read, and the bytes behind the complete lines. -/
def parseHeaders : ℕ → List UInt8 → Bool × List UInt8
  | 0, unread => (false, unread)
  | fuel + 1, unread =>
    match splitLine unread with
    | none => (false, unread)
    | some ([], rest) => (true, rest)
    | some (_ :: _, rest) => parseHeaders fuel rest

def readStartLine (connection : Connection) (unread : List UInt8) : Connection × List UInt8 :=
  if connection.state = .startLine then
    match splitLine unread with
    | none => (connection, unread)
    | some (line, rest) => ({ onStartLine parser line connection with state := .headers }, rest)
  else (connection, unread)

def readHeaders (connection : Connection) (unread : List UInt8) : Connection × List UInt8 :=
  if connection.state = .headers then
    match parseHeaders (unread.length + 1) unread with
    | (true, rest) => ({ connection with state := .body }, rest)
    | (false, rest) => (connection, rest)
  else (connection, unread)

/-- `ParseHttpRequest`, which throws where the data ends within a request. -/
def parseHttpRequest (isCompleted : Bool) (connection : Connection) (unread : List UInt8) :
    Option (Connection × List UInt8) :=
  let (connection, unread) := readStartLine parser connection unread
  let (connection, unread) := readHeaders connection unread
  if connection.state ≠ .body ∧ isCompleted then none else some (connection, unread)

/-! ### Answers -/

def plaintextPreamble : List UInt8 :=
  ascii "HTTP/1.1 200 OK\r\nServer: K\r\nContent-Type: text/plain\r\nContent-Length: 13"

def plainTextBody : List UInt8 := ascii "Hello, World!"

def jsonPreamble : List UInt8 :=
  ascii "HTTP/1.1 200 OK\r\nServer: K\r\nContent-Type: application/json\r\nContent-Length: 27"

def jsonBody : List UInt8 := ascii "\x7b\"message\":\"Hello, World!\"\x7d"

def defaultPreamble : List UInt8 :=
  ascii "HTTP/1.1 200 OK\r\nServer: K\r\nContent-Type: text/plain\r\nContent-Length: 0"

def plainText (writer : BufferWriter) (pipe : Pipe) : BufferWriter × Pipe :=
  let (writer, pipe) := writer.write spans plaintextPreamble pipe
  let (writer, pipe) := writer.write spans date.headerBytes pipe
  writer.write spans plainTextBody pipe

/-- The serialiser writes the body to the pipe, and not to the writer. -/
def json (writer : BufferWriter) (pipe : Pipe) : BufferWriter × Pipe :=
  let (writer, pipe) := writer.write spans jsonPreamble pipe
  let (writer, pipe) := writer.write spans date.headerBytes pipe
  let (writer, pipe) := writer.commit pipe
  (writer, pipe.append jsonBody)

/-- `ProcessRequest`, for the requests that are answered at once. -/
def processRequest (requestType : RequestType) (writer : BufferWriter) (pipe : Pipe) : Option (BufferWriter × Pipe) :=
  if requestType = .plainText then some (plainText spans date writer pipe)
  else if requestType = .json then some (json spans date writer pipe)
  else none

/-- What the handler of `ProcessRequestAsync` writes. -/
def answer (connection : Connection) : List UInt8 :=
  match connection.requestType with
  | .fortunesRaw => handlers.fortunesRaw
  | .singleQuery => handlers.singleQuery
  | .caching => handlers.caching connection.queries
  | .updates => handlers.updates connection.queries
  | .multipleQueries => handlers.multipleQueries connection.queries
  | _ => defaultPreamble ++ date.headerBytes

/-! ### Requests -/

/-- What a call of `HandleRequests` leaves, whether it has answered all that it has parsed, and the kinds of these
requests. -/
structure Batch where
  connection : Connection
  unread : List UInt8
  pipe : Pipe
  answered : Bool
  types : List RequestType

/-- The loop of `HandleRequests`. -/
def handleLoop (isCompleted : Bool) : ℕ → Connection → List UInt8 → BufferWriter → Pipe → Option Batch
  | 0, _, _, _, _ => none
  | fuel + 1, connection, unread, writer, pipe => do
    let (connection, unread) ← parseHttpRequest parser isCompleted connection unread
    if connection.state = .body then
      match processRequest spans date connection.requestType writer pipe with
      | none => return ⟨connection, unread, pipe, false, [connection.requestType]⟩
      | some (writer, pipe) =>
        let connection := { connection with state := .startLine }
        if unread ≠ [] then
          let batch ← handleLoop isCompleted fuel connection unread writer pipe
          return { batch with types := connection.requestType :: batch.types }
        else return ⟨connection, unread, (writer.commit pipe).2, true, [connection.requestType]⟩
    else return ⟨connection, unread, (writer.commit pipe).2, true, []⟩

/-- A read of the buffer, and `HandleRequestAsync` for a request that is not answered yet. -/
def handleRead (isCompleted : Bool) (connection : Connection) (buffer : List UInt8) (pipe : Pipe) : Option Batch := do
  let batch ← handleLoop parser spans date isCompleted (buffer.length + 1) connection buffer
    (BufferWriter.new spans pipe (160 * 16)) pipe
  if batch.answered then return batch
  else return { batch with
    connection := { batch.connection with state := .startLine }
    pipe := batch.pipe.append (answer handlers date batch.connection) }

/-- `ProcessRequestsAsync` for the pieces in which the bytes arrive, where the last piece may be known to be the last. It
returns the pipe, and the kinds of the requests in each read. -/
def processRequestsAsync (early : Bool) : ℕ → List (List UInt8) → Connection → List UInt8 → Pipe →
    Option (Pipe × List (List RequestType))
  | 0, _, _, _, _ => none
  | fuel + 1, reads, connection, unread, pipe => do
    let isCompleted := reads.isEmpty || (early && reads.length == 1)
    let buffer := unread ++ reads.head?.getD []
    if buffer = [] ∧ isCompleted then return (pipe, [])
    else
      let batch ← handleRead parser handlers spans date isCompleted connection buffer pipe
      let (pipe, batches) ← processRequestsAsync early fuel reads.tail batch.connection batch.unread batch.pipe
      return (pipe, batch.types :: batches)

end FrameworkBenchmarks.AspNetCore
