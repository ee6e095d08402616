import FrameworkBenchmarks.Common.Lines
import Mathlib.Data.Int.Notation

/-!
# The beetlex connection handler

`Receive` cuts the lines off what has arrived, queues the requests, and starts `OnStartRequest`, which
serves the queue and is suspended at each database call that has not completed. The write stream is the
list of bytes written to it. A handler's exception leaves its loop; what becomes of it is up to the server
package. The database is given by what each of its calls returns, and the date header by its bytes.
-/

namespace FrameworkBenchmarks.BeetleX

open Common

/-! ### Requests -/

/-- `ActionType` -/
inductive ActionType
  | plaintext
  | json
  | db
  | queries
  | caching
  | updates
  | fortunes
  | other
  deriving DecidableEq, Repr

/-- `RequestData` -/
structure RequestData where
  action : Option ActionType := none
  queryString : Option (List UInt8) := none
  deriving DecidableEq, Repr

/-- `PositionOf` -/
def positionOf (sequence : List UInt8) (value : UInt8) : Option ℕ := sequence.findIdx? (· = value)

/-- The second half of `AnalysisAction`: the type and the query string of a url. -/
def analysisUrl (url : List UInt8) : ActionType × Option (List UInt8) :=
  let (baseUrl, queryString) :=
    match positionOf url 63 with
    | some baseUrlLen => (url.take baseUrlLen, some (url.drop (baseUrlLen + 1)))
    | none => (url, none)
  let type :=
    if baseUrl.length = (ascii "/plaintext").length ∧ baseUrl[1]? = some 112 then .plaintext
    else if baseUrl.length = (ascii "/json").length ∧ baseUrl[1]? = some 106 then .json
    else if baseUrl = ascii "/db" then .db
    else if baseUrl = ascii "/queries" then .queries
    else if baseUrl = ascii "/cached-worlds" then .caching
    else if baseUrl = ascii "/updates" then .updates
    else if baseUrl = ascii "/fortunes" then .fortunes
    else .other
  (type, queryString)

/-- `AnalysisAction`; there is no result when a space is missing, since the code then reads the value of a
null position. -/
def analysisAction (line : List UInt8) : Option (ActionType × Option (List UInt8)) :=
  (positionOf line 32).bind fun position =>
    let line := line.drop (position + 1)
    (positionOf line 32).map fun position => analysisUrl (line.take position)

/-- `int.TryParse`: white space, a sign, digits, white space and null characters. -/
def tryParse (s : List UInt8) : Option ℤ :=
  let isWhite (c : UInt8) : Bool := c = 32 ∨ 9 ≤ c ∧ c ≤ 13
  let s := s.dropWhile isWhite
  let (negative, s) :=
    match s with
    | 45 :: s => (true, s)
    | 43 :: s => (false, s)
    | s => (false, s)
  let digits := s.takeWhile isDigit
  let rest := (s.dropWhile isDigit).dropWhile isWhite
  let magnitude : ℤ := digits.foldl (fun n c => n * 10 + (c.toNat - 48 : ℕ)) 0
  let value := if negative then -magnitude else magnitude
  if digits = [] ∨ rest.any (· ≠ 0) ∨ value < -2147483648 ∨ 2147483647 < value then none else some value

/-- The number of rows that a query string asks for. -/
def queryCount (queryString : Option (List UInt8)) : ℤ :=
  let count :=
    match queryString with
    | none => 1
    | some queryString =>
      match queryString.splitOn 61 with
      | _ :: value :: _ => (tryParse value).getD 1
      | _ => 1
  if count > 500 then 500 else if count < 1 then 1 else count

/-! ### Database -/

/-- `World` and `CachedWorld` -/
structure World where
  id : ℤ
  randomNumber : ℤ

/-- `Fortune`, its message as the HTML encoder writes it. -/
structure Fortune where
  id : ℤ
  message : List UInt8

/-- What the calls of the database return, by the number of the call. -/
structure RawDb where
  /-- whether the call has completed when it is awaited -/
  completed : ℕ → Bool
  /-- the message of the exception, if the call fails -/
  failure : ℕ → Option (List UInt8)
  loadSingleQueryRow : ℕ → World
  loadMultipleQueriesRows : ℕ → ℤ → List World
  loadMultipleUpdatesRows : ℕ → ℤ → List World
  loadCachedQueries : ℕ → ℤ → List World
  loadFortunesRows : ℕ → List Fortune

/-! ### Responses -/

def plaintextPreamble : List UInt8 :=
  ascii "HTTP/1.1 200 OK\r\nServer: B\r\nContent-Type: text/plain\r\nContent-Length: 13\r\n"

def plainTextBody : List UInt8 := ascii "Hello, World!"

def jsonPreamble : List UInt8 :=
  ascii "HTTP/1.1 200 OK\r\nServer: B\r\nContent-Type: application/json\r\nContent-Length: 27\r\n"

def jsonBody : List UInt8 := ascii "\x7b\"message\":\"Hello, World!\"\x7d"

def jsonResultPreamble : List UInt8 :=
  ascii "HTTP/1.1 200 OK\r\nContent-Type: application/json\r\nServer: B\r\n"

def htmlResultPreamble : List UInt8 :=
  ascii "HTTP/1.1 200 OK\r\nContent-Type: text/html; charset=UTF-8\r\nServer: B\r\n"

/-- `ContentLengthMemory.Full` of the 28 bytes that are reserved. -/
def contentLength (length : ℕ) : List UInt8 :=
  let text := ascii (toString length)
  ascii "Content-Length: " ++ text ++ List.replicate (10 - text.length) 32 ++ [13, 10]

/-- A response whose length is filled in behind its body. -/
def measured (preamble date body : List UInt8) : List UInt8 :=
  preamble ++ contentLength body.length ++ date ++ body

def worldJson (world : World) : List UInt8 :=
  ascii "\x7b\"Id\":" ++ ascii (toString world.id) ++ ascii ",\"RandomNumber\":" ++
    ascii (toString world.randomNumber) ++ ascii "\x7d"

def worldsJson (worlds : List World) : List UInt8 :=
  ascii "[" ++ (ascii ",").intercalate (worlds.map worldJson) ++ ascii "]"

def fortuneRow (fortune : Fortune) : List UInt8 :=
  ascii "<tr><td>" ++ ascii (toString fortune.id) ++ ascii "</td><td>" ++ fortune.message ++
    ascii "</td></tr>"

def fortunesHtml (fortunes : List Fortune) : List UInt8 :=
  ascii "<!DOCTYPE html><html><head><title>Fortunes</title></head><body><table><tr><th>id</th><th>message</th></tr>" ++
    fortunes.flatMap fortuneRow ++ ascii "</table></body></html>"

def plaintext (date : List UInt8) : List UInt8 := plaintextPreamble ++ date ++ plainTextBody

def json (date : List UInt8) : List UInt8 := jsonPreamble ++ date ++ jsonBody

/-- `Default` -/
def notFound (date : List UInt8) : List UInt8 :=
  measured jsonResultPreamble date (ascii "<b> beetlex server</b><hr/>path not found!")

/-- `db`; what the JSON writer holds besides is never flushed. -/
def db (rawDb : RawDb) (date : List UInt8) (call : ℕ) : List UInt8 :=
  measured jsonResultPreamble date (worldJson (rawDb.loadSingleQueryRow call))

def queries (rawDb : RawDb) (date : List UInt8) (call : ℕ) (queryString : Option (List UInt8)) :
    List UInt8 :=
  measured jsonResultPreamble date
    (worldsJson (rawDb.loadMultipleQueriesRows call (queryCount queryString)))

def caching (rawDb : RawDb) (date : List UInt8) (call : ℕ) (queryString : Option (List UInt8)) :
    List UInt8 :=
  measured jsonResultPreamble date (worldsJson (rawDb.loadCachedQueries call (queryCount queryString)))

def updates (rawDb : RawDb) (date : List UInt8) (call : ℕ) (queryString : Option (List UInt8)) :
    List UInt8 :=
  measured jsonResultPreamble date
    (worldsJson (rawDb.loadMultipleUpdatesRows call (queryCount queryString)))

def fortunes (rawDb : RawDb) (date : List UInt8) (call : ℕ) : List UInt8 :=
  measured htmlResultPreamble date (fortunesHtml (rawDb.loadFortunesRows call))

/-- What a request does: it is answered at once, or awaits a database call and then is answered. -/
inductive Work
  | answer (bytes : List UInt8)
  | await (bytes : ℕ → List UInt8)

/-- The branches of `OnStartRequest`. -/
def work (rawDb : RawDb) (date : List UInt8) (queryString : Option (List UInt8)) : ActionType → Work
  | .plaintext => .answer (plaintext date)
  | .json => .answer (json date)
  | .db => .await (db rawDb date)
  | .queries => .await fun call => queries rawDb date call queryString
  | .caching => .await fun call => caching rawDb date call queryString
  | .updates => .await fun call => updates rawDb date call queryString
  | .fortunes => .await (fortunes rawDb date)
  | .other => .answer (notFound date)

/-! ### Handler -/

/-- `HttpHandler`: the bytes not read, the fields, the requests of the suspended calls by their numbers,
the number of calls made, and the bytes written and flushed. -/
structure HttpHandler where
  unread : List UInt8 := []
  readRequest : Option RequestData := none
  requests : List (Option RequestData) := []
  suspended : List (ℕ × (ℕ → List UInt8)) := []
  calls : ℕ := 0
  written : List UInt8 := []
  flushed : List UInt8 := []

namespace HttpHandler

def write (handler : HttpHandler) (bytes : List UInt8) : HttpHandler :=
  { handler with written := handler.written ++ bytes }

/-- `IndexOf` of a line end: the length of the prefix up to and including it. -/
def indexOfLine (unread : List UInt8) : Option ℕ := (find unread lineEnd).map (· + 2)

/-- The loop of `Receive`; an exception leaves it. -/
def readLines : ℕ → HttpHandler → Except HttpHandler HttpHandler
  | 0, handler => .ok handler
  | fuel + 1, handler =>
    match indexOfLine handler.unread with
    | none => .ok handler
    | some length =>
      let lendata := handler.unread.take length
      let handler := { handler with unread := handler.unread.drop length }
      if lendata.length = 2 then
        readLines fuel { handler with
          requests := handler.requests ++ [handler.readRequest]
          readRequest := none }
      else
        let request := handler.readRequest.getD {}
        if request.action = none then
          match analysisAction lendata with
          | none => .error { handler with readRequest := some request }
          | some (type, queryString) =>
            readLines fuel { handler with readRequest := some ⟨some type, queryString⟩ }
        else readLines fuel { handler with readRequest := some request }

section

variable (rawDb : RawDb) (date : List UInt8)

/-- The end of a handler whose call has completed. When the call has failed, the message is written, and
filling in the length at no place throws, which leaves the loop. -/
def answered (handler : HttpHandler) (call : ℕ) (bytes : ℕ → List UInt8) :
    Except HttpHandler HttpHandler :=
  match rawDb.failure call with
  | some message => .error (handler.write message)
  | none => .ok (handler.write (bytes call))

/-- The loop of `OnStartRequest` over the queue, up to where it is suspended. A null request or action
throws. -/
def serve : List (Option RequestData) → HttpHandler → HttpHandler
  | [], handler => { handler with requests := [], flushed := handler.written }
  | data :: requests, handler =>
    match data with
    | some ⟨some action, queryString⟩ =>
      match work rawDb date queryString action with
      | .answer bytes => serve requests (handler.write bytes)
      | .await bytes =>
        let call := handler.calls
        let handler := { handler with calls := call + 1 }
        if rawDb.completed call then
          match handler.answered rawDb call bytes with
          | .error handler => { handler with requests := requests }
          | .ok handler => serve requests handler
        else { handler with requests := requests, suspended := handler.suspended ++ [(call, bytes)] }
    | _ => { handler with requests := requests }

/-- `OnStartRequest` -/
def onStartRequest (handler : HttpHandler) : HttpHandler := handler.serve rawDb date handler.requests

/-- `Receive`, of new bytes. -/
def receive (handler : HttpHandler) (bytes : List UInt8) : HttpHandler :=
  let handler := { handler with unread := handler.unread ++ bytes }
  match handler.readLines (handler.unread.length + 1) with
  | .error handler => handler
  | .ok handler => if handler.requests.length > 0 then handler.onStartRequest rawDb date else handler

/-- What happens on a connection. -/
inductive Event
  | received (bytes : List UInt8)
  | completed (call : ℕ)

/-- A suspended call completes: its handler goes on, and the loop behind it. -/
def complete (handler : HttpHandler) (call : ℕ) : Option HttpHandler :=
  (handler.suspended.find? fun awaited => awaited.1 = call).map fun awaited =>
    let handler := { handler with
      suspended := handler.suspended.filter fun other => other.1 ≠ call }
    match handler.answered rawDb call awaited.2 with
    | .error handler => handler
    | .ok handler => handler.onStartRequest rawDb date

def next (handler : HttpHandler) : Event → Option HttpHandler
  | .received bytes => some (handler.receive rawDb date bytes)
  | .completed call => handler.complete rawDb date call

end

end HttpHandler

end FrameworkBenchmarks.BeetleX
