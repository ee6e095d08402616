import FrameworkBenchmarks.Common.Bytes

/-!
# The bare userver connection

`SimpleRouter` finds the handler of a url, and `SimpleConnection::Process` feeds the bytes it receives to
llhttp, collects the responses and sends them at the end of each piece. Bytes are lists. llhttp enters as
the callbacks it makes at each byte, and the handlers as the bodies they return.
-/

namespace FrameworkBenchmarks.Userver

open Common

/-! ### Query parameters -/

/-- `std::from_chars` of digits into an `int`. -/
def fromChars (digits : List UInt8) : Option ℕ :=
  let value := digits.foldl (fun n c => n * 10 + (c.toNat - 48)) 0
  if value ≤ 2147483647 then some value else none

/-- `ParseFromQueryVal`, of digits. -/
def parseFromQueryVal (queryVal : List UInt8) : ℕ :=
  if queryVal.isEmpty then 1
  else
    match fromChars queryVal with
    | none => 1
    | some parseResult => min 500 (max 1 parseResult)

/-- What `RouteRequest` throws: its own error, or `std::out_of_range` from `substr`. -/
inductive RouteError
  | noHandler
  | outOfRange
  deriving DecidableEq, Repr

/-- `ParseParamFromQuery` -/
def parseParamFromQuery (url name : List UInt8) : Except RouteError ℕ :=
  match find url name with
  | none => .ok 1
  | some pos =>
    let pos := pos + name.length + 1
    let len := ((url.drop pos).takeWhile isDigit).length
    if url.length < pos then .error .outOfRange
    else .ok (parseFromQueryVal ((url.drop pos).take len))

/-! ### Router -/

/-- `SimpleResponse` -/
structure SimpleResponse where
  body : List UInt8
  contentType : List UInt8

/-- What `GetResponse` of each handler returns. -/
structure Handlers where
  plaintext : List UInt8
  json : List UInt8
  singleQuery : List UInt8
  multipleQueries : ℕ → List UInt8
  updates : ℕ → List UInt8
  cachedQueries : ℕ → List UInt8
  fortunes : List UInt8

def kPlainTextUrlPrefix : List UInt8 := ascii "/plaintext"

def kJsonUrlPrefix : List UInt8 := ascii "/json"

def kSingleQueryUrlPrefix : List UInt8 := ascii "/db"

def kMultipleQueriesUrlPrefix : List UInt8 := ascii "/queries"

def kUpdatesUrlPrefix : List UInt8 := ascii "/updates"

def kCachedQueriesUrlPrefix : List UInt8 := ascii "/cached-queries"

def kFortunesUrlPrefix : List UInt8 := ascii "/fortunes"

def kContentTypePlain : List UInt8 := ascii "text/plain"

def kContentTypeJson : List UInt8 := ascii "application/json"

def kContentTypeTextHtml : List UInt8 := ascii "text/html; charset=utf-8"

/-- `StartsWith` -/
def startsWith (source pattern : List UInt8) : Bool := source.take pattern.length == pattern

/-- `SimpleRouter::RouteRequest` -/
def routeRequest (handlers : Handlers) (url : List UInt8) : Except RouteError SimpleResponse :=
  if startsWith url kPlainTextUrlPrefix then .ok ⟨handlers.plaintext, kContentTypePlain⟩
  else if startsWith url kJsonUrlPrefix then .ok ⟨handlers.json, kContentTypeJson⟩
  else if startsWith url kSingleQueryUrlPrefix then .ok ⟨handlers.singleQuery, kContentTypeJson⟩
  else if startsWith url kMultipleQueriesUrlPrefix then
    (parseParamFromQuery (url.drop kMultipleQueriesUrlPrefix.length) (ascii "queries")).map fun queries =>
      ⟨handlers.multipleQueries queries, kContentTypeJson⟩
  else if startsWith url kUpdatesUrlPrefix then
    -- the source takes the length of the other prefix, which is the same
    (parseParamFromQuery (url.drop kMultipleQueriesUrlPrefix.length) (ascii "queries")).map fun queries =>
      ⟨handlers.updates queries, kContentTypeJson⟩
  else if startsWith url kCachedQueriesUrlPrefix then
    (parseParamFromQuery (url.drop kCachedQueriesUrlPrefix.length) (ascii "count")).map fun count =>
      ⟨handlers.cachedQueries count, kContentTypeJson⟩
  else if startsWith url kFortunesUrlPrefix then .ok ⟨handlers.fortunes, kContentTypeTextHtml⟩
  else .error .noHandler

/-! ### Response buffers -/

/-- `ResponseBuffers::Response` -/
structure Response where
  headers : List UInt8
  body : List UInt8

def Response.bytes (response : Response) : List UInt8 := response.headers ++ response.body

/-- `ResponseBuffers`, and what the socket has been sent. -/
structure ResponseBuffers where
  responses : List Response := []
  sent : List UInt8 := []

def kMaxResponses : ℕ := 16

/-- `ResponseBuffers::Send` -/
def ResponseBuffers.send (buffers : ResponseBuffers) : ResponseBuffers :=
  { responses := [], sent := buffers.sent ++ buffers.responses.flatMap Response.bytes }

/-- `ResponseBuffers::Next` -/
def ResponseBuffers.next (buffers : ResponseBuffers) (response : Response) : ResponseBuffers :=
  let buffers := if buffers.responses.length = kMaxResponses then buffers.send else buffers
  { buffers with responses := buffers.responses ++ [response] }

def kCommonHeaders : List UInt8 := ascii "HTTP/1.1 200 OK\r\nServer: us\r\n"

def kHeadersEnd : List UInt8 := ascii "\r\n\r\n"

/-- The headers that `handle_request` appends. -/
def responseHeaders (date : List UInt8) (response : SimpleResponse) : List UInt8 :=
  kCommonHeaders ++ ascii "Content-Type: " ++ response.contentType ++ ascii "\r\nContent-Length: " ++
    ascii (toString response.body.length) ++ ascii "\r\nDate: " ++ date ++ kHeadersEnd

/-! ### Connections -/

/-- A call that llhttp makes. -/
inductive Callback
  | onMessageBegin
  | onUrl (data : List UInt8)
  | onMessageComplete
  deriving DecidableEq, Repr

/-- llhttp over its states: the calls it makes at a byte, and its next state unless it reports an error
there. -/
structure Llhttp (σ : Type) where
  init : σ
  execute : σ → UInt8 → List Callback × Option σ

/-- `HttpParser` -/
structure HttpParser (σ : Type) where
  parser : σ
  url : List UInt8 := []

section

variable {σ : Type} (llhttp : Llhttp σ) (handlers : Handlers) (date : List UInt8)

/-- `handle_request`; an exception leaves the buffers as they are. -/
def handleRequest (buffers : ResponseBuffers) (url : List UInt8) :
    Except ResponseBuffers ResponseBuffers :=
  match routeRequest handlers url with
  | .error _ => .error buffers
  | .ok response => .ok (buffers.next ⟨responseHeaders date response, response.body⟩)

/-- `HttpOnMessageBegin`, `HttpOnUrl` and `HttpOnMessageComplete` -/
def onCallback (state : HttpParser σ × ResponseBuffers) :
    Callback → Except ResponseBuffers (HttpParser σ × ResponseBuffers)
  | .onMessageBegin => .ok ({ state.1 with url := [] }, state.2)
  | .onUrl data => .ok ({ state.1 with url := state.1.url ++ data }, state.2)
  | .onMessageComplete => (handleRequest handlers date state.2 state.1.url).map fun buffers =>
      (state.1, buffers)

/-- `llhttp_execute` at one byte. -/
def executeByte (state : HttpParser σ × ResponseBuffers) (byte : UInt8) :
    Except ResponseBuffers (HttpParser σ × ResponseBuffers) :=
  let (callbacks, parser) := llhttp.execute state.1.parser byte
  match callbacks.foldlM (onCallback handlers date) state with
  | .error buffers => .error buffers
  | .ok state =>
    match parser with
    | none => .error state.2
    | some parser => .ok ({ state.1 with parser := parser }, state.2)

/-- `Execute`: an error or an exception ends the connection. -/
def execute (state : HttpParser σ × ResponseBuffers) (data : List UInt8) :
    Except ResponseBuffers (HttpParser σ × ResponseBuffers) :=
  data.foldlM (executeByte llhttp handlers date) state

/-- The loop of `SimpleConnection::Process` over the pieces that `RecvSome` returns. -/
def processFrom : HttpParser σ × ResponseBuffers → List (List UInt8) → ResponseBuffers
  | state, [] => state.2
  | state, data :: pieces =>
    match execute llhttp handlers date state data with
    | .error buffers => buffers
    | .ok state => processFrom (state.1, state.2.send) pieces

/-- The bytes `SimpleConnection::Process` sends. -/
def process (pieces : List (List UInt8)) : List UInt8 :=
  (processFrom llhttp handlers date (⟨llhttp.init, []⟩, {}) pieces).sent

def kBufferSize : ℕ := 4096

/-- What `RecvSome` can return before the end of the stream. -/
def IsPiece (data : List UInt8) : Prop := data ≠ [] ∧ data.length ≤ kBufferSize

end

end FrameworkBenchmarks.Userver
