import Mathlib
import FrameworkBenchmarks.H2o.Database

/-!
# The handlers of several world queries

`/queries`, `/updates` and `/cached-worlds` of the h2o server: one context for all the sub-queries of
a request, as `world.c` keeps it. Random numbers, the cache, the JSON generator and the database
client's verdict on a submission are answered by the environment.
-/

namespace FrameworkBenchmarks.H2o.World

open Common Scripted

def MAX_QUERIES : ℕ := 500

def WORLD_TABLE_NAME : String := "World"

def UPDATE_QUERY_NAME_PREFIX : String := WORLD_TABLE_NAME ++ "Update"

def DB_REQ_ERROR : String := "too many concurrent database requests\n"

def REQ_ERROR : String := "request error\n"

def INTERNAL_SERVER_ERROR : ℕ := 500

def BAD_GATEWAY : ℕ := 502

def GATEWAY_TIMEOUT : ℕ := 504

/-- `query_result_t`, in host byte order -/
structure QueryResult where
  id : ℕ
  randomNumber : ℕ
deriving DecidableEq

/-- The `on_result` callbacks of a sub-query. -/
inductive OnResult where
  | onMultipleQueryResult
  | onUpdateResult
deriving DecidableEq

/-- `query_param_t`: what is sent, and who takes the result. -/
structure QueryParam where
  command : String
  paramValues : List ℕ
  onResult : OnResult
deriving DecidableEq

/-- `multiple_query_ctx_t`, with a field for each flag -/
structure MultipleQueryCtx where
  /-- whether it holds a JSON generator -/
  gen : Bool
  queryParam : List QueryParam
  numQuery : ℕ
  numQueryInProgress : ℕ
  numResult : ℕ
  doUpdate : Bool
  useCache : Bool
  doCleanup : Bool
  isCompleted : Bool
  res : List QueryResult
deriving DecidableEq

/-- What a request is answered with. -/
inductive Response where
  | items (res : List QueryResult)
  | error (status : ℕ) (body : String)
  | serviceUnavailable (body : String)
deriving DecidableEq

/-- A request, its context and the sub-queries that the database client holds. -/
structure Request where
  config : Config
  ctx : MultipleQueryCtx
  /-- the elements of `query_param` that were accepted and got no terminal callback yet -/
  outstanding : List ℕ
  /-- how often the context was freed -/
  frees : ℕ
  /-- whether that happened before the disposal or while a sub-query was outstanding -/
  freedEarly : Bool
  /-- whether the context was read or written after that -/
  usedAfterFree : Bool
  /-- whether the request was disposed -/
  disposed : Bool
  responses : List Response
  /-- whether a response was sent after the disposal -/
  sentLate : Bool

/-- The answers of the environment. -/
inductive Answer where
  /-- the ids that `initialize_ids` draws -/
  | ids (ids : List ℕ)
  /-- the table that `fetch_from_cache` finds -/
  | cached (table : Option (ℕ → ℕ))
  /-- whether `execute_database_query` accepts a query -/
  | accepts (ok : Bool)
  /-- whether `get_json_generator` returns one -/
  | generator (found : Bool)
  /-- whether the items could be serialized and handed over -/
  | serialized (ok : Bool)
  /-- the results of `get_random_number` -/
  | randomNumbers (numbers : List ℕ)

abbrev Handler := Scripted Request Answer

def initializeIds (numQuery : ℕ) : Handler (List ℕ) :=
  expect fun
    | .ids ids => if ids.length = numQuery then some ids else none
    | _ => none

def h2oCacheFetch : Handler (Option (ℕ → ℕ)) :=
  expect fun
    | .cached table => some table
    | _ => none

def getJsonGenerator : Handler Bool :=
  expect fun
    | .generator found => some found
    | _ => none

def sendJsonResponse : Handler Bool :=
  expect fun
    | .serialized ok => some ok
    | _ => none

def getRandomNumbers (n : ℕ) : Handler (List ℕ) :=
  expect fun
    | .randomNumbers numbers => if numbers.length = n then some numbers else none
    | _ => none

/-- `execute_database_query` on an element of `query_param`; returns whether it failed. -/
def executeDatabaseQuery (param : ℕ) : Handler Bool := do
  let accepted ← expect fun
    | .accepts ok => some ok
    | _ => none
  if accepted then modify fun s => { s with outstanding := param :: s.outstanding }
  pure (!accepted)

/-- Read the context. -/
def getCtx : Handler MultipleQueryCtx := do
  modify fun s => { s with usedAfterFree := s.usedAfterFree || s.frees != 0 }
  let s ← get
  pure s.ctx

/-- Write to the context. -/
def modifyCtx (f : MultipleQueryCtx → MultipleQueryCtx) : Handler Unit :=
  modify fun s => { s with usedAfterFree := s.usedAfterFree || s.frees != 0, ctx := f s.ctx }

def send (response : Response) : Handler Unit :=
  modify fun s =>
    { s with responses := response :: s.responses, sentLate := s.sentLate || s.disposed }

def sendError (status : ℕ) (body : String) : Handler Unit := send (.error status body)

def sendServiceUnavailableError (body : String) : Handler Unit := send (.serviceUnavailable body)

/-- `cleanup_multiple_query` -/
def cleanupMultipleQuery : Handler Unit := do
  let _ ← getCtx
  modify fun s =>
    { s with
      frees := s.frees + 1
      freedEarly := s.freedEarly || !(s.disposed && s.outstanding.isEmpty) }

/-- `cleanup_multiple_query_request` -/
def cleanupMultipleQueryRequest : Handler Unit := do
  modifyCtx fun ctx => { ctx with isCompleted := true }
  let ctx ← getCtx
  if ctx.doCleanup then
    if ctx.numQueryInProgress = 0 then cleanupMultipleQuery
  else modifyCtx fun ctx => { ctx with doCleanup := true }

/-- `serialize_items` -/
def serializeItems : Handler Unit := do
  let ctx ← getCtx
  if ← sendJsonResponse then send (.items (ctx.res.take ctx.numResult))
  else
    modifyCtx fun ctx => { ctx with gen := false }
    sendError INTERNAL_SERVER_ERROR REQ_ERROR

/-- The end of both kinds of requests. -/
def respondWithItems : Handler Unit := do
  let found ← getJsonGenerator
  modifyCtx fun ctx => { ctx with gen := found }
  if found then serializeItems else sendError INTERNAL_SERVER_ERROR REQ_ERROR

/-- `do_updates` -/
def doUpdates : Handler Unit := do
  let ctx ← getCtx
  let suffix := toString ctx.numResult
  if suffix.length ≥ (toString MAX_QUERIES).length + 1 then
    modifyCtx fun ctx => { ctx with doCleanup := true }
    sendError INTERNAL_SERVER_ERROR REQ_ERROR
  else
    let numbers ← getRandomNumbers ctx.numResult
    let sorted := (ctx.res.take ctx.numResult).mergeSort fun x y => x.id ≤ y.id
    let res := List.zipWith (fun r number => ⟨r.id, 1 + number⟩) sorted numbers
    modifyCtx fun ctx =>
      { ctx with
        res := res
        queryParam := ctx.queryParam.set 0
          ⟨UPDATE_QUERY_NAME_PREFIX ++ suffix, res.flatMap fun r => [r.id, r.randomNumber],
            .onUpdateResult⟩ }
    if ← executeDatabaseQuery 0 then
      modifyCtx fun ctx => { ctx with doCleanup := true }
      sendServiceUnavailableError DB_REQ_ERROR
    else modifyCtx fun ctx => { ctx with numQueryInProgress := ctx.numQueryInProgress + 1 }

/-- `complete_multiple_query` -/
def completeMultipleQuery : Handler Unit := do
  let ctx ← getCtx
  if ctx.doUpdate then doUpdates
  else
    modifyCtx fun ctx => { ctx with doCleanup := true }
    respondWithItems

/-- What a sub-query does that comes after the request has been answered or disposed. -/
def cleanupIfLast : Handler Unit := do
  let ctx ← getCtx
  if ctx.numQueryInProgress = 0 ∧ ctx.isCompleted then cleanupMultipleQuery

/-- `on_multiple_query_error` and `on_multiple_query_timeout`, which differ in the status. -/
def onMultipleQueryFailure (status : ℕ) (body : String) : Handler Unit := do
  modifyCtx fun ctx => { ctx with numQueryInProgress := ctx.numQueryInProgress - 1 }
  let ctx ← getCtx
  if ctx.doCleanup then cleanupIfLast
  else
    modifyCtx fun ctx => { ctx with doCleanup := true }
    sendError status body

/-- `on_multiple_query_error` -/
def onMultipleQueryError (errorString : String) : Handler Unit :=
  onMultipleQueryFailure BAD_GATEWAY errorString

/-- `on_multiple_query_timeout` -/
def onMultipleQueryTimeout : Handler Unit :=
  onMultipleQueryFailure GATEWAY_TIMEOUT DB_TIMEOUT_ERROR

/-- A result of the database, as far as the handlers look at it. -/
inductive QueryOutcome where
  /-- `PGRES_TUPLES_OK`, with the row -/
  | tuplesOk (row : QueryResult)
  | commandOk
  | failed
deriving DecidableEq

/-- `on_multiple_query_result` -/
def onMultipleQueryResult (param : ℕ) (result : QueryOutcome) : Handler Unit := do
  modifyCtx fun ctx => { ctx with numQueryInProgress := ctx.numQueryInProgress - 1 }
  let ctx ← getCtx
  if ctx.doCleanup then cleanupIfLast
  else
    match result with
    | .tuplesOk row =>
      modifyCtx fun ctx =>
        { ctx with res := ctx.res.set ctx.numResult row, numResult := ctx.numResult + 1 }
      let ctx ← getCtx
      if ctx.numQueryInProgress < ctx.numQuery - ctx.numResult then
        let idx := ctx.numResult + ctx.numQueryInProgress
        let id := (ctx.res.getD idx ⟨0, 0⟩).id
        modifyCtx fun ctx =>
          { ctx with
            queryParam := ctx.queryParam.modify param fun p => { p with paramValues := [id] } }
        if ← executeDatabaseQuery param then
          modifyCtx fun ctx => { ctx with doCleanup := true }
          sendServiceUnavailableError DB_REQ_ERROR
        else modifyCtx fun ctx => { ctx with numQueryInProgress := ctx.numQueryInProgress + 1 }
      else if ctx.numResult = ctx.numQuery then completeMultipleQuery
      else pure ()
    | _ =>
      modifyCtx fun ctx => { ctx with doCleanup := true }
      sendError BAD_GATEWAY DB_ERROR

/-- `on_update_result` -/
def onUpdateResult (result : QueryOutcome) : Handler Unit := do
  let ctx ← getCtx
  let cleanup := ctx.doCleanup
  modifyCtx fun ctx =>
    { ctx with doCleanup := true, numQueryInProgress := ctx.numQueryInProgress - 1 }
  if cleanup then cleanupMultipleQuery
  else
    match result with
    | .commandOk => respondWithItems
    | _ => sendError BAD_GATEWAY DB_ERROR

/-- `get_query_number`, on the value that `atoi` makes of the parameter, if there is one. -/
def getQueryNumber (n : Option ℤ) : ℕ :=
  let numQuery := n.getD 0
  if numQuery < 1 then 1 else if numQuery > MAX_QUERIES then MAX_QUERIES else numQuery.toNat

/-- How many sub-queries may be in progress at a time; `size_t` is 64 bits wide. -/
def inFlightCap (config : Config) (numQuery : ℕ) : ℕ :=
  let cap := config.maxDbConnNum * config.maxPipelineQueryNum % 2 ^ 64
  if cap < config.maxDbConnNum ∨ cap < config.maxPipelineQueryNum then numQuery else min numQuery cap

/-- The loop of `do_multiple_queries` that submits the queries from an index on. -/
def submitFrom (i : ℕ) : ℕ → Handler Unit
  | 0 => pure ()
  | n + 1 => do
    if ← executeDatabaseQuery i then
      modifyCtx fun ctx => { ctx with numQueryInProgress := i, doCleanup := true }
      sendServiceUnavailableError DB_REQ_ERROR
    else submitFrom (i + 1) n

/-- The part of `do_multiple_queries` that asks the database. -/
def issueQueries (cap : ℕ) : Handler Unit := do
  modifyCtx fun ctx =>
    { ctx with numQueryInProgress := min cap (ctx.numQuery - ctx.numResult) }
  modifyCtx fun ctx =>
    { ctx with
      queryParam := (List.range ctx.numQueryInProgress).map fun i =>
        ⟨WORLD_TABLE_NAME, [(ctx.res.getD (ctx.numResult + i) ⟨0, 0⟩).id], .onMultipleQueryResult⟩ }
  let ctx ← getCtx
  submitFrom 0 ctx.numQueryInProgress

/-- `do_multiple_queries`, on a context that has just been allocated and cleared. -/
def doMultipleQueries (doUpdate useCache : Bool) (queries : Option ℤ) : Handler Unit := do
  let s ← get
  let numQuery := getQueryNumber queries
  let ids ← initializeIds numQuery
  modifyCtx fun ctx =>
    { ctx with
      numQuery := numQuery
      res := ids.map fun id => ⟨id, 0⟩
      doUpdate := doUpdate
      useCache := useCache }
  if useCache then
    match ← h2oCacheFetch with
    | some table =>
      modifyCtx fun ctx =>
        { ctx with res := ctx.res.map fun r => ⟨r.id, table r.id⟩, numResult := ctx.numQuery }
    | none => pure ()
  let ctx ← getCtx
  if useCache ∧ ctx.numResult = ctx.numQuery then completeMultipleQuery
  else issueQueries (inFlightCap s.config numQuery)

def cachedQueries : Option ℤ → Handler Unit := doMultipleQueries false true

def multipleQueries : Option ℤ → Handler Unit := doMultipleQueries false false

def updates : Option ℤ → Handler Unit := doMultipleQueries true false

/-- The request handlers with one context for several sub-queries. -/
inductive Endpoint where
  | cachedWorlds
  | queries
  | updates

/-- `initialize_world_handlers` registers the handlers. -/
def Endpoint.handler : Endpoint → Option ℤ → Handler Unit
  | .cachedWorlds => cachedQueries
  | .queries => multipleQueries
  | .updates => World.updates

/-- The context after `memset`. -/
def MultipleQueryCtx.cleared : MultipleQueryCtx where
  gen := false
  queryParam := []
  numQuery := 0
  numQueryInProgress := 0
  numResult := 0
  doUpdate := false
  useCache := false
  doCleanup := false
  isCompleted := false
  res := []

/-- A request whose context has just been allocated. -/
def Request.init (config : Config) : Request where
  config := config
  ctx := .cleared
  outstanding := []
  frees := 0
  freedEarly := false
  usedAfterFree := false
  disposed := false
  responses := []
  sentLate := false

/-- What may happen to a request after its handler was called. -/
inductive Event where
  | error (param : ℕ) (errorString : String)
  | timeout (param : ℕ)
  | result (param : ℕ) (result : QueryOutcome)
  /-- the pool of the request is cleared -/
  | dispose

/-- The database client calls back a query that it holds. -/
def takeOutstanding (param : ℕ) : Handler Unit := do
  let s ← get
  if param ∈ s.outstanding then modify fun s => { s with outstanding := s.outstanding.erase param }
  else stuck

/-- The callbacks of a request. -/
def handle : Event → Handler Unit
  | .error param errorString => do
    takeOutstanding param
    onMultipleQueryError errorString
  | .timeout param => do
    takeOutstanding param
    onMultipleQueryTimeout
  | .result param result => do
    takeOutstanding param
    let ctx ← getCtx
    match ctx.queryParam[param]? with
    | some { onResult := .onMultipleQueryResult, .. } => onMultipleQueryResult param result
    | some { onResult := .onUpdateResult, .. } => onUpdateResult result
    | none => stuck
  | .dispose => do
    let s ← get
    if s.disposed then stuck
    else
      modify fun s => { s with disposed := true }
      cleanupMultipleQueryRequest

/-- The request after one of the handlers was called for it; `queries` is its parameter. -/
def Request.start (config : Config) (endpoint : Endpoint) (queries : Option ℤ)
    (answers : List Answer) : Option Request :=
  match (endpoint.handler queries).exec (.init config) answers with
  | some (((), s), []) => some s
  | _ => none

/-- One event together with everything the environment answers while it is handled. -/
def Request.next (s : Request) (label : Event × List Answer) :
    Option Request :=
  match (handle label.1).exec s label.2 with
  | some (((), s'), []) => some s'
  | _ => none

end FrameworkBenchmarks.H2o.World
