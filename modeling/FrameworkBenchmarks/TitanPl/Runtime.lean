import Mathlib
import FrameworkBenchmarks.Common.PartialMap
import FrameworkBenchmarks.TitanPl.Action

/-!
# The TitanPl worker: bookkeeping and handlers

One V8 isolate with its maps of pending requests, drift ids and stored results. The handlers are
those of the worker thread: a new request runs its action until it answers or suspends, and the
result of an asynchronous operation replays the action of the request its drift id is mapped to.
Counters are `u32` and wrap around, as they do in the release build.
-/

namespace FrameworkBenchmarks.TitanPl

open Common

/-- `n + 1` on `u32` -/
def u32Succ (n : ℕ) : ℕ := (n + 1) % 2 ^ 32

/-- The data an action is replayed on. -/
structure RequestData where
  actionName : String
  body : Option (List UInt8)
  method : String
  path : String
  headers : List (String × String)
  params : List (String × String)
  query : List (String × String)
deriving DecidableEq

/-- An operation handed to the asynchronous executor. -/
structure AsyncOpRequest where
  op : TitanAsyncOp
  driftId : ℕ
  requestId : ℕ
  opType : String
  /-- the channel of the request that issued it (for the statements only) -/
  channel : Option ℕ
  /-- which drift call of its execution issued it, counted from 0 (for the statements only) -/
  call : ℕ

/-- `WorkerResult`: what goes back over the response channel of a request. -/
structure WorkerResult (N D : Type) where
  json : Value N
  timings : List (String × D)

/-- What the worker finds in its isolate and cannot change: the registered actions and whether the
queue of the asynchronous executor takes an operation. -/
structure Worker (N : Type) where
  actions : String → Option (RequestData → Action N)
  trySend : AsyncOpRequest → Bool

/-- The mutable part of `TitanRuntime`. A response channel is named by the position of its request
in the order of arrival; `asyncOps` and `sent` are the two ends the worker writes to. -/
structure TitanRuntime (N D : Type) where
  pendingRequests : PartialMap ℕ ℕ
  driftCounter : ℕ
  requestCounter : ℕ
  requestTimings : PartialMap ℕ (List (String × D))
  driftToRequest : PartialMap ℕ ℕ
  completedDrifts : PartialMap ℕ (Value N)
  activeRequests : PartialMap ℕ RequestData
  requestStartCounters : PartialMap ℕ ℕ
  /-- operations sent to the executor and not answered yet -/
  asyncOps : List AsyncOpRequest
  /-- responses sent so far, each with its channel -/
  sent : List (ℕ × WorkerResult N D)

/-- `init_runtime_worker` -/
def TitanRuntime.init {N D : Type} : TitanRuntime N D where
  pendingRequests := .empty
  driftCounter := 0
  requestCounter := 0
  requestTimings := .empty
  driftToRequest := .empty
  completedDrifts := .empty
  activeRequests := .empty
  requestStartCounters := .empty
  asyncOps := []
  sent := []

variable {N D : Type}

/-- Remove a request from the pending ones and answer it over its channel, if it is still there. -/
def TitanRuntime.respond (rt : TitanRuntime N D) (requestId : ℕ) (result : WorkerResult N D) :
    TitanRuntime N D :=
  match rt.pendingRequests requestId with
  | none => rt
  | some tx =>
    { rt with
      pendingRequests := rt.pendingRequests.erase requestId
      sent := rt.sent ++ [(tx, result)] }

/-- `native_drift_call`, the `call`-th of the execution under way for request `requestId`. -/
def nativeDriftCall (w : Worker N) (requestId call : ℕ) (arg : DriftArg) (rt : TitanRuntime N D) :
    TitanRuntime N D × DriftOutcome N :=
  match arg.asyncOp with
  | none => (rt, .error .badDriftArg)
  | some (op, opType) =>
    let driftId := u32Succ rt.driftCounter
    let rt := { rt with
      driftCounter := driftId
      driftToRequest :=
        if requestId ≠ 0 then rt.driftToRequest.insert driftId requestId else rt.driftToRequest }
    -- replay check
    match rt.completedDrifts driftId with
    | some result => (rt, .ok result)
    | none =>
      let req : AsyncOpRequest :=
        { op, driftId, requestId, opType, channel := rt.pendingRequests requestId, call }
      if w.trySend req then
        ({ rt with asyncOps := rt.asyncOps ++ [req] }, .error .suspend)
      else (rt, .ok .null)

/-- The cleanup in `native_finish_request`: the timings of the request, every drift id mapped to it
and the results stored under those ids. -/
def clearDrifts (requestId : ℕ) (rt : TitanRuntime N D) : TitanRuntime N D :=
  { rt with
    requestTimings := rt.requestTimings.erase requestId
    completedDrifts := fun id =>
      if rt.driftToRequest id = some requestId then none else rt.completedDrifts id
    driftToRequest := fun id =>
      if rt.driftToRequest id = some requestId then none else rt.driftToRequest id }

/-- `native_finish_request` -/
def nativeFinishRequest (requestId : ℕ) (json : Value N) (rt : TitanRuntime N D) :
    TitanRuntime N D :=
  let timings := (rt.requestTimings requestId).getD []
  (clearDrifts requestId rt).respond requestId { json, timings }

/-- Run the body of an action; `call` counts the drift calls it has made so far. -/
def runAction (w : Worker N) (requestId : ℕ) :
    ℕ → Action N → TitanRuntime N D → TitanRuntime N D × DriftOutcome N
  | _, .done value, rt => (rt, .ok value)
  | _, .throw err, rt => (rt, .error err)
  | call, .drift arg rest, rt =>
    let issued := nativeDriftCall w requestId call arg rt
    runAction w requestId (if arg.asyncOp.isSome then call + 1 else call) (rest issued.2) issued.1

/-- What the wrapper made by `defineAction` does with the outcome of the action: answer, leave the
request suspended, or let an exception escape (its message is returned). -/
def defineAction (requestId : ℕ) (outcome : DriftOutcome N) (rt : TitanRuntime N D) :
    TitanRuntime N D × Option String :=
  match outcome with
  | .ok value => (nativeFinishRequest requestId value rt, none)
  | .error err =>
    match err.isSuspend with
    | .error uncaught => (rt, some uncaught)
    | .ok true => (rt, none)
    | .ok false =>
      match err.text with
      | .error uncaught => (rt, some uncaught)
      | .ok msg => (nativeFinishRequest requestId (.errorObject msg) rt, none)

/-- `execute_action_optimized` -/
def executeActionOptimized (w : Worker N) (requestId : ℕ) (data : RequestData)
    (rt : TitanRuntime N D) : TitanRuntime N D :=
  match w.actions data.actionName with
  | none =>
    rt.respond requestId
      { json := .errorObject ("Action '" ++ data.actionName ++ "' not found"), timings := [] }
  | some action =>
    let run := runAction w requestId 0 (action data) rt
    match defineAction requestId run.2 run.1 with
    | (rt, none) => rt
    | (rt, some msg) =>
      if includes msg "SUSPEND" then rt
      else rt.respond requestId { json := .errorObject msg, timings := [] }

/-- The first lines of `handle_new_request`: a new request id, its channel and its start counter. -/
def admitRequest (tx : ℕ) (rt : TitanRuntime N D) : TitanRuntime N D :=
  let requestId := u32Succ rt.requestCounter
  { rt with
    requestCounter := requestId
    pendingRequests := rt.pendingRequests.insert requestId tx
    requestStartCounters := rt.requestStartCounters.insert requestId rt.driftCounter }

/-- `handle_new_request` -/
def handleNewRequest (w : Worker N) (tx : ℕ) (task : RequestData) (rt : TitanRuntime N D) :
    TitanRuntime N D :=
  let requestId := u32Succ rt.requestCounter
  let rt := executeActionOptimized w requestId task (admitRequest tx rt)
  -- the data is kept only if the request was suspended
  if (rt.pendingRequests requestId).isNone then
    { rt with requestStartCounters := rt.requestStartCounters.erase requestId }
  else { rt with activeRequests := rt.activeRequests.insert requestId task }

/-- The timing label of a drift result. -/
def timingType (result : Value N) : String :=
  if (result.get "error").isSome then "drift_error" else "drift"

/-- The first lines of `handle_resume`: record the timing and store the result. -/
def recordDrift (driftId requestId : ℕ) (result : Value N) (duration : D) (rt : TitanRuntime N D) :
    TitanRuntime N D :=
  { rt with
    requestTimings := rt.requestTimings.insert requestId
      ((rt.requestTimings requestId).getD [] ++ [(timingType result, duration)])
    completedDrifts := rt.completedDrifts.insert driftId result }

/-- The replay of a request hands out drift ids from its start value again. -/
def rewindCounter (requestId : ℕ) (rt : TitanRuntime N D) : TitanRuntime N D :=
  { rt with driftCounter := (rt.requestStartCounters requestId).getD 0 }

/-- The last lines of `handle_resume`: forget the data of a request that has been answered. -/
def forgetAnswered (requestId : ℕ) (rt : TitanRuntime N D) : TitanRuntime N D :=
  if requestId ≠ 0 ∧ (rt.pendingRequests requestId).isNone then
    { rt with
      activeRequests := rt.activeRequests.erase requestId
      requestStartCounters := rt.requestStartCounters.erase requestId }
  else rt

/-- `handle_resume` -/
def handleResume (w : Worker N) (driftId : ℕ) (result : Value N) (duration : D)
    (rt : TitanRuntime N D) : TitanRuntime N D :=
  let reqId := (rt.driftToRequest driftId).getD 0
  let rt := recordDrift driftId reqId result duration rt
  match rt.activeRequests reqId with
  | some data => forgetAnswered reqId (executeActionOptimized w reqId data (rewindCounter reqId rt))
  | none => forgetAnswered reqId rt

end FrameworkBenchmarks.TitanPl
