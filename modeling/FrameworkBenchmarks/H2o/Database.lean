import FrameworkBenchmarks.H2o.DbConnPool

/-!
# The database connection pool of the h2o server: functions

The functions of `database.c`, each under its name and in the order of its statements. A loop of the
source is a loop here; the assertions are left out, as in the release build.
-/

namespace FrameworkBenchmarks.H2o

open Common Scripted Handler

def DB_ERROR : String := "database error\n"

def DB_TIMEOUT_ERROR : String := "database timeout\n"

/-- Append a query to the pool's list. -/
def DbConnPool.enqueue (s : DbConnPool) (param : ℕ) : DbConnPool :=
  let pushed := s.queries.clearPush s.paramNext param
  { s with queries := pushed.1, paramNext := pushed.2 }

/-- Record a branch after which the pool is not what the code relies on. -/
def noteIf (cond : Bool) (defect : Defect) : Handler Unit :=
  modify fun s => if cond then { s with defects := defect :: s.defects } else s

/-- Record what happens to a query. -/
def record (event : QueryEvent) : Handler Unit :=
  modify fun s => { s with trace := event :: s.trace }

/-- `*pool->conn.tail = &conn->l; pool->conn.tail = &conn->l.next; conn->l.next = NULL` -/
def appendConn (c : ℕ) : Handler Unit := do
  let s ← get
  match s.conn.tail with
  | none => pure ()
  | some t =>
    -- the link that is written to must not have been freed
    let _ ← getConn t
  modify fun s =>
    let pushed := s.conn.pushClear s.connNext c
    { s with conn := pushed.1, connNext := pushed.2 }

/-- `process_queries` -/
def processQueries : Handler Unit :=
  modify fun s =>
    if !s.processQueries && s.queries.head.isSome then
      { s with processQueries := true, localMessages := s.localMessages + 1 }
    else s

/-- The end of both ways of establishing a connection. -/
def joinPool (c : ℕ) : Handler Unit := do
  appendConn c
  processQueries

/-- `execute_database_query`; a query that is still outstanding must not be submitted again. -/
def executeDatabaseQuery (param : ℕ) : Handler Bool := do
  let s ← get
  if s.outstanding param then stuck
  else if s.queryNum ≠ 0 then
    modify fun s => { s.enqueue param with queryNum := s.queryNum - 1 }
    record (.accepted param)
    processQueries
    pure false
  else pure true

/-- The queries that a callback submits. -/
def submitAll : List ℕ → Handler Unit
  | [] => pure ()
  | param :: params => do
    let _ ← executeDatabaseQuery param
    submitAll params

/-- Call `on_error` or `on_timeout` of a query. -/
def notify (param : ℕ) (how : Terminal) : Handler Unit := do
  let (submits, _) ← callback
  record (.terminal param how)
  submitAll submits

/-- The loop of `error_notification` over the detached list. -/
def notifyAll (how : Terminal) (iter : Option ℕ) : Handler Unit :=
  loop (fun iter : Option ℕ =>
    match iter with
    | none => pure (.inr ())
    | some param => do
      let s ← get
      notify param how
      pure (.inl (s.paramNext param))) iter

/-- `error_notification` -/
def errorNotification (timeout : Bool) (errorString : String) : Handler Unit := do
  modify fun s => { s with connNum := s.connNum + 1 }
  let s ← get
  if s.connNum = s.config.maxDbConnNum then
    modify fun s => { s with queries := .empty, queryNum := s.config.maxQueryNum }
    notifyAll (if timeout then .onTimeout else .onError errorString) s.queries.head
  else pure ()

/-- `flush_connection`; returns whether it failed. -/
def flushConnection (cb : WriteCb) (c : ℕ) : Handler Bool := do
  match ← pqFlush with
  | .failed => pure true
  | .pending =>
    modifyConn c fun conn =>
      if conn.writeCb.isNone then { conn with writeCb := some cb } else conn
    pure false
  | .done => pure false

/-- `free` on a connection. -/
def freeConn (c : ℕ) : Handler Unit :=
  modify fun s => { s with conns := s.conns.erase c }

/-- `on_database_connect_error` -/
def onDatabaseConnectError (c : ℕ) (timeout : Bool) (errorString : String) : Handler Unit := do
  let _ ← getConn c
  freeConn c
  errorNotification timeout errorString

/-- `on_database_connect_write_ready` -/
def onDatabaseConnectWriteReady (c : ℕ) (err : Option String) : Handler Unit := do
  match err with
  | some err => onDatabaseConnectError c false err
  | none =>
    if ← flushConnection .onDatabaseConnectWriteReady c then
      onDatabaseConnectError c false DB_ERROR

/-- `on_database_connect_read_ready` -/
def onDatabaseConnectReadReady (c : ℕ) (err : Option String) : Handler Unit := do
  if err.isSome then onDatabaseConnectError c false DB_ERROR
  else if !(← call) then onDatabaseConnectError c false DB_ERROR
  else if ← flushConnection .onDatabaseConnectWriteReady c then
    onDatabaseConnectError c false DB_ERROR
  else
    loop (fun _ : Unit => do
      if ← pqIsBusy then pure (.inr ())
      else
        match ← pqGetResult with
        | none => pure (.inl ())
        | some .commandOk => pure (.inl ())
        | some .pipelineSync =>
          modifyConn c fun conn =>
            { conn with timer := none, readCb := some .onDatabaseReadReady }
          joinPool c
          pure (.inr ())
        | some .other =>
          onDatabaseConnectError c false DB_ERROR
          pure (.inr ())) ()

/-- `on_database_connect_timeout` -/
def onDatabaseConnectTimeout (c : ℕ) : Handler Unit :=
  onDatabaseConnectError c true DB_TIMEOUT_ERROR

/-- The walk of `remove_connection`: the link that leads to the node (`none`: the head pointer), if
the node is found. -/
def findPrev (s : DbConnPool) (c : ℕ) : ℕ → Option ℕ → Option ℕ → Option (Option (Option ℕ))
  | 0, _, _ => none
  | _ + 1, none, _ => some none
  | fuel + 1, some i, prev =>
    if i = c then some (some prev)
    else (s.conns i).bind fun _ => findPrev s c fuel (s.connNext i) (some i)

/-- Redirect the link that leads to a node; the tail moves only when the list becomes empty. -/
def DbConnPool.unlink (s : DbConnPool) (c : ℕ) (prev : Option ℕ) : DbConnPool :=
  let s : DbConnPool :=
    match prev with
    | none => { s with conn := { s.conn with head := s.connNext c } }
    | some p => { s with connNext := Function.update s.connNext p (s.connNext c) }
  if s.conn.head.isNone then { s with conn := { s.conn with tail := none } } else s

/-- `remove_connection` -/
def removeConnection (c : ℕ) : Handler Unit := do
  let s ← get
  -- the list never has more nodes than connections were ever allocated
  match ← need (findPrev s c (s.nextConn + 1) s.conn.head none) with
  | none => pure ()
  | some prev =>
    modify fun s => s.unlink c prev
    let s ← get
    noteIf (s.conn.head.isSome && s.conn.tail == some c) .tornTail

/-- A connection whose attempt has just been started. -/
def DbConn.starting (s : DbConnPool) (reset : Bool) : DbConn where
  preparedStatement := s.preparedStatements
  queries := .empty
  queryNum := s.config.maxPipelineQueryNum
  expectSync := false
  ignoreResult := false
  reset := reset
  sockData := true
  readCb := none
  writeCb := some .pollDatabaseConnection
  timer := some .onDatabaseConnectTimeout

/-- The error labels of `start_database_connect`. -/
def startError (c : ℕ) : Handler Unit := do
  freeConn c
  errorNotification false DB_ERROR

/-- The end of `start_database_connect`: a socket for the connection. -/
def startPolling (c : ℕ) (reset : Bool) : Handler Unit := do
  if ← call then
    modify fun s => { s with conns := s.conns.insert c (DbConn.starting s reset) }
  else startError c

/-- `start_database_connect` on a connection: a reset. -/
def resetDatabaseConnect (c : ℕ) : Handler Unit := do
  if ← call then
    -- `memset`
    modify fun s => { s with connNext := Function.update s.connNext c none }
    startPolling c true
  else startError c

/-- `start_database_connect` without a connection: a new one. -/
def newDatabaseConnect : Handler Unit := do
  let s ← get
  let c := s.nextConn
  modify fun s =>
    { s with
      connNum := s.connNum - 1
      nextConn := c + 1
      conns := s.conns.insert c (DbConn.starting s false)
      connNext := Function.update s.connNext c none }
  -- `PQconnectStart`, then `PQstatus`
  if !(← call) then startError c
  else if !(← call) then startError c
  else startPolling c false

/-- The loop of `on_database_error` over the queries of the connection. -/
def failQueries (c : ℕ) (errorString : String) : Handler Unit :=
  loop (fun _ : Unit => do
    let conn ← getConn c
    match conn.queries.head with
    | none => pure (.inr ())
    | some param => do
      let s ← get
      modifyConn c fun conn =>
        { conn with queries := { conn.queries with head := s.paramNext param } }
      notify param (.onError errorString)
      pure (.inl ())) ()

/-- `on_database_error` -/
def onDatabaseError (c : ℕ) (errorString : String) : Handler Unit := do
  removeConnection c
  failQueries c errorString
  resetDatabaseConnect c

/-- `on_database_timeout` -/
def onDatabaseTimeout (c : ℕ) : Handler Unit := do
  let conn ← getConn c
  match conn.queries.head with
  | none => pure ()
  | some param =>
    let s ← get
    modifyConn c fun conn =>
      { conn with queries := { conn.queries with head := s.paramNext param } }
    notify param .onTimeout
  onDatabaseError c DB_TIMEOUT_ERROR

/-- `on_database_write_ready` -/
def onDatabaseWriteReady (c : ℕ) (err : Option String) : Handler Unit := do
  match err with
  | some err => onDatabaseError c err
  | none =>
    if ← flushConnection .onDatabaseWriteReady c then onDatabaseError c DB_ERROR

/-- What the callback of the first query in flight made of a result. -/
def onResult (c param : ℕ) (nonnullResult : Bool) : Handler Unit := do
  let s ← get
  -- the callback may submit the query again and so overwrite its link
  let next := s.paramNext param
  let (submits, ret) ← callback
  match ret with
  | .success =>
    record (.result param)
    submitAll submits
  | .done =>
    record (.terminal param .done)
    submitAll submits
    modifyConn c fun conn =>
      { conn with
        queryNum := conn.queryNum + 1
        timer := some .onDatabaseTimeout
        expectSync := true
        queries := ⟨next, if next.isNone then none else conn.queries.tail⟩
        ignoreResult := conn.ignoreResult || nonnullResult }

/-- One round of the result loop of `on_database_read_ready`; the loop ends with `true` when the
connection has failed. -/
def readResult (c : ℕ) : Handler (Unit ⊕ Bool) := do
  if ← pqIsBusy then pure (.inr false)
  else
    let result ← pqGetResult
    let conn ← getConn c
    if conn.ignoreResult then
      if result.isNone then modifyConn c fun conn => { conn with ignoreResult := false }
      pure (.inl ())
    else if conn.expectSync then
      if result = some .pipelineSync then
        modifyConn c fun conn => { conn with expectSync := false }
        pure (.inl ())
      else
        onDatabaseError c DB_ERROR
        pure (.inr true)
    else
      match conn.queries.head with
      | some param =>
        onResult c param result.isSome
        pure (.inl ())
      | none =>
        modifyConn c fun conn => { conn with timer := none }
        pure (.inr false)

/-- `on_database_read_ready` -/
def onDatabaseReadReady (c : ℕ) (err : Option String) : Handler Unit := do
  match err with
  | some err => onDatabaseError c err
  | none =>
    if !(← call) then onDatabaseError c DB_ERROR
    else if ← flushConnection .onDatabaseWriteReady c then onDatabaseError c DB_ERROR
    else
      let conn ← getConn c
      let removed := conn.queryNum = 0
      if ← loop (fun _ : Unit => readResult c) () then pure ()
      else
        let conn ← getConn c
        if removed ∧ conn.queryNum ≠ 0 then appendConn c
        processQueries

/-- `do_execute_query`; returns whether it failed. -/
def doExecuteQuery (c param : ℕ) : Handler Bool := do
  -- `PQsendQueryPrepared` or `PQsendQueryParams`, then `PQsendPipelineSync`
  if !(← call) then pure true
  else if !(← call) then pure true
  else
    let conn ← getConn c
    let s ← get
    let pushed := conn.queries.clearPush s.paramNext param
    modify fun s =>
      { s with
        paramNext := pushed.2
        conns := s.conns.insert c
          { conn with
            timer :=
              if conn.queries.head.isNone && !(conn.expectSync || conn.ignoreResult) then
                some .onDatabaseTimeout
              else conn.timer
            queries := pushed.1
            queryNum := conn.queryNum - 1 } }
    pure false

/-- One round of the first loop of `on_process_queries`: `iter` chains the connections that took
their last query, and `queryNum` counts the queries sent. -/
def sendQuery (iter : Option ℕ) (queryNum : ℕ) : Handler ((Option ℕ × ℕ) ⊕ (Option ℕ × ℕ)) := do
  let s ← get
  match s.queries.head, s.conn.head with
  | some param, some c => do
    let _ ← getConn c
    modify fun s =>
      { s with
        conn := ⟨s.connNext c, if (s.connNext c).isNone then none else s.conn.tail⟩
        queries :=
          ⟨s.paramNext param,
            if s.queryNum + 1 = s.config.maxQueryNum then none else s.queries.tail⟩
        queryNum := s.queryNum + 1 }
    if ← doExecuteQuery c param then
      notify param (.onError DB_ERROR)
      onDatabaseError c DB_ERROR
      pure (.inl (iter, queryNum))
    else
      let conn ← getConn c
      if conn.queryNum ≠ 0 then
        appendConn c
        pure (.inl (iter, queryNum + 1))
      else
        modify fun s => { s with connNext := Function.update s.connNext c iter }
        pure (.inl (some c, queryNum + 1))
  | _, _ => pure (.inr (iter, queryNum))

/-- The second loop of `on_process_queries`. -/
def flushSpent (iter : Option ℕ) : Handler Unit :=
  loop (fun iter : Option ℕ =>
    match iter with
    | none => pure (.inr ())
    | some c => do
      let _ ← getConn c
      let s ← get
      if ← flushConnection .onDatabaseWriteReady c then onDatabaseError c DB_ERROR
      pure (.inl (s.connNext c))) iter

/-- `*pool->conn.tail = iter` -/
def storeConnTail (iter : Option ℕ) : Handler Unit := do
  let s ← get
  match s.conn.tail with
  | none => modify fun s => { s with conn := { s.conn with head := iter } }
  | some t =>
    let _ ← getConn t
    modify fun s => { s with connNext := Function.update s.connNext t iter }

/-- The third loop of `on_process_queries`, which finds the end of the list anew. -/
def flushListed (iter : Option ℕ) : Handler Unit :=
  loop (fun iter : Option ℕ =>
    match iter with
    | none => pure (.inr ())
    | some c => do
      let _ ← getConn c
      let s ← get
      let iter := s.connNext c
      if ← flushConnection .onDatabaseWriteReady c then
        storeConnTail iter
        onDatabaseError c DB_ERROR
      else modify fun s => { s with conn := { s.conn with tail := some c } }
      pure (.inl iter)) iter

/-- The last loop of `on_process_queries`. -/
def connectMore : ℕ → Handler Unit
  | 0 => pure ()
  | queryNum + 1 => do
    let s ← get
    if s.connNum = 0 then pure ()
    else
      newDatabaseConnect
      connectMore queryNum

/-- `on_process_queries` -/
def onProcessQueries : Handler Unit := do
  let (iter, sent) ← loop (fun (iter, queryNum) => sendQuery iter queryNum) (none, 0)
  flushSpent iter
  modify fun s => { s with conn := { s.conn with tail := none }, processQueries := false }
  let s ← get
  noteIf (s.queries.head.isSome && s.conn.head.isSome) .strandedQueries
  let queryNum := sent + (s.config.maxQueryNum - s.queryNum)
  flushListed s.conn.head
  let s ← get
  connectMore (queryNum - (s.config.maxDbConnNum - s.connNum))

/-- The loop of `prepare_statements` over the statements that are left; returns whether it failed. -/
def sendPrepares : ℕ → Handler Bool
  | 0 => pure false
  | n + 1 => do
    if !(← call) then pure true else sendPrepares n

/-- `prepare_statements` -/
def prepareStatements (c : ℕ) : Handler Unit := do
  let conn ← getConn c
  if conn.preparedStatement ≠ 0 then
    if ← sendPrepares conn.preparedStatement then onDatabaseConnectError c false DB_ERROR
    else if !(← call) then onDatabaseConnectError c false DB_ERROR
    else
      modifyConn c fun conn =>
        { conn with
          preparedStatement := 0
          timer := some .onDatabaseConnectTimeout
          readCb := some .onDatabaseConnectReadReady }
      onDatabaseConnectWriteReady c none
  else
    modifyConn c fun conn => { conn with readCb := some .onDatabaseReadReady }
    joinPool c

/-- Replace the socket of a connection when libpq has moved to another one; the new socket has no
callbacks yet, and its `data` is not set. Returns whether it failed. -/
def moveSocket (c : ℕ) (moved : Bool) : Handler Bool := do
  if moved then
    if ← call then
      modifyConn c fun conn => { conn with sockData := false, readCb := none, writeCb := none }
      pure false
    else pure true
  else pure false

/-- `poll_database_connection` -/
def pollDatabaseConnection (c : ℕ) (err : Option String) : Handler Unit := do
  if err.isSome then onDatabaseConnectError c false DB_ERROR
  else
    let (status, moved) ← pqPoll
    match status with
    | .writing =>
      modifyConn c fun conn => { conn with readCb := none }
      if ← moveSocket c moved then onDatabaseConnectError c false DB_ERROR
      else
        modifyConn c fun conn =>
          if conn.writeCb.isNone then { conn with writeCb := some .pollDatabaseConnection } else conn
    | .ok =>
      modifyConn c fun conn => { conn with timer := none, readCb := none }
      -- `PQsetnonblocking`, then `PQenterPipelineMode`
      if !(← call) then onDatabaseConnectError c false DB_ERROR
      else if !(← call) then onDatabaseConnectError c false DB_ERROR
      else if ← moveSocket c moved then onDatabaseConnectError c false DB_ERROR
      else
        modifyConn c fun conn => { conn with reset := false }
        prepareStatements c
    | .reading =>
      if ← moveSocket c moved then onDatabaseConnectError c false DB_ERROR
      else modifyConn c fun conn => { conn with readCb := some .pollDatabaseConnection }
    | .failed => onDatabaseConnectError c false DB_ERROR

/-- What may happen next on the thread of the pool. -/
inductive Event where
  /-- a request handler calls `execute_database_query` -/
  | submit (param : ℕ)
  /-- the queued task is run -/
  | task
  | readReady (c : ℕ) (err : Option String)
  | writeReady (c : ℕ) (err : Option String)
  | timer (c : ℕ)

/-- The event handlers; a callback on a socket whose `data` is not set has no meaning. -/
def handle : Event → Handler Unit
  | .submit param => do let _ ← executeDatabaseQuery param
  | .task => do
    let s ← get
    if s.localMessages = 0 then stuck
    else
      modify fun s => { s with localMessages := s.localMessages - 1 }
      onProcessQueries
  | .readReady c err => do
    let conn ← getConn c
    if !conn.sockData then stuck
    else
      match conn.readCb with
      | none => stuck
      | some .pollDatabaseConnection => pollDatabaseConnection c err
      | some .onDatabaseConnectReadReady => onDatabaseConnectReadReady c err
      | some .onDatabaseReadReady => onDatabaseReadReady c err
  | .writeReady c err => do
    let conn ← getConn c
    if !conn.sockData then stuck
    else
      modifyConn c fun conn => { conn with writeCb := none }
      match conn.writeCb with
      | none => stuck
      | some .pollDatabaseConnection => pollDatabaseConnection c err
      | some .onDatabaseConnectWriteReady => onDatabaseConnectWriteReady c err
      | some .onDatabaseWriteReady => onDatabaseWriteReady c err
  | .timer c => do
    let conn ← getConn c
    modifyConn c fun conn => { conn with timer := none }
    match conn.timer with
    | none => stuck
    | some .onDatabaseConnectTimeout => onDatabaseConnectTimeout c
    | some .onDatabaseTimeout => onDatabaseTimeout c

/-- One event together with everything the environment answers while it is handled. -/
def DbConnPool.next (s : DbConnPool) (label : Event × List Reply) : Option DbConnPool :=
  match (handle label.1).exec s label.2 with
  | some (((), s'), []) => some s'
  | _ => none

end FrameworkBenchmarks.H2o
