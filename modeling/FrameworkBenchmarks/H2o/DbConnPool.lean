import FrameworkBenchmarks.Common.IntrusiveQueue
import FrameworkBenchmarks.Common.PartialMap
import FrameworkBenchmarks.Common.Scripted

/-!
# The database connection pool of the h2o server: data

The memory that one `db_conn_pool_t` spans: the pool, its connections and the query parameters that
were handed to it, with the links of both kinds of intrusive list as they are in memory. What libpq,
the sockets and the callbacks of a query do is answered by the environment.
-/

namespace FrameworkBenchmarks.H2o

open Common

/-- The limits in `config_t`; `set_default_options` leaves none of them at zero. -/
structure Config where
  maxDbConnNum : ℕ
  maxPipelineQueryNum : ℕ
  maxQueryNum : ℕ
  maxDbConnNum_pos : 0 < maxDbConnNum
  maxPipelineQueryNum_pos : 0 < maxPipelineQueryNum
  maxQueryNum_pos : 0 < maxQueryNum

/-- The read callbacks of a connection's socket. -/
inductive ReadCb where
  | pollDatabaseConnection
  | onDatabaseConnectReadReady
  | onDatabaseReadReady
deriving DecidableEq

/-- The write callbacks of a connection's socket. -/
inductive WriteCb where
  | pollDatabaseConnection
  | onDatabaseConnectWriteReady
  | onDatabaseWriteReady
deriving DecidableEq

/-- The callbacks of a connection's timer. -/
inductive TimerCb where
  | onDatabaseConnectTimeout
  | onDatabaseTimeout
deriving DecidableEq

/-- `db_conn_t`, its socket and timer included; the link `l` is in `DbConnPool.connNext`. -/
structure DbConn where
  /-- how many prepared statements it still has to send -/
  preparedStatement : ℕ
  queries : Queue ℕ
  queryNum : ℕ
  expectSync : Bool
  ignoreResult : Bool
  reset : Bool
  /-- whether `sock->data` points back to the connection -/
  sockData : Bool
  readCb : Option ReadCb
  writeCb : Option WriteCb
  timer : Option TimerCb

/-- A connection is established once its socket is read by `on_database_read_ready`. -/
def DbConn.established (conn : DbConn) : Bool := conn.readCb == some .onDatabaseReadReady

/-- The terminal callbacks of a query. -/
inductive Terminal where
  | onError (errorString : String)
  | onTimeout
  /-- `on_result` returned `DONE` -/
  | done
deriving DecidableEq

/-- What happens to a query, for the statements only. -/
inductive QueryEvent where
  /-- `execute_database_query` returned 0 -/
  | accepted (param : ℕ)
  /-- `on_result` returned `SUCCESS` -/
  | result (param : ℕ)
  | terminal (param : ℕ) (how : Terminal)
deriving DecidableEq

/-- The branches after which the lists of the pool are not what the code relies on, for the statements
only. -/
inductive Defect where
  /-- `remove_connection` unlinked the last of several nodes and left the tail behind -/
  | tornTail
  /-- the queue task cleared its flag with a query waiting and a connection in the list -/
  | strandedQueries
deriving DecidableEq

/-- `db_conn_pool_t` and the memory it leads to. -/
structure DbConnPool where
  config : Config
  conn : Queue ℕ
  localMessages : ℕ
  /-- how many prepared statements there are -/
  preparedStatements : ℕ
  queries : Queue ℕ
  connNum : ℕ
  queryNum : ℕ
  processQueries : Bool
  /-- the connections that are allocated -/
  conns : PartialMap ℕ DbConn
  /-- `conn->l.next` -/
  connNext : ℕ → Option ℕ
  /-- `param->l.next` -/
  paramNext : ℕ → Option ℕ
  /-- the address of the next connection to be allocated -/
  nextConn : ℕ
  /-- newest first -/
  trace : List QueryEvent
  defects : List Defect

/-- `initialize_database_connection_pool` -/
def DbConnPool.initializeDatabaseConnectionPool (config : Config) (preparedStatements : ℕ) : DbConnPool where
  config := config
  conn := .empty
  localMessages := 0
  preparedStatements := preparedStatements
  queries := .empty
  connNum := config.maxDbConnNum
  queryNum := config.maxQueryNum
  processQueries := false
  conns := .empty
  connNext _ := none
  paramNext _ := none
  nextConn := 0
  trace := []
  defects := []

/-- What a query has gone through: whether it is outstanding, and `none` if it got a callback while
it was not, or was accepted while it was. -/
def lifecycle : List QueryEvent → ℕ → Option Bool
  | [], _ => some false
  | .accepted q :: trace, p =>
    if p = q then if lifecycle trace p = some false then some true else none else lifecycle trace p
  | .result q :: trace, p =>
    if p = q then if lifecycle trace p = some true then some true else none else lifecycle trace p
  | .terminal q _ :: trace, p =>
    if p = q then if lifecycle trace p = some true then some false else none else lifecycle trace p

/-- The query was accepted and has not been terminated. -/
def DbConnPool.outstanding (s : DbConnPool) (param : ℕ) : Bool :=
  lifecycle s.trace param == some true

/-- How many connections are allocated: connecting or established. -/
def DbConnPool.liveNum (s : DbConnPool) : ℕ := s.conns.count s.nextConn

/-- What `PQflush` reports. -/
inductive Flush where
  | failed
  | done
  | pending
deriving DecidableEq

/-- What `PQresultStatus` reports of a result. -/
inductive ResultStatus where
  | commandOk
  | pipelineSync
  | other
deriving DecidableEq

/-- What `PQconnectPoll` and `PQresetPoll` report. -/
inductive PollStatus where
  | reading
  | writing
  | ok
  | failed
deriving DecidableEq

/-- What a callback of a query returns. -/
inductive ResultReturn where
  | success
  | done
deriving DecidableEq

/-- The answers of libpq, of the socket layer and of the callbacks. -/
inductive Reply where
  /-- whether a call succeeded -/
  | call (ok : Bool)
  | flush (status : Flush)
  | isBusy (busy : Bool)
  | result (status : Option ResultStatus)
  /-- the status, and whether libpq has moved to another socket -/
  | poll (status : PollStatus) (moved : Bool)
  /-- the queries that a callback submits, and what it returns -/
  | callback (submits : List ℕ) (ret : ResultReturn)
deriving DecidableEq

/-- The handlers of the pool. -/
abbrev Handler := Scripted DbConnPool Reply

namespace Handler

open Scripted

/-- Call a function that succeeds or fails. -/
def call : Handler Bool :=
  expect fun
    | .call ok => some ok
    | _ => none

def pqFlush : Handler Flush :=
  expect fun
    | .flush status => some status
    | _ => none

def pqIsBusy : Handler Bool :=
  expect fun
    | .isBusy busy => some busy
    | _ => none

def pqGetResult : Handler (Option ResultStatus) :=
  expect fun
    | .result status => some status
    | _ => none

def pqPoll : Handler (PollStatus × Bool) :=
  expect fun
    | .poll status moved => some (status, moved)
    | _ => none

def callback : Handler (List ℕ × ResultReturn) :=
  expect fun
    | .callback submits ret => some (submits, ret)
    | _ => none

end Handler

/-- Read a connection; a dangling pointer has no meaning. -/
def getConn (c : ℕ) : Handler DbConn := do
  let s ← get
  Scripted.need (s.conns c)

/-- Write to a connection. -/
def modifyConn (c : ℕ) (f : DbConn → DbConn) : Handler Unit := do
  let conn ← getConn c
  modify fun s => { s with conns := s.conns.insert c (f conn) }

end FrameworkBenchmarks.H2o
