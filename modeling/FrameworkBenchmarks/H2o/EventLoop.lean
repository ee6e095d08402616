import FrameworkBenchmarks.Common.GuardedRun
import Mathlib.Data.List.Count
import Mathlib.Logic.Function.Basic
import Mathlib.Data.Nat.Notation

/-!
# The threads of the h2o server

Each thread runs an event loop of its own that accepts connections. The main thread takes a
termination signal, closes its listeners and tells the other threads to do the same; a thread ends
when its last connection is gone, and the main thread then waits for all the others.
-/

namespace FrameworkBenchmarks.H2o.EventLoop

open Common

/-- What `set_default_options` leaves, and whether there is a TLS context. -/
structure Config where
  threadNum : ℕ
  maxAccept : ℕ
  https : Bool
  threadNum_pos : 0 < threadNum
  maxAccept_pos : 0 < maxAccept

/-- A connection: the listener that it came in through, and whether it was accepted with TLS. -/
structure Conn where
  https : Bool
  tls : Bool
  isOpen : Bool
deriving DecidableEq

inductive Phase where
  | starting
  | running
  | stopped
deriving DecidableEq

/-- What a `thread_context_t` and its event loop say, and what was sent to the thread. -/
structure Thread where
  phase : Phase
  shutdown : Bool
  /-- whether `h2o_https_socket` is not null -/
  httpsSocket : Bool
  httpSocket : Bool
  /-- whether the accept context has a TLS context -/
  sslCtx : Bool
  connNum : ℕ
  /-- all connections so far -/
  conns : List Conn
  /-- the `SHUTDOWN` messages on their way -/
  messages : ℕ
  /-- the tasks in `local_messages` -/
  localMessages : ℕ

def Thread.unborn : Thread := ⟨.starting, false, false, false, false, 0, [], 0, 0⟩

namespace Thread

/-- `initialize_event_loop` -/
def initializeEventLoop (config : Config) (t : Thread) : Thread :=
  { t with
    phase := .running
    httpsSocket := config.https
    httpSocket := true
    sslCtx := config.https }

/-- The loop of `accept_connection`, with what is left of `max_accept` and of the connections that
wait. -/
def acceptLoop (https : Bool) : ℕ → ℕ → Thread → Thread
  | accepted + 1, pending + 1, t => acceptLoop https accepted pending
      { t with
        connNum := t.connNum + 1
        conns := t.conns ++ [⟨https, t.sslCtx, true⟩] }
  | _, _, t => t

def acceptConnection (config : Config) (https : Bool) (pending : ℕ) (err : Bool) (t : Thread) :
    Thread :=
  if err then t
  else if t.shutdown then t
  else acceptLoop https config.maxAccept pending t

def acceptHttpConnection (config : Config) (pending : ℕ) (err : Bool) (t : Thread) : Thread :=
  { acceptConnection config false pending err { t with sslCtx := false } with sslCtx := t.sslCtx }

/-- The callback of a listener, as `initialize_event_loop` sets it. -/
def onListener (config : Config) (https : Bool) (pending : ℕ) (err : Bool) (t : Thread) : Thread :=
  if https then acceptConnection config true pending err t
  else if config.https then acceptHttpConnection config pending err t
  else acceptConnection config false pending err t

/-- `on_close_connection`; without a result if the counter would wrap around. -/
def onCloseConnection (t : Thread) : Option Thread :=
  if t.connNum = 0 then none else some { t with connNum := t.connNum - 1 }

/-- What `SHUTDOWN` does, and the beginning of `shutdown_server`. -/
def closeListeners (t : Thread) : Thread :=
  { t with shutdown := true, httpsSocket := false, httpSocket := false }

/-- `send_message` to the thread -/
def sendMessage (t : Thread) : Thread := { t with messages := t.messages + 1 }

/-- `process_messages` for the messages of other threads -/
def processMessages : ℕ → Thread → Thread
  | 0, t => { t with messages := 0 }
  | n + 1, t => processMessages n t.closeListeners

end Thread

structure Server where
  threads : ℕ → Thread
  /-- how often the main thread has read a signal -/
  signals : ℕ
  /-- whether `main` has come to its end -/
  ended : Bool

def Server.start : Server := ⟨fun _ => .unborn, 0, false⟩

inductive Event where
  | initializeThread (i : ℕ)
  | listener (i : ℕ) (https : Bool) (pending : ℕ) (err : Bool)
  | close (i k : ℕ)
  | messages (i : ℕ)
  | signal (err : Bool)
  /-- a callback sends a task to its own thread -/
  | sendLocalMessage (i : ℕ)
  /-- a task is run -/
  | task (i : ℕ)
  /-- the end of a round of `event_loop` -/
  | round (i : ℕ)
  /-- the main thread joins all the others -/
  | join

namespace Server

def set (s : Server) (i : ℕ) (t : Thread) : Server :=
  { s with threads := Function.update s.threads i t }

/-- The loop of `shutdown_server` over the other threads; without a result if a receiver is not
registered yet, or not any more. -/
def sendShutdown : ℕ → Server → Option Server
  | 0, s => some s
  | i + 1, s =>
    if (s.threads (i + 1)).phase = .running then
      sendShutdown i (s.set (i + 1) (s.threads (i + 1)).sendMessage)
    else none

/-- `shutdown_server` -/
def shutdownServer (config : Config) (err : Bool) (s : Server) : Option Server :=
  if err then some s
  else
    sendShutdown (config.threadNum - 1)
      { s.set 0 (s.threads 0).closeListeners with signals := s.signals + 1 }

def next (config : Config) (s : Server) : Event → Option Server
  | .initializeThread i => some (s.set i ((s.threads i).initializeEventLoop config))
  | .listener i https pending err =>
    some (s.set i ((s.threads i).onListener config https pending err))
  | .close i k =>
    ((s.threads i).conns[k]?).bind fun conn =>
      (s.threads i).onCloseConnection.map fun t =>
        s.set i { t with conns := t.conns.set k { conn with isOpen := false } }
  | .messages i => some (s.set i ((s.threads i).processMessages (s.threads i).messages))
  | .signal err => s.shutdownServer config err
  | .sendLocalMessage i =>
    some (s.set i { s.threads i with localMessages := (s.threads i).localMessages + 1 })
  | .task i => some (s.set i { s.threads i with localMessages := (s.threads i).localMessages - 1 })
  | .round i =>
    if !(s.threads i).shutdown || (s.threads i).connNum ≠ 0 then some s
    else some (s.set i { s.threads i with phase := .stopped })
  | .join => some { s with ended := true }

/-- What can happen: callbacks come on threads that run and from sockets that are open; a round ends
when there are no tasks left; a signal comes while all threads run. -/
def Allowed (config : Config) (s : Server) : Event → Prop
  | .initializeThread i => i < config.threadNum ∧ (s.threads i).phase = .starting
  | .listener i https _ _ => (s.threads i).phase = .running ∧
      (if https then (s.threads i).httpsSocket else (s.threads i).httpSocket) = true
  | .close i k => (s.threads i).phase = .running ∧
      ∃ conn, (s.threads i).conns[k]? = some conn ∧ conn.isOpen = true
  | .messages i => (s.threads i).phase = .running ∧ 0 < (s.threads i).messages
  | .signal _ => ∀ i < config.threadNum, (s.threads i).phase = .running
  | .sendLocalMessage i => (s.threads i).phase = .running
  | .task i => (s.threads i).phase = .running ∧ 0 < (s.threads i).localMessages
  | .round i => (s.threads i).phase = .running ∧ (s.threads i).localMessages = 0
  | .join => s.ended = false ∧ ∀ i < config.threadNum, (s.threads i).phase = .stopped

end Server

end FrameworkBenchmarks.H2o.EventLoop
