import FrameworkBenchmarks.Common.GuardedRun
import Mathlib.Data.Int.Notation
import Mathlib.Data.Nat.Notation

/-!
# The development server

`titan/dev.js` keeps one `cargo run` process. It is restarted when a watched file changes, and when it has
exited with an error. The event loop is a step function; an await whose promise has resolved resumes in a
step of its own. Spinner, output and exit signals are left out. `killServer` only asks a process to exit,
which shows when it does. A process stands at its index in the list of all spawned ones.
-/

namespace FrameworkBenchmarks.TitanPl

inductive ProcessState
  | running
  /-- with its exit code, which is null when a signal has ended it -/
  | exited (code : Option ℤ)
  /-- the same after the `close` event -/
  | closed (code : Option ℤ)
  deriving DecidableEq, Repr

/-- `exitCode` -/
def ProcessState.exitCode : ProcessState → Option ℤ
  | .running => none
  | .exited code => code
  | .closed code => code

/-- A spawned process with what its handlers close over. -/
structure ServerProcess where
  retryCount : ℕ
  isReady : Bool := false
  state : ProcessState := .running
  deriving DecidableEq, Repr

/-- Who awaits `startRustServer`. -/
inductive StartCaller
  | startDev
  | watcher
  | closeHandler
  deriving DecidableEq, Repr

/-- Who awaits `killServer`. -/
inductive KillCaller
  | watcher
  | startRustServer (retryCount : ℕ) (caller : StartCaller)
  deriving DecidableEq, Repr

/-- An await whose promise has resolved. -/
inductive Await
  /-- in `killServer` -/
  | killPromise (caller : KillCaller)
  | killServer (caller : KillCaller)
  | rebuild (caller : StartCaller)
  | startRustServer (caller : StartCaller)
  deriving DecidableEq, Repr

/-- An awaited `delay`. -/
inductive Delay
  /-- in `startRustServer` -/
  | start (retryCount : ℕ) (caller : StartCaller)
  /-- in the `close` handler, with the next retry count -/
  | retry (retryCount : ℕ)
  deriving DecidableEq, Repr

structure Dev where
  serverProcess : Option ℕ := none
  isKilling : Bool := false
  processes : List ServerProcess := []
  /-- the calls of `killServer` that await the `close` event of a process -/
  killing : List (ℕ × KillCaller) := []
  awaits : List Await := []
  delays : List Delay := []
  /-- whether the watcher has been created, and whether its timer runs -/
  watching : Bool := false
  timer : Bool := false
  deriving DecidableEq, Repr

def maxRetries : ℕ := 3

namespace Dev

def stateOf (dev : Dev) (process : ℕ) : Option ProcessState :=
  dev.processes[process]?.map ServerProcess.state

/-- `killServer`, up to its await. -/
def killServer (dev : Dev) (caller : KillCaller) : Dev :=
  match dev.serverProcess with
  | none => { dev with awaits := dev.awaits ++ [.killServer caller] }
  | some process =>
    let dev := { dev with isKilling := true }
    if ((dev.stateOf process).bind ProcessState.exitCode).isSome then
      { dev with awaits := dev.awaits ++ [.killPromise caller] }
    else { dev with killing := dev.killing ++ [(process, caller)] }

/-- `startRustServer`, up to its first await. -/
def startRustServer (dev : Dev) (retryCount : ℕ) (caller : StartCaller) : Dev :=
  dev.killServer (.startRustServer retryCount caller)

/-- `startRustServer` behind its delay. -/
def spawn (dev : Dev) (retryCount : ℕ) (caller : StartCaller) : Dev :=
  { dev with
    processes := dev.processes ++ [{ retryCount := retryCount }]
    serverProcess := some dev.processes.length
    awaits := dev.awaits ++ [.startRustServer caller] }

/-- The `close` handler. -/
def onClose (dev : Dev) (retryCount : ℕ) (code : Option ℤ) (isPortError runTimeShort : Bool) : Dev :=
  if dev.isKilling then dev
  else if code ≠ some 0 ∧ code ≠ none then
    if isPortError then
      if retryCount < 3 then { dev with delays := dev.delays ++ [.retry (retryCount + 1)] } else dev
    else if runTimeShort ∧ retryCount < maxRetries then
      { dev with delays := dev.delays ++ [.retry (retryCount + 1)] }
    else dev
  else dev

/-- What the event loop does next. -/
inductive Event
  /-- a watched file changes -/
  | changes
  /-- the watcher's timer fires -/
  | fires
  | elapses (delay : Delay)
  /-- an await resumes; a rebuild succeeds or not -/
  | resumes (await : Await) (rebuilt : Bool)
  | readies (process : ℕ)
  | exits (process : ℕ) (code : Option ℤ)
  /-- the `close` event, with whether the output tells of the port, and the run was short -/
  | closes (process : ℕ) (isPortError runTimeShort : Bool)
  deriving DecidableEq, Repr

def setState (dev : Dev) (process : ℕ) (state : ProcessState) : Dev :=
  { dev with processes := dev.processes.modify process fun server => { server with state := state } }

/-- `rebuild`, awaited by its caller; a rejection ends in the caller's catch block. -/
def rebuild (dev : Dev) (caller : StartCaller) (rebuilt : Bool) : Dev :=
  if rebuilt then { dev with awaits := dev.awaits ++ [.rebuild caller] }
  else if caller = .startDev then { dev with watching := true }
  else dev

def resume (dev : Dev) (rebuilt : Bool) : Await → Dev
  | .killPromise caller =>
    { dev with serverProcess := none, isKilling := false, awaits := dev.awaits ++ [.killServer caller] }
  | .killServer .watcher => dev.rebuild .watcher rebuilt
  | .killServer (.startRustServer retryCount caller) =>
    { dev with delays := dev.delays ++ [.start retryCount caller] }
  | .rebuild caller => dev.startRustServer 0 caller
  | .startRustServer .startDev => { dev with watching := true }
  | .startRustServer _ => dev

def elapse (dev : Dev) : Delay → Dev
  | .start retryCount caller => dev.spawn retryCount caller
  | .retry retryCount => dev.startRustServer retryCount .closeHandler

/-- One turn of the event loop. -/
def next (dev : Dev) : Event → Option Dev
  | .changes => if dev.watching then some { dev with timer := true } else none
  | .fires => if dev.timer then some ({ dev with timer := false }.killServer .watcher) else none
  | .elapses delay =>
    if delay ∈ dev.delays then some ({ dev with delays := dev.delays.erase delay }.elapse delay) else none
  | .resumes await rebuilt =>
    if await ∈ dev.awaits then some ({ dev with awaits := dev.awaits.erase await }.resume rebuilt await)
    else none
  | .readies process =>
    if dev.stateOf process = some .running then
      some { dev with processes := dev.processes.modify process fun server => { server with isReady := true } }
    else none
  | .exits process code =>
    if dev.stateOf process = some .running then some (dev.setState process (.exited code)) else none
  | .closes process isPortError runTimeShort =>
    match dev.processes[process]? with
    | some ⟨retryCount, _, .exited code⟩ =>
      let dev := (dev.setState process (.closed code)).onClose retryCount code isPortError runTimeShort
      some { dev with
        killing := dev.killing.filter fun waiting => waiting.1 ≠ process
        awaits := dev.awaits ++
          (dev.killing.filter fun waiting => waiting.1 = process).map fun waiting =>
            .killPromise waiting.2 }
    | _ => none

/-- `startDev`, up to its first await. -/
def startDev (rebuilt : Bool) : Dev := ({} : Dev).rebuild .startDev rebuilt

end Dev

end FrameworkBenchmarks.TitanPl
