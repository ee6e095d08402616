import FrameworkBenchmarks.Common.GuardedRun
import FrameworkBenchmarks.TitanPl.Runtime
import Mathlib.Data.List.Range

/-!
# The worker as a step relation

The worker processes one command at a time: a new request, or the resume of an operation in flight
with whatever result and duration the executor reports. Any operation in flight may be resumed next,
and each one is resumed once. The system also records what the statements speak about: the requests
in the order of their arrival, and which operation each result answered.
-/

namespace FrameworkBenchmarks.TitanPl

open Common

variable {N D : Type}

/-- The result of an operation: on which channel the request that issued it waits, and as which of
its drift calls it was issued. -/
structure Answer (N D : Type) where
  channel : Option ℕ
  call : ℕ
  result : Value N
  duration : D

/-- The worker together with the log of its inputs. -/
structure System (N D : Type) where
  rt : TitanRuntime N D
  /-- requests processed so far with the ids they were given; the position is the channel -/
  accepted : List (ℕ × RequestData)
  answers : List (Answer N D)

/-- A worker that has processed nothing. -/
def System.init : System N D := ⟨.init, [], []⟩

/-- `WorkerCommand`; a resume names the operation by its position among those in flight. -/
inductive Command (N D : Type) where
  | request (task : RequestData)
  | resume (op : ℕ) (result : Value N) (duration : D)

/-- One turn of the worker loop. -/
def System.next (w : Worker N) (s : System N D) : Command N D → Option (System N D)
  | .request task =>
    some { s with
      rt := handleNewRequest w s.accepted.length task s.rt
      accepted := s.accepted ++ [(u32Succ s.rt.requestCounter, task)] }
  | .resume i result duration =>
    (s.rt.asyncOps[i]?).map fun op =>
      { s with
        rt := handleResume w op.driftId result duration
          { s.rt with asyncOps := s.rt.asyncOps.eraseIdx i }
        answers := s.answers ++ [⟨op.channel, op.call, result, duration⟩] }

/-- The execution of an action that a command starts: for which request, on which data, and from
which state of the runtime. A resume whose drift id leads to no active request starts none. -/
def System.execution (s : System N D) : Command N D → Option (ℕ × RequestData × TitanRuntime N D)
  | .request task =>
    some (u32Succ s.rt.requestCounter, task, admitRequest s.accepted.length s.rt)
  | .resume i result duration =>
    (s.rt.asyncOps[i]?).bind fun op =>
      let reqId := (s.rt.driftToRequest op.driftId).getD 0
      let rt := recordDrift op.driftId reqId result duration
        { s.rt with asyncOps := s.rt.asyncOps.eraseIdx i }
      (s.rt.activeRequests reqId).map fun data => (reqId, data, rewindCounter reqId rt)

/-- No drift call of an execution gets an id that `clash` rules out; `clash` sees the runtime just
before the call, the request, the position of the call and the id. -/
def driftIdsFree (clash : TitanRuntime N D → ℕ → ℕ → ℕ → Bool) (w : Worker N) (requestId : ℕ) :
    ℕ → Action N → TitanRuntime N D → Bool
  | _, .done _, _ => true
  | _, .throw _, _ => true
  | call, .drift arg rest, rt =>
    let issued := nativeDriftCall w requestId call arg rt
    !(arg.asyncOp.isSome && clash rt requestId call (u32Succ rt.driftCounter)) &&
      driftIdsFree clash w requestId (if arg.asyncOp.isSome then call + 1 else call)
        (rest issued.2) issued.1

/-- No drift call of the execution that a command starts gets an id that `clash` rules out. -/
def System.drawsFree (clash : TitanRuntime N D → ℕ → ℕ → ℕ → Bool) (w : Worker N)
    (s : System N D) (cmd : Command N D) : Bool :=
  match s.execution cmd with
  | none => true
  | some (r, data, rt) =>
    match w.actions data.actionName with
    | none => true
    | some action => driftIdsFree clash w r 0 (action data) rt

theorem System.driftIdsFree_of_drawsFree {clash : TitanRuntime N D → ℕ → ℕ → ℕ → Bool}
    {w : Worker N} {s : System N D} {cmd : Command N D} {r : ℕ} {data : RequestData}
    {rt : TitanRuntime N D} (h : s.drawsFree clash w cmd = true)
    (hexec : s.execution cmd = some (r, data, rt)) :
    ∀ action, w.actions data.actionName = some action →
      driftIdsFree clash w r 0 (action data) rt = true := by
  intro action hact
  simpa only [System.drawsFree, hexec, hact] using h

end FrameworkBenchmarks.TitanPl
