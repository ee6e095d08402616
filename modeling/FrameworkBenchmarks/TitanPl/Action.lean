import FrameworkBenchmarks.TitanPl.Json
import Mathlib.Data.List.Infix

/-!
# Actions as the worker runs them

A synchronous action is a decision tree: it returns, throws, or makes a drift call and goes on with
what the call gives back. Everything V8 computes between two drift calls is in the tree already; the
worker only sees these points. A drift call may throw (`__SUSPEND__`, or the message of a malformed
argument), and an action is free to catch what it throws.
-/

namespace FrameworkBenchmarks.TitanPl

/-- `m.includes(text)` on JavaScript strings. -/
def includes (m text : String) : Bool := decide (text.toList <:+: m.toList)

/-- The operations the runtime can start for an action. -/
inductive TitanAsyncOp where
  | fetch (url method : String) (body : Option String) (headers : List (String × String))
  | dbQuery (conn query : String)
  | fsRead (path : String)
  | batch (ops : List TitanAsyncOp)

/-- The label `native_drift_call` stores next to an operation. -/
def TitanAsyncOp.opType : TitanAsyncOp → String
  | .fetch .. => "fetch"
  | .dbQuery .. => "db_query"
  | .fsRead .. => "fs_read"
  | .batch _ => "unknown"

/-- The argument of a drift call, with `parse_async_op` already applied to each operation. -/
inductive DriftArg where
  | single (op : Option TitanAsyncOp)
  | array (ops : List (Option TitanAsyncOp))

/-- The operation and its label; a single argument that does not parse has none, and an array keeps
the elements that do. -/
def DriftArg.asyncOp : DriftArg → Option (TitanAsyncOp × String)
  | .single none => none
  | .single (some op) => some (op, op.opType)
  | .array ops => some (.batch (ops.filterMap id), "batch")

/-- A thrown JavaScript value, as far as the `catch` block of `defineAction` can tell it apart. -/
inductive JsThrown where
  /-- `null` and `undefined`: reading `.message` of them throws again -/
  | null
  | undefined
  /-- any other falsy value, with what `String(err)` gives -/
  | falsy (text : String)
  /-- a truthy value whose `err.message || String(err)` is this string -/
  | error (message : String)
  /-- a truthy value on which computing that string throws, with the message V8 reports -/
  | unreadable (uncaught : String)
deriving DecidableEq

/-- The exception of a suspended drift call. -/
def JsThrown.suspend : JsThrown := .error "__SUSPEND__"

/-- The exception of a drift call whose argument is not an operation. -/
def JsThrown.badDriftArg : JsThrown :=
  .error "drift() requires an async operation or array of operations"

/-- `isSuspend`: recognised by the text of the message; an `Except` error leaves the `catch` block. -/
def JsThrown.isSuspend : JsThrown → Except String Bool
  | .null => .ok false
  | .undefined => .ok false
  | .falsy _ => .ok false
  | .error msg => .ok (includes msg "__SUSPEND__" || includes msg "SUSPEND")
  | .unreadable uncaught => .error uncaught

/-- `err.message || String(err)` -/
def JsThrown.text : JsThrown → Except String String
  | .null => .error "Uncaught TypeError: Cannot read properties of null (reading 'message')"
  | .undefined =>
    .error "Uncaught TypeError: Cannot read properties of undefined (reading 'message')"
  | .falsy text => .ok text
  | .error msg => .ok msg
  | .unreadable uncaught => .error uncaught

/-- What a drift call gives back to the running action. -/
abbrev DriftOutcome (N : Type) := Except JsThrown (Value N)

/-- A synchronous action applied to its request. The returned value is given as the JSON that
`native_finish_request` reads from it. -/
inductive Action (N : Type) where
  | done (value : Value N)
  | throw (err : JsThrown)
  | drift (arg : DriftArg) (rest : DriftOutcome N → Action N)

/-- The action leaves the exception of a suspended drift call alone, so that it depends on its
request and on the results its drift calls returned, not on whether they have arrived. -/
def Action.Propagates {N : Type} : Action N → Prop
  | .done _ => True
  | .throw _ => True
  | .drift _ rest => rest (.error .suspend) = .throw .suspend ∧ ∀ outcome, (rest outcome).Propagates

end FrameworkBenchmarks.TitanPl
