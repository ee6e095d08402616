import FrameworkBenchmarks.Zebra.Router
import FrameworkBenchmarks.Zebra.TextOutput

/-!
# The nodes of a pipeline and the state machine of a request

A handler runs on the state of a request and ends by applying the next or the fail node of the node
that called it. Where it awaits a task that is not complete yet, the continuation is left in the
state, and the state's `Continue` goes on with it later. What the awaited tasks yield is given by
`values`, in the order in which they are awaited.
-/

namespace FrameworkBenchmarks.Zebra

/-- What handlers and nodes read and write of a `State`. -/
structure State (C : Type) where
  request : Request C
  response : Response := {}
  bindType : BindType := .none
  pathPosition : ℕ := 0

/-- The code of a handler, as the members of the computation expression see it: it returns whether
it succeeded (`Zero` and `Run` return `true`), calls something that changes the state or raises,
looks at the state, or awaits a task without or with a value. -/
inductive Zapp (C V : Type) where
  | ret (result : Bool)
  | call (fn : State C → Option (State C)) (continuation : Zapp C V)
  | look (continuation : State C → Zapp C V)
  | bindUnit (continuation : Zapp C V)
  | bindGen (continuation : V → Zapp C V)

/-- A node; the children of a router are numbered in the order of its routes. -/
inductive INode (C V : Type) where
  | choiceNode (next fail : INode C V) (current : Zapp C V)
  | routerNode (fail : INode C V) (root : RNode C ℕ) (children : ℕ → INode C V)
  | finishNode
  | failNode (fail : Zapp C V) (node : INode C V)

inductive MachineState where
  | start
  | bindUnit
  | bindGen
  | complete
  | completeRelease
deriving DecidableEq

/-- What the thread of a request is about to do: to apply a node, or to go on in a handler; or
nothing, because it left or because of an exception. -/
inductive Code (C V : Type) where
  | apply (node : INode C V)
  | handler (current : Zapp C V)
  | idle
  | raised

variable {C V : Type}

/-- `Next`, without a result where it is null -/
def INode.next : INode C V → Option (INode C V)
  | .choiceNode next _ _ => some next
  | .failNode _ node => some node
  | _ => none

/-- `Fail` -/
def INode.fail : INode C V → Option (INode C V)
  | .choiceNode _ fail _ => some fail
  | .failNode _ node => some node
  | _ => none

/-- `Run` -/
def State.run (state : State C) (response : Response) (n : BindType) : State C :=
  { state with response, bindType := match n with | .none => state.bindType | _ => n }

/-- A handler that consists of text operations. -/
def Zapp.texts (texts : List (List UInt16)) : Zapp C V :=
  .call
    (fun state =>
      (State.texts state.response state.bindType texts).map fun out => state.run out.1 out.2)
    (.ret true)

/-- The state of a request with what is private to it; `amb` counts how often its task was set. -/
structure Machine (C V : Type) where
  state : State C
  code : Code C V
  dNode : INode C V := .finishNode
  currentState : MachineState := .start
  bindUnit : Zapp C V := .ret true
  bindGen : V → Zapp C V := fun _ => .ret true
  /-- how many tasks with a value were awaited -/
  awaited : ℕ := 0
  /-- whether `Continue` waits for a task -/
  pending : Bool := false
  amb : ℕ := 0
  /-- how often a stream was given back -/
  released : ℕ := 0

namespace Machine

/-- `amb.SetResult`, which raises the second time -/
def setResult (m : Machine C V) : Machine C V :=
  if m.amb = 0 then { m with code := .idle, amb := 1 } else { m with code := .raised }

/-- `SetComplete` -/
def setComplete (m : Machine C V) : Machine C V :=
  match m.state.bindType with
  | .none => m.setResult
  | .stream _ =>
    { m with
      state := { m.state with response := State.setComplete m.state.response m.state.bindType }
      code := .idle
      currentState := .completeRelease
      pending := true }
  | _ =>
    { m with
      state := { m.state with response := State.setComplete m.state.response m.state.bindType }
      code := .idle
      currentState := .complete
      pending := true }

/-- `Apply` of a node -/
def apply [DecidableEq C] (m : Machine C V) : INode C V → Machine C V
  | .choiceNode next fail current =>
    { m with code := .handler current, dNode := .choiceNode next fail current }
  | .routerNode fail root children =>
    match processPath root m.state.request m.state.pathPosition with
    | .handler inode pathPosition =>
      { m with state := { m.state with pathPosition }, code := .apply (children inode) }
    | .abort pathPosition => { m with state := { m.state with pathPosition }, code := .apply fail }
    | .raised => { m with code := .raised }
  | .finishNode => m.setComplete
  | .failNode fail node => { m with code := .handler fail, dNode := .failNode fail node }

/-- The next node, or the fail node, of the current one. -/
def goOn (m : Machine C V) (result : Bool) : Machine C V :=
  match if result then m.dNode.next else m.dNode.fail with
  | some node => { m with code := .apply node }
  | none => { m with code := .raised }

/-- A step in a handler; an awaited task is complete. -/
def proceed (values : ℕ → V) (m : Machine C V) : Zapp C V → Machine C V
  | .ret result => m.goOn result
  | .call fn continuation =>
    match fn m.state with
    | some state => { m with state, code := .handler continuation }
    | none => { m with code := .raised }
  | .look continuation => { m with code := .handler (continuation m.state) }
  | .bindUnit continuation => { m with code := .handler continuation }
  | .bindGen continuation =>
    { m with code := .handler (continuation (values m.awaited)), awaited := m.awaited + 1 }

/-- `Bind` for a task that is not complete -/
def suspend (m : Machine C V) : Zapp C V → Option (Machine C V)
  | .bindUnit continuation =>
    some { m with
      code := .idle
      bindUnit := continuation
      currentState := .bindUnit
      pending := true }
  | .bindGen continuation =>
    some { m with
      code := .idle
      bindGen := continuation
      currentState := .bindGen
      pending := true }
  | _ => none

/-- `Continue` -/
def onContinue (values : ℕ → V) (m : Machine C V) : Machine C V :=
  match m.currentState with
  | .start => m
  | .bindGen =>
    { m with code := .handler (m.bindGen (values m.awaited)), awaited := m.awaited + 1 }
  | .bindUnit => { m with code := .handler m.bindUnit }
  | .completeRelease =>
    if m.amb = 0 then { m.setResult with released := m.released + 1 } else m.setResult
  | .complete => m.setResult

end Machine

inductive Event where
  /-- the thread goes on; a task that it awaits is complete -/
  | run
  /-- the thread leaves at a task that is not complete -/
  | suspend
  /-- that task, or the writing of the response, completes -/
  | completed
deriving DecidableEq

/-- What can happen to a request. -/
def Machine.step [DecidableEq C] (values : ℕ → V) (m : Machine C V) : Event → Option (Machine C V)
  | .run =>
    match m.code with
    | .apply node => some (m.apply node)
    | .handler current => some (m.proceed values current)
    | _ => none
  | .suspend =>
    match m.code with
    | .handler current => m.suspend current
    | _ => none
  | .completed =>
    if m.pending then some (Machine.onContinue values { m with pending := false })
    else none

/-- `ZebraMiddleware`: the node of the app, and the state machine of a request. -/
def appNode (appBuilder : INode C V → INode C V → INode C V) (failAction : Zapp C V) : INode C V :=
  appBuilder .finishNode (.failNode failAction .finishNode)

/-- `Invoke` -/
def invoke (node : INode C V) (request : Request C) : Machine C V :=
  { state := { request }, code := .apply node }

end FrameworkBenchmarks.Zebra
