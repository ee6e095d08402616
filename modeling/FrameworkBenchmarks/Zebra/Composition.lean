import FrameworkBenchmarks.Zebra.ExecNodes
import FrameworkBenchmarks.Zebra.Stops

/-!
# Composition of pipelines

A pipeline is a function from the node that is applied after it and the node that is applied when
it fails. Built so, a pipeline does what its parts do one after the other: a failure anywhere leaves
for the next choice, and once a choice has succeeded the others are not tried any more, whatever
fails later.
-/

namespace FrameworkBenchmarks.Zebra

variable {C V : Type}

/-- `PipeLine`, from the next and the fail node -/
abbrev PipeLine (C V : Type) := INode C V → INode C V → INode C V

section Builders

def composeActAct (handler1 handler2 : Zapp C V) : PipeLine C V := fun next fail =>
  let child := INode.choiceNode next fail handler2
  .choiceNode child fail handler1

def composeFnAct (parentFn : PipeLine C V) (handler : Zapp C V) : PipeLine C V := fun next fail =>
  let child := INode.choiceNode next fail handler
  parentFn child fail

def composeActFn (parentHandler : Zapp C V) (childFn : PipeLine C V) : PipeLine C V :=
  fun next fail =>
    let child := childFn next fail
    .choiceNode child fail parentHandler

/-- `composeFnFn`, and `composeFnChoose` -/
def composeFnFn (parentFn childFn : PipeLine C V) : PipeLine C V := fun next fail =>
  let child := childFn next fail
  parentFn child fail

/-- `pipeline`, and `Yield` of `choose` -/
def pipeline (fn : Zapp C V) : PipeLine C V := fun next fail => .choiceNode next fail fn

/-- `Combine` of `choose` -/
def combine (parentFn childFn : PipeLine C V) : PipeLine C V := fun next fail =>
  let child := childFn next fail
  parentFn next child

def choosePipe : List (PipeLine C V) → PipeLine C V
  | [], _, fail => fail
  | h :: t, next, fail => h next (choosePipe t next fail)

end Builders

/-- The pipelines that are composed of handlers, choices and routers. -/
inductive Pipe (C V : Type) where
  | handler (fn : Zapp C V)
  | compose (parent child : Pipe C V)
  | combine (parent child : Pipe C V)
  | never
  | router (root : RNode C ℕ) (routes : ℕ → Pipe C V)

namespace Pipe

/-- The node of a pipeline. -/
def build : Pipe C V → PipeLine C V
  | handler fn => pipeline fn
  | compose parent child => composeFnFn parent.build child.build
  | combine parent child => Zebra.combine parent.build child.build
  | never => choosePipe []
  | router root routes => fun next fail =>
    .routerNode fail root fun inode => (routes inode).build next fail

theorem build_choosePipe (pipes : List (Pipe C V)) :
    (pipes.foldr combine never).build = choosePipe (pipes.map build) := by
  induction pipes with
  | nil => rfl
  | cons pipe pipes ih =>
    funext next fail
    rw [List.foldr_cons, build, Zebra.combine, ih, List.map_cons, choosePipe]

/-- The overloads of the binder for handlers. -/
theorem build_compose_handlers (handler1 handler2 : Zapp C V) (pipe : Pipe C V) :
    (compose (handler handler1) (handler handler2)).build = composeActAct handler1 handler2 ∧
      (compose pipe (handler handler2)).build = composeFnAct pipe.build handler2 ∧
      (compose (handler handler1) pipe).build = composeActFn handler1 pipe.build :=
  ⟨rfl, rfl, rfl⟩

end Pipe

/-- `RouteBase` and `RouteBuilder`: a route and the pipeline behind it. -/
structure RouteBuilder (C V : Type) where
  method : Methods
  pattern : List C
  pipe : Pipe C V

namespace RouteBuilder

def composeBase (method : Methods) (pattern : List C) (fn : Zapp C V) : RouteBuilder C V :=
  ⟨method, pattern, .handler fn⟩

def composeRouteChoose (method : Methods) (pattern : List C) (pipe : Pipe C V) :
    RouteBuilder C V :=
  ⟨method, pattern, pipe⟩

def composeRouter (routeFn : RouteBuilder C V) (childFn : Zapp C V) : RouteBuilder C V :=
  { routeFn with pipe := .compose routeFn.pipe (.handler childFn) }

/-- The handlers behind a route are nodes in front of the router's next node. -/
theorem build_composeRouter (routeFn : RouteBuilder C V) (childFn : Zapp C V)
    (next fail : INode C V) :
    (composeRouter routeFn childFn).pipe.build next fail =
      routeFn.pipe.build (.choiceNode next fail childFn) fail :=
  rfl

end RouteBuilder

section Router

variable [DecidableEq C]

/-- The routes with their numbers in place of their nodes. -/
def numbered (routes : List (RouteBuilder C V)) : List (Route C ℕ) :=
  routes.zipIdx.map fun r => ⟨r.1.method, r.1.pattern, r.2⟩

/-- `router`; without a result where a registration raises. -/
def router (routes : List (RouteBuilder C V)) : Option (Pipe C V) :=
  (routerNode (numbered routes)).map fun root =>
    .router root fun inode => (routes[inode]?.map RouteBuilder.pipe).getD .never

/-- No registration of a static route raises. -/
theorem exists_router (routes : List (RouteBuilder C V)) : ∃ app, router routes = some app := by
  obtain ⟨root, hroot, -⟩ := exists_trieOf (numbered routes)
  exact ⟨_, by rw [router, hroot, Option.map_some]⟩

end Router

section Meaning

/-- What a handler does when it is left alone: whether it succeeds, and how many tasks it has
awaited. -/
def Zapp.eval (values : ℕ → V) : Zapp C V → ℕ → State C → Option (Bool × ℕ × State C)
  | .ret result, awaited, state => some (result, awaited, state)
  | .call fn continuation, awaited, state =>
    (fn state).bind fun state => continuation.eval values awaited state
  | .look continuation, awaited, state => (continuation state).eval values awaited state
  | .bindUnit continuation, awaited, state => continuation.eval values awaited state
  | .bindGen continuation, awaited, state =>
    (continuation (values awaited)).eval values (awaited + 1) state

/-- The state when the response is written. -/
def State.completed (state : State C) : State C :=
  { state with response := State.setComplete state.response state.bindType }

variable [DecidableEq C]

/-- What the node of a request comes to. -/
def INode.eval (values : ℕ → V) : INode C V → ℕ → State C → Option (State C)
  | .choiceNode next fail current, awaited, state =>
    (current.eval values awaited state).bind fun out =>
      if out.1 then next.eval values out.2.1 out.2.2 else fail.eval values out.2.1 out.2.2
  | .routerNode fail root children, awaited, state =>
    match processPath root state.request state.pathPosition with
    | .handler inode pathPosition =>
      (children inode).eval values awaited { state with pathPosition }
    | .abort pathPosition => fail.eval values awaited { state with pathPosition }
    | .raised => none
  | .finishNode, _, state => some state.completed
  | .failNode fail node, awaited, state =>
    (fail.eval values awaited state).bind fun out => node.eval values out.2.1 out.2.2

/-- What a pipeline does, without nodes: its parts one after the other, choices in their order, each
with the state that the failed ones before it have left. -/
def Pipe.eval (values : ℕ → V) : Pipe C V → ℕ → State C → Option (Bool × ℕ × State C)
  | handler fn, awaited, state => fn.eval values awaited state
  | compose parent child, awaited, state =>
    (parent.eval values awaited state).bind fun out =>
      if out.1 then child.eval values out.2.1 out.2.2 else some out
  | combine parent child, awaited, state =>
    (parent.eval values awaited state).bind fun out =>
      if out.1 then some out else child.eval values out.2.1 out.2.2
  | never, awaited, state => some (false, awaited, state)
  | router root routes, awaited, state =>
    match processPath root state.request state.pathPosition with
    | .handler inode pathPosition => (routes inode).eval values awaited { state with pathPosition }
    | .abort pathPosition => some (false, awaited, { state with pathPosition })
    | .raised => none

/-- The node of a pipeline applies the next node when the pipeline succeeds and the fail node when
it fails. -/
theorem Pipe.build_eval (values : ℕ → V) (pipe : Pipe C V) (next fail : INode C V) (awaited : ℕ)
    (state : State C) :
    (pipe.build next fail).eval values awaited state =
      (pipe.eval values awaited state).bind fun out =>
        if out.1 then next.eval values out.2.1 out.2.2 else fail.eval values out.2.1 out.2.2 := by
  induction pipe generalizing next fail awaited state with
  | handler fn => rfl
  | compose parent child ihparent ihchild =>
    rw [build, composeFnFn, ihparent, Pipe.eval, Option.bind_assoc]
    apply Option.bind_congr
    intro out _
    cases hout : out.1 with
    | true => rw [if_pos rfl, if_pos rfl, ihchild]
    | false => simp [hout]
  | combine parent child ihparent ihchild =>
    rw [build, Zebra.combine, ihparent, Pipe.eval, Option.bind_assoc]
    apply Option.bind_congr
    intro out _
    cases hout : out.1 with
    | true => simp [hout]
    | false => rw [if_neg Bool.false_ne_true, if_neg Bool.false_ne_true, ihchild]
  | never => rfl
  | router root routes ih =>
    rw [build, INode.eval, Pipe.eval]
    split
    · exact ih _ next fail awaited _
    · rfl
    · rfl

/-- A request that the app fails goes to the fallback, and is written in any case. -/
def respond (app : Pipe C V) (failAction : Zapp C V) (values : ℕ → V) (request : Request C) :
    Option (State C) :=
  (app.eval values 0 { request }).bind fun out =>
    if out.1 then some out.2.2.completed
    else (failAction.eval values out.2.1 out.2.2).map fun out => out.2.2.completed

end Meaning

end FrameworkBenchmarks.Zebra
