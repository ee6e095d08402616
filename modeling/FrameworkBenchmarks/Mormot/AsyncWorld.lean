import FrameworkBenchmarks.Common.GuardedRun
import FrameworkBenchmarks.Common.PartialMap
import FrameworkBenchmarks.Mormot.Pipelining

/-!
# Asynchronous world requests of the mORMot server

All requests share one database connection, which answers statements in their order. A `TAsyncWorld`
sends the selects of its request while the shared statement is locked, collects their rows in the
callbacks, and answers after the last of them or after the update that follows.
-/

namespace FrameworkBenchmarks.Mormot.Async

open Common

/-- The arrays that are bound to the update: ids and random numbers. -/
abbrev Params := List ℕ × List ℤ

/-- A statement on its way, with the request that it belongs to and the context of its callback. -/
inductive Statement where
  | select (request context id : ℕ)
  | update (request context : ℕ) (params : Params)
  | asyncdb (request context id : ℕ)

def Statement.request : Statement → ℕ
  | .select request _ _ | .update request _ _ | .asyncdb request _ _ => request

@[simp] theorem request_select (request context id : ℕ) :
    (Statement.select request context id).request = request := rfl

@[simp] theorem request_update (request context : ℕ) (params : Params) :
    (Statement.update request context params).request = request := rfl

@[simp] theorem request_asyncdb (request context id : ℕ) :
    (Statement.asyncdb request context id).request = request := rfl

inductive Response where
  | worlds (res : List World)
  | world (row : World)
  | error

/-- `TAsyncWorld` -/
structure AsyncWorld where
  connection : ℕ
  res : List World
  count : ℕ
  current : ℕ
  /-- whether there is an update statement -/
  update : Bool

inductive Kind where
  | asyncdb
  | asyncqueries (count : ℕ)
  | asyncupdates (count : ℕ)

def kindOf (update : Bool) (count : ℕ) : Kind :=
  if update then .asyncupdates count else .asyncqueries count

/-- What the HTTP server and its database connection know. -/
structure Server where
  /-- the requests so far, with the handles of their connections -/
  requests : List (ℕ × Kind)
  /-- the objects that were not freed, by their requests -/
  worlds : PartialMap ℕ AsyncWorld
  /-- who holds the lock of the select statement, and how often it is still executed -/
  lock : Option (ℕ × ℕ)
  /-- what the update statement is bound to -/
  bound : Params
  pending : List Statement
  /-- what the database has returned to each request -/
  rows : ℕ → List (Option World)
  /-- the updates that were executed for each request -/
  executed : ℕ → List Params
  /-- the responses to each request, with the handles to which they went -/
  responses : ℕ → List (ℕ × Response)

def Server.start : Server where
  requests := []
  worlds := .empty
  lock := none
  bound := ([], [])
  pending := []
  rows _ := []
  executed _ := []
  responses _ := []

namespace Server

def asyncResponse (s : Server) (request context : ℕ) (response : Response) : Server :=
  { s with
    responses :=
      Function.update s.responses request (s.responses request ++ [(context, response)]) }

/-- `OnRes`; without a result if the object has been freed. -/
def onRes (s : Server) (request context : ℕ) : Option Server :=
  (s.worlds request).map fun w =>
    { s.asyncResponse request context (.worlds w.res) with worlds := s.worlds.erase request }

/-- `DoUpdates`, with the numbers that are drawn. -/
def doUpdates (s : Server) (request : ℕ) (numbers : ℕ → ℤ) : Option Server :=
  (s.worlds request).map fun w =>
    let res := w.res.mapIdx fun i world => { world with randomNumber := numbers i }
    let bound : Params := (res.map World.id, res.map World.randomNumber)
    { s with
      worlds := s.worlds.insert request { w with res := res }
      bound := bound
      pending := s.pending ++ [.update request w.connection bound]
      executed := Function.update s.executed request (s.executed request ++ [bound]) }

/-- What `Step` has found goes to its place. -/
def stored (res : List World) (current : ℕ) : Option World → List World
  | some world => res.set current world
  | none => res

/-- `OnQueries`; without a result if the object has been freed or has no place for another row. -/
def onQueries (s : Server) (request context : ℕ) (row : Option World) (numbers : ℕ → ℤ) :
    Option Server :=
  (s.worlds request).bind fun w =>
    if w.current < w.res.length then
      let w : AsyncWorld :=
        { w with
          res := stored w.res w.current row
          current := w.current + 1 }
      let s := { s with worlds := s.worlds.insert request w }
      if w.current = w.count then
        if w.update then s.doUpdates request numbers else s.onRes request context
      else some s
    else none

def rowResponse : Option World → Response
  | some world => .world world
  | none => .error

def onAsyncDb (s : Server) (request context : ℕ) (row : Option World) : Server :=
  s.asyncResponse request context (rowResponse row)

/-- The beginning of `Queries`, for an object whose fields are set. -/
def queries (s : Server) (context count : ℕ) (update : Bool) : Server :=
  { s with
    requests := s.requests ++ [(context, kindOf update count)]
    worlds := s.worlds.insert s.requests.length
      ⟨context, List.replicate count ⟨0, 0⟩, count, 0, update⟩
    lock := some (s.requests.length, count) }

end Server

inductive Event where
  | asyncdb (context id : ℕ)
  | asyncqueries (context count : ℕ)
  | asyncupdates (context count : ℕ)
  /-- one turn of the loop in `Queries` -/
  | send (id : ℕ)
  /-- the next statement has its result; for a select it is a row, or none, also after an error -/
  | answer (row : Option World) (numbers : ℕ → ℤ)

namespace Server

def next (s : Server) : Event → Option Server
  | .asyncdb context id => some
      { s with
        requests := s.requests ++ [(context, .asyncdb)]
        pending := s.pending ++ [.asyncdb s.requests.length context id] }
  | .asyncqueries context count => some (s.queries context count false)
  | .asyncupdates context count => some (s.queries context count true)
  | .send id =>
    match s.lock with
    | some (request, n + 1) => (s.worlds request).map fun w =>
        { s with
          lock := if n = 0 then none else some (request, n)
          pending := s.pending ++ [.select request w.connection id] }
    | _ => none
  | .answer row numbers =>
    match s.pending with
    | [] => none
    | statement :: pending =>
      let request := statement.request
      let s := { s with
        pending := pending
        rows := match statement with
          | .update _ _ _ => s.rows
          | _ => Function.update s.rows request (s.rows request ++ [row]) }
      match statement with
      | .select _ context _ => s.onQueries request context row numbers
      | .update _ context _ => s.onRes request context
      | .asyncdb _ context _ => some (s.onAsyncDb request context row)

/-- A select waits for the lock, a request asks for something, and only what is on its way is
answered. -/
def Allowed (s : Server) : Event → Prop
  | .asyncdb _ _ => s.lock = none
  | .asyncqueries _ count | .asyncupdates _ count => s.lock = none ∧ 0 < count
  | .send _ => s.lock ≠ none
  | .answer _ _ => s.pending ≠ []

end Server

instance (s : Server) (e : Event) : Decidable (s.Allowed e) :=
  match e with
  | .asyncdb _ _ => inferInstanceAs (Decidable (s.lock = none))
  | .asyncqueries _ count | .asyncupdates _ count =>
    inferInstanceAs (Decidable (s.lock = none ∧ 0 < count))
  | .send _ => inferInstanceAs (Decidable (s.lock ≠ none))
  | .answer _ _ => decidable_of_iff (s.pending.isEmpty = false) List.isEmpty_eq_false_iff

section Progress

/-- What concerns one request. -/
structure View where
  world : Option AsyncWorld
  pending : List Statement
  unsent : ℕ
  rows : List (Option World)
  executed : List Params
  responses : List (ℕ × Response)

def View.blank : View := ⟨none, [], 0, [], [], []⟩

/-- The selects that are still to be sent for a request. -/
def Server.unsent (s : Server) (request : ℕ) : ℕ :=
  match s.lock with
  | some (owner, n) => if owner = request then n else 0
  | none => 0

def Server.view (s : Server) (request : ℕ) : View where
  world := s.worlds request
  pending := s.pending.filter fun statement => statement.request = request
  unsent := s.unsent request
  rows := s.rows request
  executed := s.executed request
  responses := s.responses request

/-- The rows in their order, a record of zeros for each one that did not come. -/
def collected (rows : List (Option World)) : List World := rows.map fun row => row.getD ⟨0, 0⟩

def paramsOf (res : List World) : Params := (res.map World.id, res.map World.randomNumber)

/-- The response to a request agrees with the rows that it got and with the update that it sent. -/
def Answered (rows : List (Option World)) (executed : List Params) : Kind → Response → Prop
  | .asyncdb, response =>
      executed = [] ∧ ∃ row, rows = [row] ∧ response = Server.rowResponse row
  | .asyncqueries count, response =>
      rows.length = count ∧ executed = [] ∧ response = .worlds (collected rows)
  | .asyncupdates count, response => rows.length = count ∧ ∃ res,
      res.map World.id = (collected rows).map World.id ∧ executed = [paramsOf res] ∧
        response = .worlds res

/-- What a request can be in between two events. -/
inductive Progress (request context : ℕ) : Kind → View → Prop
  | reading (update : Bool) (count : ℕ) (pending : List Statement) (unsent : ℕ)
      (rows : List (Option World))
      (hselects : ∀ statement ∈ pending, ∃ id, statement = .select request context id)
      (hcount : rows.length + pending.length + unsent = count) (hopen : rows.length < count) :
      Progress request context (kindOf update count)
        ⟨some ⟨context, collected rows ++ List.replicate (count - rows.length) ⟨0, 0⟩, count,
          rows.length, update⟩, pending, unsent, rows, [], []⟩
  | updating (rows : List (Option World)) (res : List World)
      (hres : res.map World.id = (collected rows).map World.id) :
      Progress request context (.asyncupdates rows.length)
        ⟨some ⟨context, res, rows.length, rows.length, true⟩,
          [.update request context (paramsOf res)], 0, rows, [paramsOf res], []⟩
  | asking (id : ℕ) :
      Progress request context .asyncdb ⟨none, [.asyncdb request context id], 0, [], [], []⟩
  | done (kind : Kind) (rows : List (Option World)) (executed : List Params) (response : Response)
      (h : Answered rows executed kind response) :
      Progress request context kind ⟨none, [], 0, rows, executed, [(context, response)]⟩

/-- Every request is at some point of its life, and nothing belongs to nobody. -/
structure Served (s : Server) : Prop where
  progress : ∀ request context kind, s.requests[request]? = some (context, kind) →
    Progress request context kind (s.view request)
  blank : ∀ request, s.requests.length ≤ request → s.view request = .blank
  lock : ∀ owner n, s.lock = some (owner, n) → 0 < n

end Progress

end FrameworkBenchmarks.Mormot.Async
