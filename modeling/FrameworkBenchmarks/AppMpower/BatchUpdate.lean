import FrameworkBenchmarks.Common.SqlUpdates

/-!
# Batch updates of appMpower

`LoadMultipleUpdatesRows` takes the text of its update from `BatchUpdateString.Query` and creates the
parameters in loops of its own. The builds are the ones whose texts have the placeholder `?`. A text is kept
for its batch size, and with ODBC the connection keeps a command, with its parameters, for its text.
-/

namespace FrameworkBenchmarks.AppMpower

open FrameworkBenchmarks.Common
open FrameworkBenchmarks.Common.Sql

/-- The drivers and databases with positional placeholders. -/
inductive Build where
  | mysqlAdo
  | mysqlOdbc
  | postgresOdbc
  deriving DecidableEq

/-- `MYSQL` -/
def Build.mysql : Build → Bool
  | .postgresOdbc => false
  | _ => true

/-- `ODBC` -/
def Build.odbc : Build → Bool
  | .mysqlAdo => false
  | _ => true

structure World where
  id : ℤ
  randomNumber : ℤ

def MaxBatch : ℕ := 500

/-! ### Texts -/

def ids (i : ℕ) : List UInt8 := ascii "i" ++ decimal i

def randoms (i : ℕ) : List UInt8 := ascii "r" ++ decimal i

def jds (i : ℕ) : List UInt8 := ascii "j" ++ decimal i

/-- A text appended in each pass of a loop. -/
def repeated (n : ℕ) (text : List UInt8) : List UInt8 := (List.replicate n text).flatten

/-- The text that `Query` builds. -/
def queryText (build : Build) (batchSize : ℕ) : List UInt8 :=
  if build.mysql then repeated batchSize (ascii "UPDATE world SET randomNumber=? WHERE id=?;")
  else ascii "UPDATE world SET randomNumber=CASE id " ++ (repeated batchSize (ascii "WHEN ? THEN ? ") ++
    (ascii "ELSE randomnumber END WHERE id IN(" ++ (repeated (batchSize - 1) (ascii "?,") ++ ascii "?)")))

/-! ### Commands -/

/-- The parameters of a command in the order of their creation. -/
abbrev Parameters := List (List UInt8 × ℤ)

/-- A parameter that is there gets the value. -/
def createParameter : Parameters → List UInt8 → ℤ → Parameters
  | [], name, value => [(name, value)]
  | parameter :: parameters, name, value =>
    if parameter.1 = name then (name, value) :: parameters else parameter :: createParameter parameters name value

/-- The texts that `Query` keeps, and the commands of the connection. -/
structure Store where
  queries : ℕ → Option (List UInt8)
  keyedDbCommands : List UInt8 → Option Parameters

def Store.empty : Store := ⟨fun _ => none, fun _ => none⟩

/-- `BatchUpdateString.Query` -/
def query (build : Build) (store : Store) (batchSize : ℕ) : List UInt8 × Store :=
  match store.queries batchSize with
  | some text => (text, store)
  | none =>
    let text := queryText build batchSize
    (text, { store with queries := Function.update store.queries batchSize (some text) })

/-- `GetCommand`: without ODBC, the command is a new one. -/
def getCommand (build : Build) (store : Store) (text : List UInt8) : Parameters :=
  if build.odbc then (store.keyedDbCommands text).getD [] else []

/-- `Release`. A command that was taken from the store is still the one that is there. -/
def release (build : Build) (store : Store) (text : List UInt8) (parameters : Parameters) : Store :=
  if build.odbc then { store with keyedDbCommands := Function.update store.keyedDbCommands text (some parameters) }
  else store

/-- The two loops over the worlds. -/
def createParameters (build : Build) (parameters : Parameters) (worlds : List (World × ℤ)) : Parameters :=
  let parameters := worlds.zipIdx.foldl (fun parameters entry =>
    createParameter (createParameter parameters (ids entry.2) entry.1.1.id) (randoms entry.2) entry.1.2) parameters
  if build.mysql then parameters
  else worlds.zipIdx.foldl (fun parameters entry => createParameter parameters (jds entry.2) entry.1.1.id) parameters

/-- A call executes a text with its parameters and returns worlds. -/
structure Call where
  text : List UInt8
  parameters : Parameters
  worlds : List World

/-- `LoadMultipleUpdatesRows` with the worlds that are read and the random numbers that are drawn for them. -/
def loadMultipleUpdatesRows (build : Build) (store : Store) (worlds : List (World × ℤ)) : Call × Store :=
  let (text, store) := query build store worlds.length
  let parameters := createParameters build (getCommand build store text) worlds
  (⟨text, parameters, worlds.map fun entry => { entry.1 with randomNumber := entry.2 }⟩,
    release build store text parameters)

/-- The store behind the calls of a connection. -/
def storeAfter (build : Build) (calls : List (List (World × ℤ))) : Store :=
  calls.foldl (fun store worlds => (loadMultipleUpdatesRows build store worlds).2) .empty

/-- On every database, the text with the parameters in their order sets the random numbers of the rows of the worlds
to those of the worlds, and changes nothing else. -/
def Call.Stores (call : Call) : Prop := ∀ database : Database, ∃ database',
  execute (call.parameters.map Prod.snd) call.text database = some database' ∧
    Assigns (ascii "world") (ascii "randomnumber") (ascii "id")
      (call.worlds.map fun world => (world.id, world.randomNumber)) database database'

/-! ### Parameters -/

/-- The parameters of the alternatives. -/
def pairParameters (worlds : List (World × ℤ)) : Parameters :=
  worlds.zipIdx.flatMap fun entry => [(ids entry.2, entry.1.1.id), (randoms entry.2, entry.1.2)]

/-- The parameters of the list. -/
def keyParameters (worlds : List (World × ℤ)) : Parameters :=
  worlds.zipIdx.map fun entry => (jds entry.2, entry.1.1.id)

/-- What the loops create. -/
def parametersOf (build : Build) (worlds : List (World × ℤ)) : Parameters :=
  pairParameters worlds ++ if build.mysql then [] else keyParameters worlds

/-- The names that the loops use. -/
def namesOf (build : Build) (n : ℕ) : List (List UInt8) :=
  (List.range n).flatMap (fun i => [ids i, randoms i]) ++ if build.mysql then [] else (List.range n).map jds

theorem createParameters_eq (build : Build) (parameters : Parameters) (worlds : List (World × ℤ)) :
    createParameters build parameters worlds = (parametersOf build worlds).foldl (fun parameters parameter =>
      createParameter parameters parameter.1 parameter.2) parameters := by
  have hpairs : worlds.zipIdx.foldl (fun parameters entry =>
      createParameter (createParameter parameters (ids entry.2) entry.1.1.id) (randoms entry.2) entry.1.2) parameters =
      (pairParameters worlds).foldl (fun parameters parameter =>
        createParameter parameters parameter.1 parameter.2) parameters := by
    rw [pairParameters, List.foldl_flatMap]
    rfl
  unfold createParameters parametersOf
  rw [hpairs, List.foldl_append]
  cases build.mysql with
  | true => rfl
  | false =>
    rw [if_neg Bool.false_ne_true, if_neg Bool.false_ne_true, keyParameters, List.foldl_map]

theorem createParameter_of_not_mem {parameters : Parameters} {name : List UInt8}
    (h : name ∉ parameters.map Prod.fst) (value : ℤ) :
    createParameter parameters name value = parameters ++ [(name, value)] := by
  induction parameters with
  | nil => rfl
  | cons parameter parameters ih =>
    rw [List.map_cons, List.mem_cons, not_or] at h
    rw [createParameter, if_neg fun heq => h.1 heq.symm, ih h.2, List.cons_append]

theorem createParameter_of_mem {before after : Parameters} {name : List UInt8} (h : name ∉ before.map Prod.fst)
    (old value : ℤ) :
    createParameter (before ++ (name, old) :: after) name value = before ++ (name, value) :: after := by
  induction before with
  | nil => exact if_pos rfl
  | cons parameter before ih =>
    rw [List.map_cons, List.mem_cons, not_or] at h
    rw [List.cons_append, createParameter, if_neg fun heq => h.1 heq.symm, ih h.2, List.cons_append]

/-- A command takes over the values, whether its parameters are to be created or are there from an earlier call. -/
theorem foldl_createParameter {before old parameters : Parameters}
    (hold : old = [] ∨ old.map Prod.fst = parameters.map Prod.fst)
    (hnodup : ((before ++ parameters).map Prod.fst).Nodup) :
    parameters.foldl (fun parameters parameter => createParameter parameters parameter.1 parameter.2) (before ++ old) =
      before ++ parameters := by
  induction parameters generalizing before old with
  | nil =>
    rcases hold with rfl | hold
    · rfl
    · rw [List.map_nil, List.map_eq_nil_iff] at hold
      rw [hold, List.foldl_nil]
  | cons parameter parameters ih =>
    have hfresh : parameter.1 ∉ before.map Prod.fst := by
      rw [List.map_append, List.map_cons, List.nodup_append] at hnodup
      intro hmem
      exact hnodup.2.2 _ hmem _ List.mem_cons_self rfl
    have hnodup' : (((before ++ [parameter]) ++ parameters).map Prod.fst).Nodup := by
      rwa [List.append_assoc]
    have hstep : ∃ old', createParameter (before ++ old) parameter.1 parameter.2 = (before ++ [parameter]) ++ old' ∧
        (old' = [] ∨ old'.map Prod.fst = parameters.map Prod.fst) := by
      rcases hold with rfl | hold
      · refine ⟨[], ?_, Or.inl rfl⟩
        rw [List.append_nil, List.append_nil, createParameter_of_not_mem hfresh]
      · cases old with
        | nil => cases hold
        | cons first old =>
          rw [List.map_cons, List.map_cons, List.cons.injEq] at hold
          refine ⟨old, ?_, Or.inr hold.2⟩
          obtain ⟨name, value⟩ := first
          obtain rfl := hold.1
          rw [createParameter_of_mem hfresh, List.append_assoc, List.singleton_append]
    obtain ⟨old', heq, hold'⟩ := hstep
    rw [List.foldl_cons, heq, ih hold' hnodup', List.append_assoc, List.singleton_append]

end FrameworkBenchmarks.AppMpower
