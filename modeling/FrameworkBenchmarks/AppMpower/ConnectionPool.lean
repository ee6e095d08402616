import FrameworkBenchmarks.AppMpower.BatchUpdateExecution

/-!
# Pooled connections of appMpower

With ODBC the connections are kept in two stacks, and with each connection its commands: in a stack,
or by their texts if the connection is keyed. A command keeps its text and its parameters. A request
takes a connection, gets a command for each of its statements, creates parameters, executes, and
gives everything back; an exception gives the connection back as well.
-/

namespace FrameworkBenchmarks.AppMpower.Pool

open FrameworkBenchmarks.Common
open FrameworkBenchmarks.Common.Sql

/-- `System.Data.Common.DbCommand`, with the number of its connection -/
structure DbCommand where
  connection : ℕ
  commandText : List UInt8
  parameters : Parameters

/-- What goes from a pool to a request and back: the number of the connection, and the numbers of
its commands. -/
structure ConnectionBase where
  dbConnection : ℕ
  dbCommands : List ℕ
  keyedDbCommands : List (List UInt8 × ℕ)

/-! ### Requests -/

/-- What `RawDb` does with a command. -/
inductive Operation where
  | createParameter (name : List UInt8) (value : ℤ)
  /-- the `Value` of a parameter that was created -/
  | setValue (name : List UInt8) (value : ℤ)
  | execute

/-- The parameters of a command after an operation. -/
def Operation.apply (parameters : Parameters) : Operation → Parameters
  | .createParameter name value => AppMpower.createParameter parameters name value
  | .setValue name value =>
    parameters.map fun parameter => if parameter.1 = name then (name, value) else parameter
  | .execute => parameters

def Operation.executes : Operation → Bool
  | .execute => true
  | _ => false

structure Statement where
  commandText : List UInt8
  operations : List Operation

structure Request where
  keyed : Bool
  statements : List Statement

def idName : List UInt8 := ascii "Id"

/-- `CreateReadCommand` or `CreateReadCommandById`, and then the operations in the block. -/
def readStatement (value : ℤ) (operations : List Operation) : Statement where
  commandText := ascii "SELECT * FROM world WHERE id=?"
  operations := .createParameter idName value :: operations

/-- The loop over the rows: each is read, and then a random number is drawn for the next one. -/
def readRows (randoms : List ℤ) : List Operation :=
  randoms.flatMap fun random => [.execute, .setValue idName random]

/-- The parameters of the batch statements. -/
def creations (parameters : Parameters) : List Operation :=
  parameters.map fun parameter => .createParameter parameter.1 parameter.2

/-- The calls of `RawDb`, with what is drawn and read in them: the first random number, the next
ones, the worlds with their new random numbers. -/
inductive RawDb where
  | loadSingleQueryRow (random : ℤ)
  | loadSingleQueryRowById (id : ℤ)
  | loadMultipleQueriesRows (random : ℤ) (randoms : List ℤ)
  | loadMultipleUpdatesRows (random : ℤ) (randoms : List ℤ) (worlds : List (World × ℤ))
  | loadFortunesRows
  | readMultipleRows (randoms : List ℤ)

/-- A count of the callers is at least one. -/
def RawDb.Valid : RawDb → Prop
  | .loadMultipleUpdatesRows _ _ worlds => 1 ≤ worlds.length
  | .readMultipleRows randoms => 1 ≤ randoms.length
  | _ => True

/-- The ODBC build with or without `MYSQL` -/
def odbcBuild (mysql : Bool) : Build := if mysql then .mysqlOdbc else .postgresOdbc

def RawDb.request (mysql : Bool) : RawDb → Request
  | .loadSingleQueryRow random => ⟨false, [readStatement random [.execute]]⟩
  | .loadSingleQueryRowById id => ⟨false, [readStatement id [.execute]]⟩
  | .loadMultipleQueriesRows random randoms => ⟨false, [readStatement random (readRows randoms)]⟩
  | .loadMultipleUpdatesRows random randoms worlds =>
    ⟨true, [readStatement random (readRows randoms),
      ⟨queryText (odbcBuild mysql) worlds.length,
        creations (parametersOf (odbcBuild mysql) worlds) ++ [.execute]⟩]⟩
  | .loadFortunesRows => ⟨false, [⟨ascii "SELECT * FROM fortune", [.execute]⟩]⟩
  | .readMultipleRows randoms =>
    ⟨false, [⟨repeated randoms.length (ascii "SELECT * FROM world WHERE id=?;"),
      creations (randoms.zipIdx.map fun random => (ids random.2, random.1)) ++
        [.execute]⟩]⟩

/-! ### Pools -/

/-- Where a request is. -/
inductive Stage where
  | start
  | connected (base : ConnectionBase)
  /-- a command is in use, with the operations that are left -/
  | command (base : ConnectionBase) (dbCommand : ℕ) (operations : List Operation)
  | disposed
  | failed

/-- A request with the statements that are left, and the texts and parameters it has executed. -/
structure Task where
  keyed : Bool
  statements : List Statement
  stage : Stage
  executed : List (List UInt8 × Parameters)

structure Pools where
  commands : ℕ → DbCommand
  createdCommands : ℕ
  createdConnections : ℕ
  /-- `_connectionsStack` of `DbConnections` and of `DbConnectionsKeyed` -/
  connectionsStack : Bool → List ConnectionBase
  tasks : ℕ → Task

def Pools.start (requests : ℕ → Request) : Pools where
  commands := fun _ => ⟨0, [], []⟩
  createdCommands := 0
  createdConnections := 0
  connectionsStack := fun _ => []
  tasks := fun i => ⟨(requests i).keyed, (requests i).statements, .start, []⟩

inductive Event where
  | connect (i : ℕ)
  | getCommand (i : ℕ)
  | operation (i : ℕ)
  | releaseCommand (i : ℕ)
  | dispose (i : ℕ)
  /-- an exception, before or behind the beginning of the block that releases the command -/
  | fail (i : ℕ) (inBlock : Bool)

namespace Pools

def setTask (s : Pools) (i : ℕ) (task : Task) : Pools :=
  { s with tasks := Function.update s.tasks i task }

def setCommand (s : Pools) (dbCommand : ℕ) (command : DbCommand) : Pools :=
  { s with commands := Function.update s.commands dbCommand command }

def setStack (s : Pools) (keyed : Bool) (stack : List ConnectionBase) : Pools :=
  { s with connectionsStack := Function.update s.connectionsStack keyed stack }

/-- `GetConnectionBase` -/
def getConnectionBase (s : Pools) (keyed : Bool) : ConnectionBase × Pools :=
  match s.connectionsStack keyed with
  | base :: stack => (base, s.setStack keyed stack)
  | [] =>
    (⟨s.createdConnections, [], []⟩, { s with createdConnections := s.createdConnections + 1 })

/-- `Release` of `DbConnections` or `DbConnectionsKeyed` -/
def releaseConnection (s : Pools) (keyed : Bool) (base : ConnectionBase) : Pools :=
  s.setStack keyed (base :: s.connectionsStack keyed)

/-- A command from the stack gets the text, and loses its parameters if it had another one. -/
def reuse (s : Pools) (dbCommand : ℕ) (commandText : List UInt8) : Pools :=
  if commandText ≠ (s.commands dbCommand).commandText then
    s.setCommand dbCommand { s.commands dbCommand with commandText, parameters := [] }
  else s

/-- `CreateCommand` -/
def createCommand (s : Pools) (base : ConnectionBase) (commandText : List UInt8) : Pools :=
  { s.setCommand s.createdCommands ⟨base.dbConnection, commandText, []⟩ with
    createdCommands := s.createdCommands + 1 }

/-- `GetCommand`, with what is left of the commands of the connection. -/
def getCommand (s : Pools) (keyed : Bool) (base : ConnectionBase) (commandText : List UInt8) :
    ℕ × ConnectionBase × Pools :=
  match base.dbCommands with
  | dbCommand :: dbCommands => (dbCommand, { base with dbCommands }, s.reuse dbCommand commandText)
  | [] =>
    match if keyed then base.keyedDbCommands.lookup commandText else none with
    | some dbCommand => (dbCommand, base, s)
    | none => (s.createdCommands, base, s.createCommand base commandText)

/-- `Release` of a command -/
def releaseCommand (s : Pools) (keyed : Bool) (base : ConnectionBase) (dbCommand : ℕ) :
    ConnectionBase :=
  if keyed then
    if (base.keyedDbCommands.lookup (s.commands dbCommand).commandText).isSome then base
    else
      { base with
        keyedDbCommands := ((s.commands dbCommand).commandText, dbCommand) :: base.keyedDbCommands }
  else { base with dbCommands := dbCommand :: base.dbCommands }

/-- What can happen to a request. -/
def next (s : Pools) : Event → Option Pools
  | .connect i =>
    match (s.tasks i).stage with
    | .start =>
      let got := s.getConnectionBase (s.tasks i).keyed
      some (got.2.setTask i { s.tasks i with stage := .connected got.1 })
    | _ => none
  | .getCommand i =>
    match (s.tasks i).stage, (s.tasks i).statements with
    | .connected base, statement :: statements =>
      let got := s.getCommand (s.tasks i).keyed base statement.commandText
      some (got.2.2.setTask i { s.tasks i with
        statements
        stage := .command got.2.1 got.1 statement.operations })
    | _, _ => none
  | .operation i =>
    match (s.tasks i).stage with
    | .command base dbCommand (operation :: operations) =>
      let command := s.commands dbCommand
      let executed := if operation.executes then [(command.commandText, command.parameters)] else []
      some ((s.setCommand dbCommand { command with
        parameters := operation.apply command.parameters }).setTask i { s.tasks i with
          stage := .command base dbCommand operations
          executed := (s.tasks i).executed ++ executed })
    | _ => none
  | .releaseCommand i =>
    match (s.tasks i).stage with
    | .command base dbCommand [] =>
      some (s.setTask i { s.tasks i with
        stage := .connected (s.releaseCommand (s.tasks i).keyed base dbCommand) })
    | _ => none
  | .dispose i =>
    match (s.tasks i).stage, (s.tasks i).statements with
    | .connected base, [] =>
      some ((s.releaseConnection (s.tasks i).keyed base).setTask i
        { s.tasks i with stage := .disposed })
    | _, _ => none
  | .fail i inBlock =>
    match (s.tasks i).stage with
    | .connected base =>
      some ((s.releaseConnection (s.tasks i).keyed base).setTask i
        { s.tasks i with stage := .failed })
    | .command base dbCommand _ =>
      let base := if inBlock then s.releaseCommand (s.tasks i).keyed base dbCommand else base
      some ((s.releaseConnection (s.tasks i).keyed base).setTask i
        { s.tasks i with stage := .failed })
    | _ => none

end Pools

/-! ### Without pools -/

/-- What the operations execute on a command. -/
def executions (commandText : List UInt8) :
    Parameters → List Operation → List (List UInt8 × Parameters)
  | _, [] => []
  | parameters, operation :: operations =>
    (if operation.executes then [(commandText, parameters)] else []) ++
      executions commandText (operation.apply parameters) operations

/-- What a request executes when each of its commands is a new one. -/
def Request.executions (request : Request) : List (List UInt8 × Parameters) :=
  request.statements.flatMap fun statement =>
    Pool.executions statement.commandText [] statement.operations

end FrameworkBenchmarks.AppMpower.Pool
