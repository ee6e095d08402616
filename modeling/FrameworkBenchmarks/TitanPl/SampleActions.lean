import FrameworkBenchmarks.TitanPl.System

/-!
# A small worker for concrete runs

Three actions: one that reads a file, one that reads two files one after the other, and one that
reports an error of its own.
-/

namespace FrameworkBenchmarks.TitanPl

open Common

/-- `return drift(t.fs.readFile(path))` -/
def readFile (path : String) : Action ℕ :=
  .drift (.single (some (.fsRead path))) fun
    | .ok value => .done value
    | .error err => .throw err

/-- Read one file, then answer with the contents of the other. -/
def readFiles (first second : String) : Action ℕ :=
  .drift (.single (some (.fsRead first))) fun
    | .ok _ => readFile second
    | .error err => .throw err

/-- The worker with the three actions. -/
def sampleWorker : Worker ℕ where
  actions name :=
    if name = "one" then some fun _ => readFile "a"
    else if name = "two" then some fun _ => readFiles "b" "c"
    else if name = "account" then some fun _ => .throw (.error "account SUSPENDED")
    else none
  trySend _ := true

theorem readFile_propagates (path : String) : (readFile path).Propagates :=
  ⟨rfl, fun outcome => by cases outcome <;> trivial⟩

/-- None of the actions catches the exception of a suspended drift call. -/
theorem sampleWorker_propagates (name : String) (action : RequestData → Action ℕ)
    (hact : sampleWorker.actions name = some action) (data : RequestData) :
    (action data).Propagates := by
  simp only [sampleWorker] at hact
  split at hact
  · obtain rfl := Option.some.inj hact
    exact readFile_propagates "a"
  · split at hact
    · obtain rfl := Option.some.inj hact
      refine ⟨rfl, fun outcome => ?_⟩
      cases outcome with
      | ok value => exact readFile_propagates "c"
      | error err => trivial
    · split at hact
      · obtain rfl := Option.some.inj hact
        trivial
      · cases hact

/-- A request for one of the actions. -/
def sampleRequest (name : String) : RequestData := ⟨name, none, "GET", "/", [], [], []⟩

/-- The state the sample worker reaches, if every command can be processed. -/
def sampleRun (cmds : List (Command ℕ Unit)) : Option (System ℕ Unit) :=
  exec (System.next sampleWorker) .init cmds

end FrameworkBenchmarks.TitanPl
