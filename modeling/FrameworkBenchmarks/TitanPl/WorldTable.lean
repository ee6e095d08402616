import FrameworkBenchmarks.Common.PartialMap
import FrameworkBenchmarks.TitanPl.Action
import Mathlib.Data.List.Basic

/-!
# The world table

The two statements that the benchmark actions send to the database, as the texts they are sent as,
and what the database does with such a text. A row of the table is its random number, under its id.
-/

namespace FrameworkBenchmarks.TitanPl

open Common

/-- The statements on the table. -/
inductive Statement where
  | select (id : ℕ)
  | update (id randomNumber : ℕ)
  deriving DecidableEq

/-- The words of the statements. -/
def selectText : String := "SELECT id, randomnumber FROM world WHERE id = "

def updateText : String := "UPDATE world SET randomnumber = "

def whereText : String := " WHERE id = "

/-- The text of a statement. -/
def Statement.sql : Statement → String
  | .select id => selectText ++ id.repr
  | .update id randomNumber => updateText ++ randomNumber.repr ++ whereText ++ id.repr

/-- What follows a text. -/
def dropText (text : String) (l : List Char) : Option (List Char) :=
  l.dropPrefix? text.toList

/-- The number in front, and what follows it. -/
def readNat (l : List Char) : Option (ℕ × List Char) :=
  match l.takeWhile Char.isDigit with
  | [] => none
  | d :: ds => some (Nat.ofDigitChars 10 (d :: ds) 0, l.dropWhile Char.isDigit)

/-- The number that makes up the whole text. -/
def readAllNat (l : List Char) : Option ℕ := do
  let (n, rest) ← readNat l
  if rest = [] then some n else none

/-- The statement that a text is. -/
def Statement.parse (sql : String) : Option Statement :=
  match dropText selectText sql.toList with
  | some rest => (readAllNat rest).map .select
  | none => do
    let rest ← dropText updateText sql.toList
    let (randomNumber, rest) ← readNat rest
    let rest ← dropText whereText rest
    let id ← readAllNat rest
    return .update id randomNumber

/-- The rows that a statement returns, as the JSON of the worker, and the table after it. -/
def Statement.run (world : PartialMap ℕ ℕ) : Statement → Value ℕ × PartialMap ℕ ℕ
  | .select id =>
    match world id with
    | none => (.array [], world)
    | some randomNumber =>
      (.array [.object [("id", .number id), ("randomnumber", .number randomNumber)]], world)
  | .update id randomNumber =>
    (.array [], if (world id).isSome then world.insert id randomNumber else world)

/-- The operations of `run_single_op` on the database. -/
def runSingleOp (world : PartialMap ℕ ℕ) : TitanAsyncOp → Value ℕ × PartialMap ℕ ℕ
  | .dbQuery _ query =>
    match Statement.parse query with
    | none => (.errorObject "db error: ERROR: syntax error", world)
    | some statement => statement.run world
  | _ => (.errorObject "Invalid operation", world)

/-- The (id, random number) pair of an operation that updates a row. -/
def updatePair : TitanAsyncOp → Option (ℕ × ℕ)
  | .dbQuery _ query =>
    match Statement.parse query with
    | some (.update id randomNumber) => some (id, randomNumber)
    | _ => none
  | _ => none

theorem dropText_append (text : String) (l : List Char) :
    dropText text (text.toList ++ l) = some l :=
  List.dropPrefix?_append_of_beq l (beq_self_eq_true _)

/-- A number is read back in front of anything but a digit. -/
theorem readNat_repr (n : ℕ) (rest : List Char) (hrest : ∀ c ∈ rest.head?, c.isDigit = false) :
    readNat (n.repr.toList ++ rest) = some (n, rest) := by
  have hdigits : ∀ c ∈ Nat.toDigits 10 n, c.isDigit = true :=
    fun c hc => Nat.isDigit_of_mem_toDigits (by omega) (by omega) hc
  have htake : (Nat.toDigits 10 n ++ rest).takeWhile Char.isDigit = Nat.toDigits 10 n := by
    rw [List.takeWhile_append_of_pos hdigits]
    cases rest with
    | nil => simp
    | cons c rest => simp [hrest c rfl]
  have hdrop : (Nat.toDigits 10 n ++ rest).dropWhile Char.isDigit = rest := by
    rw [List.dropWhile_append_of_pos hdigits]
    cases rest with
    | nil => rfl
    | cons c rest => simp [hrest c rfl]
  rw [readNat, Nat.toList_repr, htake, hdrop]
  cases hn : Nat.toDigits 10 n with
  | nil => exact absurd hn Nat.toDigits_ne_nil
  | cons d ds =>
    dsimp only
    rw [← hn, Nat.ofDigitChars_ten_toDigits]

theorem readAllNat_repr (n : ℕ) : readAllNat n.repr.toList = some n := by
  have hread := readNat_repr n [] (by simp)
  rw [List.append_nil] at hread
  rw [readAllNat, hread]
  rfl

/-- An update is not taken for a selection. -/
theorem dropText_selectText (l : List Char) : dropText selectText (updateText.toList ++ l) = none := by
  simp [dropText, selectText, updateText, List.dropPrefix?]

/-- The text of a statement is read back. -/
theorem Statement.parse_sql (statement : Statement) : parse statement.sql = some statement := by
  cases statement with
  | select id =>
    rw [parse, sql, String.toList_append, dropText_append]
    dsimp only
    rw [readAllNat_repr, Option.map_some]
  | update id randomNumber =>
    have hread := readNat_repr randomNumber (whereText.toList ++ id.repr.toList) (by simp [whereText])
    rw [parse, sql]
    simp only [String.toList_append, List.append_assoc]
    rw [dropText_selectText, dropText_append, Option.bind_eq_bind, Option.bind_some, hread,
      Option.bind_eq_bind, Option.bind_some, dropText_append, Option.bind_eq_bind,
      Option.bind_some, readAllNat_repr]
    rfl

/-- An operation with the text of a statement runs it. -/
theorem runSingleOp_sql (world : PartialMap ℕ ℕ) (conn : String) (statement : Statement) :
    runSingleOp world (.dbQuery conn statement.sql) = statement.run world := by
  simp only [runSingleOp, Statement.parse_sql]

theorem updatePair_select (conn : String) (id : ℕ) :
    updatePair (.dbQuery conn (Statement.select id).sql) = none := by
  simp only [updatePair, Statement.parse_sql]

theorem updatePair_update (conn : String) (id randomNumber : ℕ) :
    updatePair (.dbQuery conn (Statement.update id randomNumber).sql) = some (id, randomNumber) := by
  simp only [updatePair, Statement.parse_sql]

/-- The table has a row under the id. -/
def Present (world : PartialMap ℕ ℕ) (id : ℕ) : Prop := (world id).isSome = true

/-- Statements change random numbers only: the ids in the table stay. -/
theorem Statement.present_run (world : PartialMap ℕ ℕ) (statement : Statement) (id : ℕ) :
    Present (statement.run world).2 id ↔ Present world id := by
  cases statement with
  | select id' =>
    have hsame : (run world (.select id')).2 = world := by
      cases hrow : world id' <;> simp only [run, hrow]
    rw [hsame]
  | update id' randomNumber =>
    unfold run Present
    by_cases hsome : (world id').isSome = true
    · simp only [hsome, if_true, PartialMap.insert_apply]
      by_cases hid : id = id'
      · simp [hid, hsome]
      · simp [hid]
    · simp only [hsome, if_false, Bool.false_eq_true]

end FrameworkBenchmarks.TitanPl
