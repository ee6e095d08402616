import Mathlib.Data.Int.Notation
import Mathlib.Data.List.Basic
import Mathlib.Data.Nat.Notation

/-!
# Pipelined reads of the mORMot server

`GetRawRandomWorlds` queues all its selects, each with a sync, and reads their results behind that. It is the same
connection that the next call of the thread uses, so what a call leaves behind is read by a later one.
-/

namespace FrameworkBenchmarks.Mormot

structure World where
  id : ℕ
  randomNumber : ℤ
  deriving DecidableEq

/-- A select of a random id, with the random number of its row, if there is a row. -/
structure Select where
  id : ℕ
  number : Option ℤ

def Select.row (select : Select) : Option World := select.number.map fun number => ⟨select.id, number⟩

/-- What the server sends back: the row of a select, or none, and the syncs. -/
inductive Reply where
  | result (row : Option World)
  | sync

/-- A connection with the replies that have not been read, and the row that `Step` finds. -/
structure Connection where
  pipelineMode : Bool
  pending : List Reply
  current : Option World

def Connection.fresh : Connection := ⟨false, [], none⟩

namespace Connection

def enterPipelineMode (conn : Connection) : Connection := { conn with pipelineMode := true }

def exitPipelineMode (conn : Connection) : Connection := { conn with pipelineMode := false }

def sendPipelinePrepared (select : Select) (conn : Connection) : Connection :=
  { conn with pending := conn.pending ++ [.result select.row] }

def pipelineSync (conn : Connection) : Connection := { conn with pending := conn.pending ++ [.sync] }

def getPipelineResult (conn : Connection) : Connection :=
  match conn.pending with
  | .result row :: pending => { conn with pending := pending, current := row }
  | .sync :: pending => { conn with pending := pending, current := none }
  | [] => { conn with current := none }

def releaseRows (conn : Connection) : Connection := { conn with current := none }

/-- It fails where another reply is next. -/
def checkPipelineSync (conn : Connection) : Option Connection :=
  match conn.pending with
  | .sync :: pending => some { conn with pending := pending }
  | _ => none

end Connection

inductive Outcome where
  | worlds (res : List World)
  | failed
  | raised

/-- The first loop. -/
def sendSelects (selects : List Select) (conn : Connection) : Connection :=
  selects.foldl (fun conn select => (conn.sendPipelinePrepared select).pipelineSync) conn

/-- The second loop, with the results that are still to be read. -/
def readResults : ℕ → List World → Connection → Outcome × Connection
  | 0, res, conn => (.worlds res, conn.exitPipelineMode)
  | n + 1, res, conn =>
    let conn := conn.getPipelineResult
    match conn.current with
    | none => (.failed, conn)
    | some world =>
      match conn.releaseRows.checkPipelineSync with
      | none => (.raised, conn.releaseRows)
      | some conn => readResults n (res ++ [world]) conn

def getRawRandomWorlds (selects : List Select) (conn : Connection) : Outcome × Connection :=
  readResults selects.length [] (sendSelects selects conn.enterPipelineMode)

/-! ### Calls one after the other -/

/-- No pipeline mode, and nothing to be read. -/
def Connection.Clean (conn : Connection) : Prop := conn.pipelineMode = false ∧ conn.pending = []

/-- The worlds that are returned are the rows of the selects, in their order. -/
def Outcome.Own (outcome : Outcome) (selects : List Select) : Prop :=
  ∀ res, outcome = .worlds res → res.map some = selects.map Select.row

/-- Every call leaves the connection clean and returns rows of its own. -/
def AllClean : Connection → List (List Select) → Prop
  | _, [] => True
  | conn, selects :: calls => (getRawRandomWorlds selects conn).2.Clean ∧
      (getRawRandomWorlds selects conn).1.Own selects ∧ AllClean (getRawRandomWorlds selects conn).2 calls

/-- The replies to some selects. -/
def replies (selects : List Select) : List Reply := selects.flatMap fun select => [.result select.row, .sync]

theorem sendSelects_eq (selects : List Select) (conn : Connection) :
    sendSelects selects conn = { conn with pending := conn.pending ++ replies selects } := by
  induction selects generalizing conn with
  | nil =>
    rw [replies, List.flatMap_nil, List.append_nil]
    rfl
  | cons select selects ih =>
    have hstep := ih ((conn.sendPipelinePrepared select).pipelineSync)
    rw [sendSelects, List.foldl_cons, ← sendSelects, hstep]
    simp [Connection.sendPipelinePrepared, Connection.pipelineSync, replies]

/-- A row that is there is read with its sync. -/
theorem readResults_row {select : Select} {number : ℤ} (h : select.number = some number) (selects : List Select)
    (res : List World) {conn : Connection} (hpending : conn.pending = replies (select :: selects)) :
    readResults (select :: selects).length res conn =
      readResults selects.length (res ++ [⟨select.id, number⟩]) ⟨conn.pipelineMode, replies selects, none⟩ := by
  have hrow : select.row = some ⟨select.id, number⟩ := by
    rw [Select.row, h]
    rfl
  rw [List.length_cons, readResults, Connection.getPipelineResult, hpending]
  simp only [replies, List.flatMap_cons, List.cons_append, hrow]
  rfl

/-- All rows are there. -/
theorem readResults_rows {selects : List Select} (h : ∀ select ∈ selects, select.number.isSome) (res : List World)
    {conn : Connection} (hpending : conn.pending = replies selects) :
    ∃ rows, rows.map some = selects.map Select.row ∧ (readResults selects.length res conn).1 = .worlds (res ++ rows) ∧
      (readResults selects.length res conn).2.Clean := by
  induction selects generalizing res conn with
  | nil => exact ⟨[], rfl, by rw [List.append_nil]; rfl, rfl, hpending⟩
  | cons select selects ih =>
    obtain ⟨number, hnumber⟩ := Option.isSome_iff_exists.mp (h select List.mem_cons_self)
    have hrow : select.row = some ⟨select.id, number⟩ := by
      rw [Select.row, hnumber]
      rfl
    obtain ⟨rows, hrows, houtcome, hclean⟩ := ih (fun select' hselect' => h select' (List.mem_cons_of_mem select hselect'))
      (res ++ [⟨select.id, number⟩]) (rfl : (Connection.mk conn.pipelineMode (replies selects) none).pending = _)
    rw [readResults_row hnumber selects res hpending]
    refine ⟨⟨select.id, number⟩ :: rows, by rw [List.map_cons, List.map_cons, hrows, hrow], ?_, hclean⟩
    rw [houtcome, List.append_assoc]
    rfl

/-- A row is missing: its sync is still to be read, whatever comes behind it. -/
theorem readResults_missing {selects : List Select} (h : ∃ select ∈ selects, select.number = none) (res : List World)
    {conn : Connection} (hpending : conn.pending = replies selects) :
    (readResults selects.length res conn).1 = .failed ∧
      .sync ∈ (readResults selects.length res conn).2.pending ∧
      (readResults selects.length res conn).2.pipelineMode = conn.pipelineMode := by
  induction selects generalizing res conn with
  | nil =>
    obtain ⟨select, hselect, _⟩ := h
    cases hselect
  | cons select selects ih =>
    cases hnumber : select.number with
    | none =>
      have hrow : select.row = none := by
        rw [Select.row, hnumber]
        rfl
      have hread : readResults (select :: selects).length res conn =
          (.failed, ⟨conn.pipelineMode, .sync :: replies selects, none⟩) := by
        rw [List.length_cons, readResults, Connection.getPipelineResult, hpending]
        simp only [replies, List.flatMap_cons, List.cons_append, hrow]
        rfl
      rw [hread]
      exact ⟨rfl, List.mem_cons_self, rfl⟩
    | some number =>
      have hrest : ∃ select' ∈ selects, select'.number = none := by
        obtain ⟨missing, hmissing, hnone⟩ := h
        rcases List.mem_cons.mp hmissing with rfl | hmissing
        · rw [hnumber] at hnone
          cases hnone
        · exact ⟨missing, hmissing, hnone⟩
      rw [readResults_row hnumber selects res hpending]
      exact ih hrest _ rfl

/-- A call on a clean connection leaves it clean if and only if each of its selects has a row, and returns the rows then. -/
theorem getRawRandomWorlds_clean_iff {conn : Connection} (hconn : conn.Clean) (selects : List Select) :
    ((getRawRandomWorlds selects conn).2.Clean ↔ ∀ select ∈ selects, select.number.isSome) ∧
      (getRawRandomWorlds selects conn).1.Own selects := by
  have hpending : (sendSelects selects conn.enterPipelineMode).pending = replies selects := by
    rw [sendSelects_eq]
    exact (congrArg (· ++ replies selects) hconn.2).trans (List.nil_append _)
  unfold getRawRandomWorlds
  by_cases hrows : ∀ select ∈ selects, select.number.isSome
  · obtain ⟨rows, hown, houtcome, hclean⟩ := readResults_rows hrows [] hpending
    refine ⟨iff_of_true hclean hrows, fun res hres => ?_⟩
    rw [houtcome] at hres
    rw [← Outcome.worlds.inj hres]
    exact hown
  · have hmissing : ∃ select ∈ selects, select.number = none := by
      simpa using hrows
    obtain ⟨houtcome, hsync, _⟩ := readResults_missing hmissing [] hpending
    refine ⟨iff_of_false (fun hclean => ?_) hrows, fun res hres => ?_⟩
    · rw [hclean.2] at hsync
      cases hsync
    · rw [houtcome] at hres
      cases hres

/-- Over every sequence of calls on one connection, all of them leave it clean and return rows of their own if and only if
every select of every call has a row. -/
theorem allClean_iff (calls : List (List Select)) :
    AllClean .fresh calls ↔ ∀ selects ∈ calls, ∀ select ∈ selects, select.number.isSome := by
  have hrun : ∀ {conn : Connection}, conn.Clean →
      (AllClean conn calls ↔ ∀ selects ∈ calls, ∀ select ∈ selects, select.number.isSome) := by
    induction calls with
    | nil => exact fun _ => iff_of_true trivial fun selects hselects => (nomatch hselects)
    | cons selects calls ih =>
      intro conn hconn
      have hcall := getRawRandomWorlds_clean_iff hconn selects
      rw [AllClean, List.forall_mem_cons, ← hcall.1]
      constructor
      · rintro ⟨hclean, _, hrest⟩
        exact ⟨hclean, (ih hclean).mp hrest⟩
      · rintro ⟨hclean, hrest⟩
        exact ⟨hclean, hcall.2, (ih hclean).mpr hrest⟩
  exact hrun ⟨rfl, rfl⟩

/-- One call whose select finds no row leaves pipeline mode on, and a sync to be read. -/
theorem allClean_missing : ¬AllClean .fresh [[⟨7, none⟩]] := by
  rintro ⟨hclean, _⟩
  cases hclean.1

end FrameworkBenchmarks.Mormot
