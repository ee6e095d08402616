import FrameworkBenchmarks.TitanPl.Updates

/-!
# What the updates action reports

The ids in the answer are those of the rows that earlier executions read, the numbers those that the
last execution drew; the rows were written by executions in between, each with draws of its own.
-/

namespace FrameworkBenchmarks.TitanPl

open Common

/-- The rows that the answer lists. -/
def reportRow (p : ℕ × ℕ) : Value ℕ := resultEntry (some (.number p.1)) p.2

/-- The answer that lists pairs of an id and a random number. -/
def report (pairs : List (ℕ × ℕ)) : Value ℕ :=
  responseJson (.array (pairs.map reportRow)) [("Server", "titanpl")]

/-- The (id, random number) pairs of the updates that have been executed. -/
def writtenPairs {D : Type} (s : Served ℕ D (PartialMap ℕ ℕ)) : List (ℕ × ℕ) :=
  s.executed.filterMap updatePair

/-- The request has been answered with the pairs that were written for it, in order. -/
def ReportsWritten {D : Type} (s : Served ℕ D (PartialMap ℕ ℕ)) : Prop :=
  ∃ timings, s.rt.sent = [(0, { json := report (writtenPairs s), timings })]

section reading

def idText : String := "\x7b\"id\":"

def numberText : String := ",\"randomNumber\":"

def closeText : String := "\x7d"

/-- The pair in front, and what follows it. -/
def readRow (l : List Char) : Option ((ℕ × ℕ) × List Char) := do
  let rest ← dropText idText l
  let (id, rest) ← readNat rest
  let rest ← dropText numberText rest
  let (randomNumber, rest) ← readNat rest
  let rest ← dropText closeText rest
  return ((id, randomNumber), rest)

theorem stringify_reportRow (p : ℕ × ℕ) :
    (reportRow p).stringify Nat.repr =
      idText ++ p.1.repr ++ numberText ++ p.2.repr ++ closeText := by
  have hid : Value.quote "id" = "\"id\"" := by decide
  have hnumber : Value.quote "randomNumber" = "\"randomNumber\"" := by decide
  simp only [reportRow, resultEntry, Option.toList_some, List.map_cons, List.map_nil,
    List.cons_append, List.nil_append, Value.stringify, Value.stringifyFields, hid, hnumber, idText,
    numberText, closeText]
  rw [← String.toList_inj]
  simp only [String.toList_append, List.append_assoc]
  rfl

/-- The row is read back, whatever follows it. -/
theorem readRow_append (p : ℕ × ℕ) (rest : List Char) :
    readRow (((reportRow p).stringify Nat.repr).toList ++ rest) = some (p, rest) := by
  have hid := readNat_repr p.1 (numberText.toList ++ (p.2.repr.toList ++
    (closeText.toList ++ rest))) (by simp [numberText])
  have hnumber := readNat_repr p.2 (closeText.toList ++ rest) (by simp [closeText])
  rw [stringify_reportRow, readRow]
  simp only [String.toList_append, List.append_assoc, dropText_append, hid, hnumber,
    Option.bind_eq_bind, Option.bind_some, Option.pure_def]

/-- The texts of two lists of rows are the same only for the same list. -/
theorem stringifyItems_injective : ∀ pairs pairs' : List (ℕ × ℕ),
    Value.stringifyItems Nat.repr (pairs.map reportRow) =
      Value.stringifyItems Nat.repr (pairs'.map reportRow) → pairs = pairs' := by
  have hitems (p : ℕ × ℕ) (pairs : List (ℕ × ℕ)) :
      ∃ rest, (Value.stringifyItems Nat.repr ((p :: pairs).map reportRow)).toList =
        ((reportRow p).stringify Nat.repr).toList ++ rest ∧
        (rest = [] ∧ pairs = [] ∨ rest = ',' ::
          (Value.stringifyItems Nat.repr (pairs.map reportRow)).toList ∧ pairs ≠ []) := by
    cases pairs with
    | nil => exact ⟨[], (List.append_nil _).symm, .inl ⟨rfl, rfl⟩⟩
    | cons q pairs =>
      refine ⟨_, ?_, .inr ⟨rfl, List.cons_ne_nil _ _⟩⟩
      simp only [List.map_cons, Value.stringifyItems, String.toList_append, List.append_assoc]
      rfl
  have hnil (p : ℕ × ℕ) (pairs : List (ℕ × ℕ)) :
      (Value.stringifyItems Nat.repr ((p :: pairs).map reportRow)).toList ≠ [] := by
    obtain ⟨rest, hrest, -⟩ := hitems p pairs
    intro h
    have hread := readRow_append p rest
    rw [← hrest, h] at hread
    cases hread
  intro pairs
  induction pairs with
  | nil =>
    intro pairs' h
    cases pairs' with
    | nil => rfl
    | cons p pairs' => exact absurd (congrArg String.toList h).symm (hnil p pairs')
  | cons p pairs ih =>
    intro pairs' h
    cases pairs' with
    | nil => exact absurd (congrArg String.toList h) (hnil p pairs)
    | cons q pairs' =>
      obtain ⟨rest, hrest, hend⟩ := hitems p pairs
      obtain ⟨rest', hrest', hend'⟩ := hitems q pairs'
      have hread := readRow_append p rest
      rw [← hrest, h, hrest', readRow_append] at hread
      obtain ⟨rfl, rfl⟩ := Prod.mk.inj (Option.some.inj hread)
      rcases hend with ⟨rfl, rfl⟩ | ⟨rfl, hne⟩
      · rcases hend' with ⟨-, rfl⟩ | ⟨hcons, -⟩
        · rfl
        · cases hcons
      · rcases hend' with ⟨hcons, -⟩ | ⟨hcons, -⟩
        · cases hcons
        · rw [ih pairs' (String.toList_injective (List.cons.inj hcons).2)]

/-- An answer lists one list of pairs only. -/
theorem report_injective {pairs pairs' : List (ℕ × ℕ)} (h : report pairs = report pairs') :
    pairs = pairs' := by
  apply stringifyItems_injective
  simp only [report, responseJson, Value.object.injEq, List.cons.injEq, Prod.mk.injEq, true_and,
    Value.string.injEq, and_true, Value.stringify] at h
  have hlist := congrArg String.toList h
  simp only [String.toList_append, List.append_cancel_right_eq, List.append_cancel_left_eq] at hlist
  exact String.toList_injective hlist

end reading

section loop

variable {conn : String} {draw : ℕ → ℕ}

/-- The rows that a selection of a present id returns. -/
def selectedRows (p : ℕ × ℕ) : Value ℕ :=
  .array [.object [("id", .number p.1), ("randomnumber", .number p.2)]]

/-- The results of the queries of the first iterations, each of which read a row. -/
def storedResults (rows : List (ℕ × ℕ)) : List (Value ℕ) :=
  rows.flatMap fun p => [selectedRows p, .array []]

/-- The pairs that an execution reports for rows read before: the numbers are its own. -/
def reportedPairs (draw : ℕ → ℕ) : ℕ → List (ℕ × ℕ) → List (ℕ × ℕ)
  | _, [] => []
  | i, p :: rows => (p.1, draw (2 * i + 1)) :: reportedPairs draw (i + 1) rows

/-- An execution passes the iterations whose results are stored. -/
theorem replayAction_updatesLoop (rows : List (ℕ × ℕ)) (remaining i : ℕ) (entries tail : List (Value ℕ)) :
    replayAction (updatesLoop conn draw (remaining + rows.length) i entries)
        (storedResults rows ++ tail) =
      replayAction (updatesLoop conn draw remaining (i + rows.length)
        (entries ++ (reportedPairs draw i rows).map reportRow)) tail := by
  induction rows generalizing i entries with
  | nil => simp [storedResults, reportedPairs]
  | cons p rows ih =>
    rw [List.length_cons, ← Nat.add_assoc, updatesLoop]
    have hnext := ih (i + 1) (entries ++ [reportRow (p.1, draw (2 * i + 1))])
    rw [Nat.add_right_comm i 1, List.append_assoc, List.singleton_append] at hnext
    exact hnext

theorem awaitedOp_updatesLoop (rows : List (ℕ × ℕ)) (remaining i : ℕ) (entries tail : List (Value ℕ)) :
    awaitedOp (updatesLoop conn draw (remaining + rows.length) i entries)
        (storedResults rows ++ tail) =
      awaitedOp (updatesLoop conn draw remaining (i + rows.length)
        (entries ++ (reportedPairs draw i rows).map reportRow)) tail := by
  induction rows generalizing i entries with
  | nil => simp [storedResults, reportedPairs]
  | cons p rows ih =>
    rw [List.length_cons, ← Nat.add_assoc, updatesLoop]
    have hnext := ih (i + 1) (entries ++ [reportRow (p.1, draw (2 * i + 1))])
    rw [Nat.add_right_comm i 1, List.append_assoc, List.singleton_append] at hnext
    exact hnext

variable (req : RequestData) {rows : List (ℕ × ℕ)}

/-- After some iterations the next row is read under the id of the execution under way. -/
theorem awaitedOp_select (hrows : rows.length < queryCount req) :
    awaitedOp (updates conn draw req) (storedResults rows) =
      some (.dbQuery conn (Statement.select (draw (2 * rows.length))).sql) := by
  obtain ⟨remaining, hcount⟩ : ∃ remaining, queryCount req = remaining + 1 + rows.length :=
    ⟨queryCount req - rows.length - 1, by omega⟩
  rw [updates, hcount, ← List.append_nil (storedResults rows), awaitedOp_updatesLoop, Nat.zero_add]
  rfl

/-- After the row has been read, it is written under the id of the execution under way. -/
theorem awaitedOp_update (hrows : rows.length < queryCount req) (read : Value ℕ) :
    awaitedOp (updates conn draw req) (storedResults rows ++ [read]) =
      some (.dbQuery conn
        (Statement.update (draw (2 * rows.length)) (draw (2 * rows.length + 1))).sql) := by
  obtain ⟨remaining, hcount⟩ : ∃ remaining, queryCount req = remaining + 1 + rows.length :=
    ⟨queryCount req - rows.length - 1, by omega⟩
  rw [updates, hcount, awaitedOp_updatesLoop, Nat.zero_add]
  rfl

/-- After all iterations the rows are reported. -/
theorem replayAction_report (hrows : rows.length = queryCount req) :
    replayAction (updates conn draw req) (storedResults rows) =
      some (.ok (report (reportedPairs draw 0 rows))) := by
  rw [updates, ← hrows, ← List.append_nil (storedResults rows), ← Nat.zero_add rows.length,
    replayAction_updatesLoop, List.nil_append]
  rfl

/-- If there was no row under the id, reading its id throws. -/
theorem replayAction_missing (hrows : rows.length < queryCount req) :
    replayAction (updates conn draw req) (storedResults rows ++ [.array [], .array []]) =
      some (.error (undefinedRead "id")) := by
  obtain ⟨remaining, hcount⟩ : ∃ remaining, queryCount req = remaining + 1 + rows.length :=
    ⟨queryCount req - rows.length - 1, by omega⟩
  rw [updates, hcount, replayAction_updatesLoop, Nat.zero_add]
  rfl

end loop

section run

variable {D : Type} {conn : String} {draw : ℕ → ℕ → ℕ} {durations : ℕ → D} {req : RequestData}
  {world : PartialMap ℕ ℕ}

/-- The worker after a number of resumes, for the numbers drawn in each execution. -/
def servedBy (conn : String) (draw : ℕ → ℕ → ℕ) (durations : ℕ → D) (req : RequestData)
    (world : PartialMap ℕ ℕ) (n : ℕ) : Served ℕ D (PartialMap ℕ ℕ) :=
  Served.after runSingleOp (fun k => updatesWorker conn (draw k)) durations
    { req with actionName := "updates" } world n

/-- The ids that were read in the first iterations. -/
def readIds (draw : ℕ → ℕ → ℕ) (n : ℕ) : List ℕ := (List.range n).map fun i => draw (2 * i) (2 * i)

/-- The pairs that were written in the first iterations. -/
def drawnPairs (draw : ℕ → ℕ → ℕ) (n : ℕ) : List (ℕ × ℕ) :=
  (List.range n).map fun i => (draw (2 * i + 1) (2 * i), draw (2 * i + 1) (2 * i + 1))

/-- The worker after some iterations, about to read the next row. -/
structure Progress (conn : String) (draw : ℕ → ℕ → ℕ) (req : RequestData) (world : PartialMap ℕ ℕ)
    (rows : List (ℕ × ℕ)) (s : Served ℕ D (PartialMap ℕ ℕ)) : Prop where
  waits : Awaiting s.rt (storedResults rows)
    (.dbQuery conn (Statement.select (draw (2 * rows.length) (2 * rows.length))).sql)
  kept : Kept s.rt { req with actionName := "updates" }
  present : ∀ id, Present s.ext id ↔ Present world id
  ids : rows.map Prod.fst = readIds draw rows.length
  written : writtenPairs s = drawnPairs draw rows.length

theorem length_storedResults (rows : List (ℕ × ℕ)) :
    (storedResults rows).length = 2 * rows.length := by
  induction rows with
  | nil => rfl
  | cons p rows ih =>
    simp only [storedResults, List.flatMap_cons, List.length_append, List.length_cons,
      List.length_nil] at ih ⊢
    omega

/-- The first execution reads the first row. -/
theorem progress_zero : Progress conn draw req world [] (servedBy conn draw durations req world 0) := by
  have hcount : ([] : List (ℕ × ℕ)).length < queryCount { req with actionName := "updates" } :=
    queryCount_pos req
  have hop : awaitedOp (updates conn (draw 0) { req with actionName := "updates" }) [] =
      some (.dbQuery conn (Statement.select (draw 0 0)).sql) :=
    awaitedOp_select { req with actionName := "updates" } hcount
  have hstart := awaiting_handleNewRequest (D := D) (w := updatesWorker conn (draw 0))
    (fun _ => rfl) rfl (updatesLoop_propagates conn (draw 0) _ 0 []) hop
  exact ⟨hstart.1, hstart.2, fun _ => Iff.rfl, rfl, rfl⟩

/-- The worker within an iteration, about to write the row. -/
structure Writing (conn : String) (draw : ℕ → ℕ → ℕ) (req : RequestData) (world : PartialMap ℕ ℕ)
    (rows : List (ℕ × ℕ)) (read : Value ℕ) (s : Served ℕ D (PartialMap ℕ ℕ)) : Prop where
  waits : Awaiting s.rt (storedResults rows ++ [read])
    (.dbQuery conn (Statement.update (draw (2 * rows.length + 1) (2 * rows.length))
      (draw (2 * rows.length + 1) (2 * rows.length + 1))).sql)
  kept : Kept s.rt { req with actionName := "updates" }
  present : ∀ id, Present s.ext id ↔ Present world id
  ids : rows.map Prod.fst = readIds draw rows.length
  written : writtenPairs s = drawnPairs draw rows.length

/-- The rows that a selection returns: one if there is a row under the id. -/
def readRows (world : PartialMap ℕ ℕ) (id : ℕ) : Value ℕ :=
  match world id with
  | none => .array []
  | some randomNumber => selectedRows (id, randomNumber)

theorem run_select (world : PartialMap ℕ ℕ) (id : ℕ) :
    (Statement.select id).run world = (readRows world id, world) := by
  cases hrow : world id with
  | none => simp only [Statement.run, readRows, hrow]
  | some randomNumber => simp only [Statement.run, readRows, hrow, selectedRows]

/-- The row has been read, and the next execution issues the write. -/
theorem Progress.write {s : Served ℕ D (PartialMap ℕ ℕ)} {rows : List (ℕ × ℕ)}
    (h : Progress conn draw req world rows s) (hrows : rows.length < queryCount req) (duration : D) :
    Writing conn draw req world rows (readRows s.ext (draw (2 * rows.length) (2 * rows.length)))
      (s.resume runSingleOp (updatesWorker conn (draw (2 * rows.length + 1))) duration) := by
  have hcount := queryCount_le req
  have hlength := length_storedResults rows
  rw [Served.resume_of_awaiting h.waits, runSingleOp_sql, run_select]
  have hresume := h.waits.resume_awaiting (w := updatesWorker conn (draw (2 * rows.length + 1)))
    (fun _ => rfl) h.kept (by omega) rfl (updatesLoop_propagates conn _ _ 0 [])
    (readRows s.ext (draw (2 * rows.length) (2 * rows.length))) duration
    (awaitedOp_update { req with actionName := "updates" } hrows _)
  refine ⟨hresume.1, hresume.2, h.present, h.ids, ?_⟩
  rw [writtenPairs, List.filterMap_append, List.filterMap_cons_none (updatePair_select _ _),
    List.filterMap_nil, List.append_nil]
  exact h.written

/-- One more pair is written. -/
theorem drawnPairs_succ (draw : ℕ → ℕ → ℕ) (n : ℕ) :
    drawnPairs draw (n + 1) =
      drawnPairs draw n ++ [(draw (2 * n + 1) (2 * n), draw (2 * n + 1) (2 * n + 1))] := by
  rw [drawnPairs, List.range_succ, List.map_append]
  rfl

section writing

variable {s : Served ℕ D (PartialMap ℕ ℕ)} {rows : List (ℕ × ℕ)} {read : Value ℕ}

/-- The worker after the row has been written. -/
def Served.written (conn : String) (draw : ℕ → ℕ → ℕ) (rows : List (ℕ × ℕ)) (duration : D)
    (s : Served ℕ D (PartialMap ℕ ℕ)) : Served ℕ D (PartialMap ℕ ℕ) :=
  s.resume runSingleOp (updatesWorker conn (draw (2 * rows.length + 2))) duration

/-- The write has been executed, and it changes no id. -/
theorem Writing.executed (h : Writing conn draw req world rows read s) (duration : D) :
    writtenPairs (s.written conn draw rows duration) = drawnPairs draw (rows.length + 1) ∧
      ∀ id, Present (s.written conn draw rows duration).ext id ↔ Present world id := by
  rw [Served.written, Served.resume_of_awaiting h.waits, runSingleOp_sql]
  constructor
  · rw [writtenPairs, List.filterMap_append, List.filterMap_cons_some (updatePair_update _ _ _),
      List.filterMap_nil, drawnPairs_succ, ← h.written]
    rfl
  · exact fun id => (Statement.present_run _ _ id).trans (h.present id)

/-- If there was no row to read, the request is answered with an error. -/
theorem Writing.missing (h : Writing conn draw req world rows (.array []) s)
    (hrows : rows.length < queryCount req) (duration : D) :
    Settled (s.written conn draw rows duration).rt (verdict (.error (undefinedRead "id"))) := by
  have hcount := queryCount_le req
  have hlength := length_storedResults rows
  rw [Served.written, Served.resume_of_awaiting h.waits, runSingleOp_sql]
  refine h.waits.resume_settled (w := updatesWorker conn (draw (2 * rows.length + 2)))
    (fun _ => rfl) h.kept (by simp; omega) rfl (updatesLoop_propagates conn _ _ 0 []) _ duration ?_
  rw [List.append_assoc]
  exact replayAction_missing { req with actionName := "updates" } hrows

theorem storedResults_concat (rows : List (ℕ × ℕ)) (p : ℕ × ℕ) :
    storedResults rows ++ [selectedRows p] ++ [.array []] = storedResults (rows ++ [p]) := by
  simp only [storedResults, List.flatMap_append, List.flatMap_singleton, List.append_assoc,
    List.cons_append, List.nil_append]

theorem readIds_concat {p : ℕ × ℕ} (hids : rows.map Prod.fst = readIds draw rows.length)
    (hp : p.1 = draw (2 * rows.length) (2 * rows.length)) :
    (rows ++ [p]).map Prod.fst = readIds draw (rows ++ [p]).length := by
  rw [List.map_append, hids, List.length_append, List.length_singleton, readIds, readIds,
    List.range_succ, List.map_append, List.map_singleton, List.map_singleton, hp]

/-- If more rows follow, the next one is read. -/
theorem Writing.next {p : ℕ × ℕ} (h : Writing conn draw req world rows (selectedRows p) s)
    (hp : p.1 = draw (2 * rows.length) (2 * rows.length))
    (hrows : rows.length + 1 < queryCount req) (duration : D) :
    Progress conn draw req world (rows ++ [p]) (s.written conn draw rows duration) := by
  have hcount := queryCount_le req
  have hlength := length_storedResults rows
  have hconcat : (rows ++ [p]).length = rows.length + 1 := by simp
  obtain ⟨hwritten, hpresent⟩ := h.executed duration
  have hresume := h.waits.resume_awaiting (w := updatesWorker conn (draw (2 * rows.length + 2)))
    (fun _ => rfl) h.kept (by simp; omega) rfl (updatesLoop_propagates conn _ _ 0 []) (.array [])
    duration (by
      rw [storedResults_concat]
      exact awaitedOp_select { req with actionName := "updates" } (hconcat ▸ hrows))
  have hstate : s.resume runSingleOp (updatesWorker conn (draw (2 * rows.length + 2))) duration = _ :=
    Served.resume_of_awaiting h.waits duration
  rw [runSingleOp_sql] at hstate
  rw [Served.written] at hwritten hpresent ⊢
  refine ⟨?_, ?_, hpresent, readIds_concat h.ids hp, hconcat ▸ hwritten⟩
  · have hdraw : 2 * (rows ++ [p]).length = 2 * rows.length + 2 := by omega
    rw [storedResults_concat, hdraw] at hresume
    rw [hstate, hdraw]
    exact hresume.1
  · rw [hstate]
    exact hresume.2

/-- After the last row the pairs are reported. -/
theorem Writing.report {p : ℕ × ℕ} (h : Writing conn draw req world rows (selectedRows p) s)
    (hrows : rows.length + 1 = queryCount req) (duration : D) :
    Settled (s.written conn draw rows duration).rt
      (.finish (report (reportedPairs (draw (2 * rows.length + 2)) 0 (rows ++ [p])))) := by
  have hcount := queryCount_le req
  have hlength := length_storedResults rows
  rw [Served.written, Served.resume_of_awaiting h.waits, runSingleOp_sql]
  refine h.waits.resume_settled (w := updatesWorker conn (draw (2 * rows.length + 2)))
    (fun _ => rfl) h.kept (by simp; omega) rfl (updatesLoop_propagates conn _ _ 0 []) _ duration
    (?_ : _ = some (.ok _))
  have hupdated (world : PartialMap ℕ ℕ) (id randomNumber : ℕ) :
      ((Statement.update id randomNumber).run world).1 = .array [] := rfl
  rw [hupdated, storedResults_concat]
  have hconcat : (rows ++ [p]).length = queryCount req := by
    rw [List.length_append, List.length_singleton, hrows]
  exact replayAction_report { req with actionName := "updates" } hconcat

end writing

/-- The rows read so far were all there, so the request is about to read the next one. -/
theorem exists_progress (conn : String) (draw : ℕ → ℕ → ℕ) (durations : ℕ → D) (req : RequestData)
    (world : PartialMap ℕ ℕ) {j : ℕ} (hj : j < queryCount req)
    (hpresent : ∀ i < j, Present world (draw (2 * i) (2 * i))) :
    ∃ rows, rows.length = j ∧
      Progress conn draw req world rows (servedBy conn draw durations req world (2 * j)) := by
  induction j with
  | zero => exact ⟨[], rfl, progress_zero⟩
  | succ j ih =>
    obtain ⟨rows, rfl, hprogress⟩ := ih (by omega) fun i hi => hpresent i (by omega)
    have hwriting := hprogress.write (by omega) (durations (2 * rows.length))
    obtain ⟨randomNumber, hrow⟩ := Option.isSome_iff_exists.1
      ((hprogress.present _).2 (hpresent rows.length (by omega)))
    have hread : readRows (servedBy conn draw durations req world (2 * rows.length)).ext
        (draw (2 * rows.length) (2 * rows.length)) =
        selectedRows (draw (2 * rows.length) (2 * rows.length), randomNumber) := by
      rw [readRows, hrow]
    rw [hread] at hwriting
    exact ⟨_, by simp, hwriting.next rfl hj (durations (2 * rows.length + 1))⟩

/-- The pairs that an execution reports, side by side. -/
theorem reportedPairs_eq_zip (draw : ℕ → ℕ) (i : ℕ) (rows : List (ℕ × ℕ)) :
    reportedPairs draw i rows =
      (rows.map Prod.fst).zip ((List.range' i rows.length).map fun k => draw (2 * k + 1)) := by
  induction rows generalizing i with
  | nil => rfl
  | cons p rows ih =>
    rw [reportedPairs, ih, List.length_cons, List.range'_succ]
    rfl

theorem reportedPairs_eq {rows : List (ℕ × ℕ)} (hids : rows.map Prod.fst = readIds draw rows.length)
    (last : ℕ → ℕ) :
    reportedPairs last 0 rows =
      (List.range rows.length).map fun i => (draw (2 * i) (2 * i), last (2 * i + 1)) := by
  rw [reportedPairs_eq_zip, hids, readIds, ← List.range_eq_range', List.zip_map']

/-- Every row is there, every id that is written is the one that was read, and every number that the
last execution draws is the one that was written. -/
structure DrawsAgree (draw : ℕ → ℕ → ℕ) (world : PartialMap ℕ ℕ) (count : ℕ) : Prop where
  present : ∀ i < count, Present world (draw (2 * i) (2 * i))
  ids : ∀ i < count, draw (2 * i) (2 * i) = draw (2 * i + 1) (2 * i)
  numbers : ∀ i < count, draw (2 * count) (2 * i + 1) = draw (2 * i + 1) (2 * i + 1)

/-- The reported pairs are the written ones if the draws agree. -/
theorem reported_eq_drawn_iff (draw : ℕ → ℕ → ℕ) (world : PartialMap ℕ ℕ) (count : ℕ)
    (hpresent : ∀ i < count, Present world (draw (2 * i) (2 * i))) :
    ((List.range count).map fun i => (draw (2 * i) (2 * i), draw (2 * count) (2 * i + 1))) =
      drawnPairs draw count ↔ DrawsAgree draw world count := by
  rw [drawnPairs, List.map_inj_left]
  simp only [List.mem_range, Prod.mk.injEq]
  constructor
  · intro h
    exact ⟨hpresent, fun i hi => (h i hi).1, fun i hi => (h i hi).2⟩
  · intro h i hi
    exact ⟨h.ids i hi, h.numbers i hi⟩

/-- A worker that has answered with some JSON reports what was written if that JSON is the report. -/
theorem Settled.reportsWritten_iff {s : Served ℕ D (PartialMap ℕ ℕ)} {json : Value ℕ}
    (h : Settled s.rt (.finish json)) : ReportsWritten s ↔ json = report (writtenPairs s) := by
  obtain ⟨timings, hsent⟩ := h.sent
  have hsent : s.rt.sent = [(0, { json, timings })] := hsent
  unfold ReportsWritten
  rw [hsent]
  constructor
  · rintro ⟨timings', heq⟩
    exact congrArg WorkerResult.json (Prod.mk.inj (List.cons.inj heq).1).2
  · rintro rfl
    exact ⟨timings, rfl⟩

/-- The worker comes to rest in a state. -/
def EndsIn (served : ℕ → Served ℕ D (PartialMap ℕ ℕ)) (s : Served ℕ D (PartialMap ℕ ℕ)) : Prop :=
  s.rt.asyncOps = [] ∧ ∃ n, ∀ m ≥ n, served m = s

theorem endsIn_of_idle {n : ℕ}
    (h : (servedBy conn draw durations req world n).rt.asyncOps = []) :
    EndsIn (servedBy conn draw durations req world) (servedBy conn draw durations req world n) :=
  ⟨h, n, fun _ hm => Served.after_of_idle hm h⟩

theorem verdict_undefinedRead :
    verdict (.error (undefinedRead "id") : DriftOutcome ℕ) = .finish (.errorObject
      "Cannot read properties of undefined (reading 'id')") := by
  have hsuspend : (undefinedRead "id").isSuspend = .ok false := by decide
  simp only [verdict, hsuspend]
  rfl

/-- The request is answered, with the pairs written for it if the draws agree. -/
theorem servedBy_reports_iff (conn : String) (draw : ℕ → ℕ → ℕ) (durations : ℕ → D)
    (req : RequestData) (world : PartialMap ℕ ℕ) :
    ∃ s, EndsIn (servedBy conn draw durations req world) s ∧
      (ReportsWritten s ↔ DrawsAgree draw world (queryCount req)) := by
  by_cases hpresent : ∀ i < queryCount req, Present world (draw (2 * i) (2 * i))
  · -- all rows are there: the last iteration reports
    obtain ⟨j, hj⟩ : ∃ j, j + 1 = queryCount req :=
      ⟨queryCount req - 1, Nat.sub_add_cancel (queryCount_pos req)⟩
    obtain ⟨rows, rfl, hprogress⟩ := exists_progress conn draw durations req world
      (j := j) (by omega) fun i hi => hpresent i (by omega)
    have hwriting := hprogress.write (by omega) (durations (2 * rows.length))
    obtain ⟨randomNumber, hrow⟩ := Option.isSome_iff_exists.1
      ((hprogress.present _).2 (hpresent rows.length (by omega)))
    rw [readRows, hrow] at hwriting
    have hids := readIds_concat (p := (draw (2 * rows.length) (2 * rows.length), randomNumber))
      hprogress.ids rfl
    have hsettled := hwriting.report hj (durations (2 * rows.length + 1))
    refine ⟨_, endsIn_of_idle (n := 2 * rows.length + 2) hsettled.idle, ?_⟩
    refine hsettled.reportsWritten_iff.trans ?_
    rw [(hwriting.executed _).1, reportedPairs_eq hids]
    rw [← reported_eq_drawn_iff draw world (queryCount req) hpresent, ← hj]
    simp only [List.length_append, List.length_singleton]
    exact ⟨report_injective, congrArg report⟩
  · -- the first row that is missing makes the action throw
    push Not at hpresent
    classical
    obtain ⟨hj, hmissing⟩ := Nat.find_spec hpresent
    have hbefore : ∀ i < Nat.find hpresent, Present world (draw (2 * i) (2 * i)) := by
      intro i hi
      by_contra hnot
      exact Nat.find_min hpresent hi ⟨by omega, hnot⟩
    obtain ⟨rows, hrows, hprogress⟩ :=
      exists_progress conn draw durations req world hj hbefore
    rw [← hrows] at hj hmissing hprogress
    have hwriting := hprogress.write hj (durations (2 * rows.length))
    have hnone : (servedBy conn draw durations req world (2 * rows.length)).ext
        (draw (2 * rows.length) (2 * rows.length)) = none := by
      rw [← Option.not_isSome_iff_eq_none]
      exact fun h => hmissing ((hprogress.present _).1 h)
    rw [readRows, hnone] at hwriting
    have hsettled := hwriting.missing hj (durations (2 * rows.length + 1))
    rw [verdict_undefinedRead] at hsettled
    refine ⟨_, endsIn_of_idle (n := 2 * rows.length + 2) hsettled.idle, ?_⟩
    refine hsettled.reportsWritten_iff.trans (iff_of_false ?_ fun h => ?_)
    · simp [report, responseJson, Value.errorObject]
    · exact hmissing (h.present _ hj)

end run

/-- A request for `updates` is answered with the pairs that were written for it exactly if every row
is there, every id drawn again for a write is the one that was read, and every number drawn again
for the answer is the one that was written. -/
theorem updates_reported_iff {D : Type} (conn : String) (round : ℚ → ℚ) (random : ℕ → ℕ → ℚ)
    (durations : ℕ → D) (req : RequestData) (world : PartialMap ℕ ℕ) :
    ∃ s, EndsIn (updatesServed conn round random durations req world) s ∧
      (ReportsWritten s ↔
        DrawsAgree (fun k n => worldNumber round (random k n)) world (queryCount req)) :=
  servedBy_reports_iff conn (fun k n => worldNumber round (random k n)) durations req world

/-- The second execution draws another id, and writes to another row than the one reported. -/
theorem updates_misreported :
    ¬ ∀ (conn : String) (round : ℚ → ℚ) (random : ℕ → ℕ → ℚ) (durations : ℕ → Unit)
      (req : RequestData) (world : PartialMap ℕ ℕ) (s : Served ℕ Unit (PartialMap ℕ ℕ)),
      EndsIn (updatesServed conn round random durations req world) s → ReportsWritten s := by
  intro h
  let random (k _n : ℕ) : ℚ := if k = 1 then 1 / 2 else 0
  obtain ⟨s, hends, hiff⟩ := servedBy_reports_iff "postgres"
    (fun k n => worldNumber id (random k n)) (fun _ => ()) ⟨"updates", none, "GET", "/updates", [],
      [], [("queries", "1")]⟩ (fun _ => some 7)
  have hagree := hiff.1 (h _ _ random _ _ _ s hends)
  have hid := hagree.ids 0 (queryCount_pos _)
  norm_num [random, worldNumber] at hid

end FrameworkBenchmarks.TitanPl
