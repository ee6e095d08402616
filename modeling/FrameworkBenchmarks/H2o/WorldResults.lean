import FrameworkBenchmarks.H2o.WorldSteps

/-!
# What concurrent sub-queries deliver

The rows of `/queries` and `/updates` come in any order and are stored into the array that still
holds the ids to be asked for. Row after row, the first part of the array holds what has come, the
last part holds the ids that are left, and the sub-queries in flight account for the rest.
-/

namespace FrameworkBenchmarks.H2o.World

open Common Scripted

/-- An event and the answers of the environment while it is handled. -/
abbrev Label := Event × List Answer

section History

/-- The rows that the database has returned, in the order of their arrival. -/
def rows (labels : List Label) : List QueryResult :=
  labels.filterMap fun
    | (.result _ (.tuplesOk row), _) => some row
    | _ => none

/-- All answers of the environment. -/
def allAnswers (labels : List Label) : List Answer := labels.flatMap (·.2)

/-- How often `complete_multiple_query` has run, told by what it asks for. -/
def completions (doUpdate : Bool) (labels : List Label) : ℕ :=
  (allAnswers labels).countP (·.isCompletion doUpdate)

/-- The sub-queries that are no longer held by the database client when an event is handled. -/
def Event.released : Event → List ℕ
  | .error p _ | .timeout p | .result p _ => [p]
  | .dispose => []

/-- What is sent for the sub-queries that are outstanding now and were not before. -/
def Request.submitted (before : List ℕ) (s : Request) : List QueryParam :=
  (s.outstanding.filter (· ∉ before)).reverse.filterMap (s.ctx.queryParam[·]?)

/-- What a run sends to the database. -/
def submissions : Request → List Label → List QueryParam
  | _, [] => []
  | s, label :: labels =>
    match s.next label with
    | none => []
    | some s' => s'.submitted (s.outstanding.diff label.1.released) ++ submissions s' labels

/-- Everything that is sent to the database for a request. -/
def issued (s₀ : Request) (labels : List Label) : List QueryParam :=
  s₀.submitted [] ++ submissions s₀ labels

variable {labels : List Label} {p : ℕ} {row : QueryResult} {answers : List Answer}

theorem rows_concat_row :
    rows (labels ++ [(.result p (.tuplesOk row), answers)]) = rows labels ++ [row] := by
  simp [rows]

theorem rows_concat_commandOk :
    rows (labels ++ [(.result p .commandOk, answers)]) = rows labels := by
  simp [rows]

theorem rows_concat_dispose : rows (labels ++ [(.dispose, answers)]) = rows labels := by
  simp [rows]

theorem completions_concat (doUpdate : Bool) (label : Label) :
    completions doUpdate (labels ++ [label]) =
      completions doUpdate labels + label.2.countP (·.isCompletion doUpdate) := by
  simp [completions, allAnswers]

theorem submissions_cons {s s' : Request} {label : Label} (h : s.next label = some s') :
    submissions s (label :: labels) =
      s'.submitted (s.outstanding.diff label.1.released) ++ submissions s' labels := by
  rw [submissions, h]

end History

/-- No sub-query fails: a query gets the row with the id that was sent, and an update is carried out.
The client may disconnect at any time. -/
def Succeeds (s : Request) : Event → Prop
  | .result p (.tuplesOk row) => s.ctx.queryParam[p]? = some (worldQuery row.id)
  | .result p .commandOk => HasCallback s.ctx p .onUpdateResult
  | .dispose => True
  | _ => False

/-- Nor does the submission of one. -/
def Undisturbed (s : Request) (label : Label) : Prop :=
  Succeeds s label.1 ∧ .accepts false ∉ label.2

/-- The items that are due, in terms of what was sent to the database and what came back. -/
def Due : Bool → List ℕ → List QueryParam → List QueryResult → List QueryResult → Prop
  | false, ids, issued, rows, items => issued = ids.map worldQuery ∧ items = rows
  | true, ids, issued, _, items =>
    issued = ids.map worldQuery ++ [updateQuery items] ∧
      (items.map (·.id)).Perm ids ∧ (items.map (·.id)).Pairwise (· ≤ ·)

/-- All rows have come, one for each id, and `complete_multiple_query` has run. -/
structure Collected (doUpdate : Bool) (ids : List ℕ) (labels : List Label) (s : Request) : Prop where
  rows : ((rows labels).map (·.id)).Perm ids
  completions : completions doUpdate labels = 1
  numResult : s.ctx.numResult = ids.length

/-- Some of the ids have been sent, each in its turn, and the others still stand in the array. -/
def InTurn (ids : List ℕ) (issued : List QueryParam) (s : Request) : Prop :=
  ∃ k, issued.filter (·.onResult = .onMultipleQueryResult) = (ids.take k).map worldQuery ∧
    s.ctx.res.drop k = (ids.drop k).map fun id => ⟨id, 0⟩

/-- What the sub-queries of a request have come to. -/
structure Delivered (doUpdate : Bool) (ids : List ℕ) (issued : List QueryParam) (labels : List Label)
    (s : Request) : Prop where
  inTurn : InTurn ids issued s
  completions : completions doUpdate labels = 0 ∨ Collected doUpdate ids labels s
  answered : s.outstanding = [] → s.disposed = false → ∃ response, s.responses = [response]
  items : ∀ response ∈ s.responses, Collected doUpdate ids labels s ∧
    ∃ items, Due doUpdate ids issued (rows labels) items ∧ Sent (allAnswers labels) items response

section Items

variable {rows : List QueryResult} {numbers : List ℕ}

/-- `do_updates` keeps the ids, in the order that it sorts them into. -/
theorem map_id_redrawn (hlength : numbers.length = rows.length) :
    (redrawn rows numbers).map (·.id) = (rows.mergeSort fun x y => x.id ≤ y.id).map (·.id) := by
  apply List.ext_getElem
  · simp [redrawn, hlength]
  · intro i hi hi'
    simp [redrawn]

theorem redrawn_perm (hlength : numbers.length = rows.length) :
    ((redrawn rows numbers).map (·.id)).Perm (rows.map (·.id)) := by
  rw [map_id_redrawn hlength]
  exact (List.mergeSort_perm rows _).map _

theorem redrawn_sorted (hlength : numbers.length = rows.length) :
    ((redrawn rows numbers).map (·.id)).Pairwise (· ≤ ·) := by
  have hsorted : (rows.mergeSort fun x y => x.id ≤ y.id).Pairwise fun x y =>
      decide (x.id ≤ y.id) = true := by
    apply List.pairwise_mergeSort
    · intro x y z hxy hyz
      exact decide_eq_true (Nat.le_trans (of_decide_eq_true hxy) (of_decide_eq_true hyz))
    · intro x y
      simpa using Nat.le_total x.id y.id
  rw [map_id_redrawn hlength, List.pairwise_map]
  exact hsorted.imp of_decide_eq_true

/-- The ids that were asked for can be told from the queries. -/
theorem perm_of_worldQuery {ids ids' : List ℕ} (h : (ids.map worldQuery).Perm (ids'.map worldQuery)) :
    ids.Perm ids' := by
  have hmap := h.map fun q => q.paramValues.headD 0
  simpa [worldQuery, Function.comp_def] using hmap

end Items

section Phases

variable {doUpdate : Bool} {ids : List ℕ} {sent : List QueryParam} {labels : List Label}
  {s s' : Request}

/-- Ids are left, or rows are to come. -/
structure Fetching (doUpdate : Bool) (ids : List ℕ) (sent : List QueryParam) (labels : List Label)
    (s : Request) : Prop where
  doCleanup : s.ctx.doCleanup = false
  disposed : s.disposed = false
  responses : s.responses = []
  update : s.ctx.doUpdate = doUpdate
  numQuery : s.ctx.numQuery = ids.length
  nonempty : s.outstanding ≠ []
  nodup : s.outstanding.Nodup
  room : s.ctx.numResult + s.outstanding.length ≤ ids.length
  asked : sent = (ids.take (s.ctx.numResult + s.outstanding.length)).map worldQuery
  length : s.ctx.res.length = ids.length
  arrived : s.ctx.res.take s.ctx.numResult = rows labels
  untouched : s.ctx.res.drop (s.ctx.numResult + s.outstanding.length) =
    (ids.drop (s.ctx.numResult + s.outstanding.length)).map fun id => ⟨id, 0⟩
  /-- what was sent has come back or is outstanding -/
  balance : (((rows labels).map fun row => worldQuery row.id) ++
    s.outstanding.filterMap (s.ctx.queryParam[·]?)).Perm sent
  completions : completions doUpdate labels = 0

/-- The update is in flight. -/
structure Writing (doUpdate : Bool) (ids : List ℕ) (sent : List QueryParam) (labels : List Label)
    (s : Request) : Prop where
  doCleanup : s.ctx.doCleanup = false
  disposed : s.disposed = false
  responses : s.responses = []
  update : doUpdate = true
  outstanding : s.outstanding = [0]
  callback : HasCallback s.ctx 0 .onUpdateResult
  due : Due doUpdate ids sent (rows labels) (s.ctx.res.take s.ctx.numResult)
  collected : Collected doUpdate ids labels s
  inTurn : InTurn ids sent s

/-- The request has been answered. -/
structure Finished (doUpdate : Bool) (ids : List ℕ) (sent : List QueryParam) (labels : List Label)
    (s : Request) : Prop where
  doCleanup : s.ctx.doCleanup = true
  outstanding : s.outstanding = []
  collected : Collected doUpdate ids labels s
  inTurn : InTurn ids sent s
  responses : ∃ response items, s.responses = [response] ∧ Due doUpdate ids sent (rows labels) items ∧
    Sent (allAnswers labels) items response

/-- The client has disconnected before it got an answer. -/
structure Abandoned (doUpdate : Bool) (ids : List ℕ) (sent : List QueryParam) (labels : List Label)
    (s : Request) : Prop where
  doCleanup : s.ctx.doCleanup = true
  disposed : s.disposed = true
  responses : s.responses = []
  inTurn : InTurn ids sent s
  completions : completions doUpdate labels = 0 ∨ (Collected doUpdate ids labels s ∧
    ∀ p ∈ s.outstanding, HasCallback s.ctx p .onUpdateResult)

/-- How far a request has come. -/
inductive Progress (doUpdate : Bool) (ids : List ℕ) (sent : List QueryParam) (labels : List Label)
    (s : Request) : Prop
  | fetching (h : Fetching doUpdate ids sent labels s)
  | writing (h : Writing doUpdate ids sent labels s)
  | finished (h : Finished doUpdate ids sent labels s)
  | abandoned (h : Abandoned doUpdate ids sent labels s)

/-- While the ids are asked for, nothing else is. -/
theorem filter_map_worldQuery (ids : List ℕ) :
    (ids.map worldQuery).filter (·.onResult = .onMultipleQueryResult) = ids.map worldQuery := by
  apply List.filter_eq_self.mpr
  intro q hq
  obtain ⟨id, -, rfl⟩ := List.mem_map.mp hq
  rfl

theorem Fetching.inTurn (h : Fetching doUpdate ids sent labels s) : InTurn ids sent s :=
  ⟨_, by rw [h.asked, filter_map_worldQuery], h.untouched⟩

/-- In every phase the request has what it can have by then. -/
theorem Progress.delivered (h : Progress doUpdate ids sent labels s) :
    Delivered doUpdate ids sent labels s := by
  cases h with
  | fetching h =>
    exact ⟨h.inTurn, .inl h.completions, fun hnil => absurd hnil h.nonempty, by simp [h.responses]⟩
  | writing h =>
    exact ⟨h.inTurn, .inr h.collected, by simp [h.outstanding], by simp [h.responses]⟩
  | finished h =>
    obtain ⟨response, items, hresponses, hdue, hsent⟩ := h.responses
    refine ⟨h.inTurn, .inr h.collected, fun _ _ => ⟨response, hresponses⟩, fun r hr => ?_⟩
    rw [hresponses, List.mem_singleton] at hr
    exact ⟨h.collected, items, hdue, hr ▸ hsent⟩
  | abandoned h =>
    exact ⟨h.inTurn, h.completions.imp_right And.left, by simp [h.disposed], by simp [h.responses]⟩

end Phases

section Arrival

variable {doUpdate : Bool} {ids : List ℕ} {sent : List QueryParam} {labels : List Label}
  {s s' : Request} {p : ℕ} {row : QueryResult} {answers : List Answer}

theorem take_succ_set {α : Type} {l : List α} {m : ℕ} (a : α) (hm : m < l.length) :
    (l.set m a).take (m + 1) = l.take m ++ [a] := by
  rw [List.take_succ_eq_append_getElem (by simpa using hm), List.take_set_of_le (Nat.le_refl m),
    List.getElem_set_self]

/-- The parameters of the others stay when one is changed. -/
theorem filterMap_modify_of_notMem {params : List QueryParam} {f : QueryParam → QueryParam}
    {outstanding : List ℕ} (hp : p ∉ outstanding) :
    outstanding.filterMap ((params.modify p f)[·]?) = outstanding.filterMap (params[·]?) := by
  apply List.filterMap_congr
  intro q hq
  have hne : p ≠ q := fun heq => hp (heq ▸ hq)
  simp [hne]

/-- A sub-query that has just been submitted is the only new one. -/
theorem submitted_cons {s : Request} {outstanding : List ℕ} {q : QueryParam}
    (houtstanding : s.outstanding = p :: outstanding) (hp : p ∉ outstanding)
    (hq : s.ctx.queryParam[p]? = some q) : s.submitted outstanding = [q] := by
  have hfilter : (p :: outstanding).filter (· ∉ outstanding) = [p] := by
    rw [List.filter_cons_of_pos (by simpa using hp), List.filter_eq_nil_iff.mpr (by simp)]
  rw [Request.submitted, houtstanding, hfilter]
  simp [hq]

theorem submitted_self {s : Request} {outstanding : List ℕ} (houtstanding : s.outstanding = outstanding) :
    s.submitted outstanding = [] := by
  simp [Request.submitted, houtstanding]

section Stored

variable (h : Fetching doUpdate ids sent labels s) (hp : p ∈ s.outstanding)

include h hp

theorem Fetching.numResult_lt : s.ctx.numResult < ids.length := by
  have hpos := List.length_pos_of_mem hp
  have hroom := h.room
  omega

/-- The row stands behind the others. -/
theorem Fetching.take_arrived :
    (s.arrived p row).ctx.res.take (s.arrived p row).ctx.numResult =
      rows (labels ++ [(.result p (.tuplesOk row), answers)]) := by
  rw [rows_concat_row, ← h.arrived]
  exact take_succ_set row (h.length.symm ▸ h.numResult_lt hp)

/-- The row does not stand in the way of an id that is left. -/
theorem Fetching.drop_arrived (row : QueryResult) {k : ℕ} (hk : s.ctx.numResult + s.outstanding.length ≤ k) :
    (s.arrived p row).ctx.res.drop k = (ids.drop k).map fun id => ⟨id, 0⟩ := by
  have hpos := List.length_pos_of_mem hp
  have hset : (s.arrived p row).ctx.res.drop k = s.ctx.res.drop k :=
    List.drop_set_of_lt (by omega)
  obtain ⟨d, rfl⟩ := Nat.exists_eq_add_of_le hk
  calc (s.arrived p row).ctx.res.drop (s.ctx.numResult + s.outstanding.length + d)
      = (s.ctx.res.drop (s.ctx.numResult + s.outstanding.length)).drop d := by
        rw [hset, List.drop_drop]
    _ = (ids.drop (s.ctx.numResult + s.outstanding.length + d)).map fun id => ⟨id, 0⟩ := by
        rw [h.untouched, ← List.map_drop, List.drop_drop]

/-- What has come back has been sent, and the rest is outstanding. -/
theorem Fetching.balance_arrived (answers : List Answer) (hq : s.ctx.queryParam[p]? = some (worldQuery row.id)) :
    (((rows (labels ++ [(.result p (.tuplesOk row), answers)])).map fun row => worldQuery row.id) ++
      (s.outstanding.erase p).filterMap (s.ctx.queryParam[·]?)).Perm sent := by
  have hone : (s.outstanding.filterMap (s.ctx.queryParam[·]?)).Perm
      (worldQuery row.id :: (s.outstanding.erase p).filterMap (s.ctx.queryParam[·]?)) := by
    have hperm := (List.perm_cons_erase hp).filterMap (s.ctx.queryParam[·]?)
    rwa [List.filterMap_cons_some hq] at hperm
  refine List.Perm.trans ?_ h.balance
  rw [rows_concat_row, List.map_append, List.append_assoc]
  exact (hone.symm.append_left _)

/-- The id that is sent next is the first one that is left. -/
theorem Fetching.next_id (hinProgress : s.ctx.numQueryInProgress = s.outstanding.length)
    (hleft : s.ctx.numResult + s.outstanding.length < ids.length) :
    ((s.arrived p row).ctx.res.getD
      ((s.arrived p row).ctx.numResult + (s.arrived p row).ctx.numQueryInProgress) ⟨0, 0⟩).id =
        ids[s.ctx.numResult + s.outstanding.length] := by
  have hpos := List.length_pos_of_mem hp
  have hindex : (s.arrived p row).ctx.numResult + (s.arrived p row).ctx.numQueryInProgress =
      s.ctx.numResult + s.outstanding.length := by
    simp only [Request.arrived, hinProgress]
    omega
  have hhead := congrArg List.head? (h.drop_arrived hp row (Nat.le_refl _))
  rw [List.head?_drop, List.head?_map, List.head?_drop] at hhead
  rw [hindex, List.getD_eq_getElem?_getD, hhead, List.getElem?_eq_getElem hleft]
  rfl

/-- An id is left, and the sub-query is submitted again for it. -/
theorem Fetching.resubmitted (hq : s.ctx.queryParam[p]? = some (worldQuery row.id))
    (hleft : s.ctx.numResult + s.outstanding.length < ids.length)
    (hanswers : answers.countP (·.isCompletion doUpdate) = 0)
    (hs' : s' = (s.arrived p row).resubmitted p ids[s.ctx.numResult + s.outstanding.length]) :
    Fetching doUpdate ids (sent ++ s'.submitted (s.outstanding.erase p))
      (labels ++ [(.result p (.tuplesOk row), answers)]) s' := by
  subst hs'
  have hpos := List.length_pos_of_mem hp
  have hnotMem : p ∉ s.outstanding.erase p := h.nodup.not_mem_erase
  have hsubmitted : ((s.arrived p row).resubmitted p
      ids[s.ctx.numResult + s.outstanding.length]).submitted (s.outstanding.erase p) =
      [worldQuery ids[s.ctx.numResult + s.outstanding.length]] := by
    apply submitted_cons rfl hnotMem
    simp [Request.resubmitted, Request.arrived, hq, worldQuery]
  have hlength : ((s.arrived p row).resubmitted p
      ids[s.ctx.numResult + s.outstanding.length]).outstanding.length = s.outstanding.length := by
    simp only [Request.resubmitted, Request.arrived, List.length_cons, List.length_erase_of_mem hp]
    omega
  have hcount : s.ctx.numResult + 1 + s.outstanding.length =
      s.ctx.numResult + s.outstanding.length + 1 := by omega
  refine ⟨h.doCleanup, h.disposed, h.responses, h.update, h.numQuery, List.cons_ne_nil _ _,
    List.nodup_cons.mpr ⟨hnotMem, h.nodup.erase p⟩, ?_, ?_, ?_, h.take_arrived hp, ?_, ?_, ?_⟩
  · rw [hlength]
    simp only [Request.resubmitted, Request.arrived]
    omega
  · rw [hlength, hsubmitted, h.asked]
    simp only [Request.resubmitted, Request.arrived]
    rw [hcount, List.take_succ_eq_append_getElem hleft, List.map_append]
    rfl
  · simp [Request.resubmitted, Request.arrived, h.length]
  · rw [hlength]
    apply h.drop_arrived hp row
    simp only [Request.resubmitted, Request.arrived]
    omega
  · rw [hsubmitted]
    have hvalues : (p :: s.outstanding.erase p).filterMap
        ((s.ctx.queryParam.modify p fun q =>
          { q with paramValues := [ids[s.ctx.numResult + s.outstanding.length]] })[·]?) =
        worldQuery ids[s.ctx.numResult + s.outstanding.length] ::
          (s.outstanding.erase p).filterMap (s.ctx.queryParam[·]?) := by
      rw [List.filterMap_cons_some (b := worldQuery ids[s.ctx.numResult + s.outstanding.length])
        (by simp [hq, worldQuery]), filterMap_modify_of_notMem hnotMem]
    have hbalance := (h.balance_arrived hp answers hq).append_right
      [worldQuery ids[s.ctx.numResult + s.outstanding.length]]
    refine List.Perm.trans ?_ hbalance
    simp only [Request.resubmitted, Request.arrived]
    rw [hvalues, List.append_assoc]
    exact (List.perm_append_singleton _ _).symm.append_left _
  · rw [completions_concat, h.completions, hanswers]

/-- All ids have been sent, and other rows are still to come. -/
theorem Fetching.waiting (hq : s.ctx.queryParam[p]? = some (worldQuery row.id))
    (hnone : s.ctx.numResult + s.outstanding.length = ids.length) (hmore : 1 < s.outstanding.length)
    (hanswers : answers.countP (·.isCompletion doUpdate) = 0) (hs' : s' = s.arrived p row) :
    Fetching doUpdate ids (sent ++ s'.submitted (s.outstanding.erase p))
      (labels ++ [(.result p (.tuplesOk row), answers)]) s' := by
  subst hs'
  have hsubmitted : (s.arrived p row).submitted (s.outstanding.erase p) = [] := submitted_self rfl
  have hcount : (s.arrived p row).ctx.numResult + (s.arrived p row).outstanding.length =
      s.ctx.numResult + s.outstanding.length := by
    simp only [Request.arrived, List.length_erase_of_mem hp]
    omega
  rw [hsubmitted, List.append_nil]
  refine ⟨h.doCleanup, h.disposed, h.responses, h.update, h.numQuery, ?_, h.nodup.erase p, ?_, ?_, ?_,
    h.take_arrived hp, ?_, h.balance_arrived hp answers hq, ?_⟩
  · apply List.ne_nil_of_length_pos
    simp only [Request.arrived, List.length_erase_of_mem hp]
    omega
  · rw [hcount]
    exact hnone.le
  · rw [hcount]
    exact h.asked
  · simp [Request.arrived, h.length]
  · rw [hcount]
    exact h.drop_arrived hp row (Nat.le_refl _)
  · rw [completions_concat, h.completions, hanswers]

/-- The last row has come: the array holds the rows, one for each id. -/
theorem Fetching.completed (answers : List Answer)
    (hq : s.ctx.queryParam[p]? = some (worldQuery row.id))
    (hlast : s.outstanding.length = 1) (hfull : s.ctx.numResult + 1 = ids.length) :
    (s.arrived p row).outstanding = [] ∧ sent = ids.map worldQuery ∧
      (s.arrived p row).ctx.res = rows (labels ++ [(.result p (.tuplesOk row), answers)]) ∧
      ((rows (labels ++ [(.result p (.tuplesOk row), answers)])).map (·.id)).Perm ids := by
  have hnil : s.outstanding.erase p = [] := by
    apply List.eq_nil_of_length_eq_zero
    rw [List.length_erase_of_mem hp, hlast]
  have hsent : sent = ids.map worldQuery := by
    rw [h.asked, hlast, hfull, List.take_length]
  have hrows : (s.arrived p row).ctx.res = rows (labels ++ [(.result p (.tuplesOk row), answers)]) := by
    rw [← h.take_arrived hp, List.take_of_length_le]
    simp only [Request.arrived, List.length_set, h.length]
    exact hfull.ge
  have hbalance := h.balance_arrived hp answers hq
  rw [hnil, List.filterMap_nil, List.append_nil, hsent] at hbalance
  refine ⟨hnil, hsent, hrows, perm_of_worldQuery ?_⟩
  rwa [List.map_map]

end Stored

/-- All ids have been sent. -/
theorem inTurn_all (hsent : sent.filter (·.onResult = .onMultipleQueryResult) = ids.map worldQuery)
    (hlength : s.ctx.res.length ≤ ids.length) : InTurn ids sent s := by
  refine ⟨ids.length, ?_, ?_⟩
  · rw [hsent, List.take_length]
  · rw [List.drop_of_length_le hlength, List.drop_length, List.map_nil]

theorem sent_append {items : List QueryResult} {response : Response} (h : Sent answers items response)
    (event : Event) : Sent (allAnswers (labels ++ [(event, answers)])) items response := by
  refine h.imp_right fun ⟨hnone, herror⟩ => ⟨?_, herror⟩
  have hmem {answer : Answer} (hin : answer ∈ answers) :
      answer ∈ allAnswers (labels ++ [(event, answers)]) :=
    List.mem_flatMap.mpr ⟨(event, answers), by simp, hin⟩
  exact hnone.imp hmem hmem

section Completion

variable (h : Fetching doUpdate ids sent labels s) (hp : p ∈ s.outstanding)
  (hfrees : s.frees = 0) (hq : s.ctx.queryParam[p]? = some (worldQuery row.id))
  (hlast : s.outstanding.length = 1) (hfull : s.ctx.numResult + 1 = ids.length)

include h hp hfrees hq hlast hfull

/-- `/queries` is answered with the rows. -/
theorem Fetching.answered (hno : doUpdate = false)
    (hexec : respondWithItems.exec
      { s.arrived p row with ctx := { (s.arrived p row).ctx with doCleanup := true } } answers =
        some (((), s'), [])) :
    Finished doUpdate ids (sent ++ s'.submitted (s.outstanding.erase p))
      (labels ++ [(.result p (.tuplesOk row), answers)]) s' := by
  obtain ⟨hnil, hsent, hrows, hperm⟩ := h.completed hp answers hq hlast hfull
  obtain ⟨hcount, gen, response, rfl, hresponse⟩ := exec_respondWithItems (by exact hfrees) hexec
  have hsubmitted : Request.submitted (s.outstanding.erase p) (Request.responded
      { s.arrived p row with ctx := { (s.arrived p row).ctx with doCleanup := true } } gen response) =
      [] := submitted_self rfl
  have hlength := hperm.length_eq
  rw [List.length_map] at hlength
  have htake : (s.arrived p row).ctx.res.take (s.arrived p row).ctx.numResult =
      rows (labels ++ [(.result p (.tuplesOk row), answers)]) := h.take_arrived hp
  rw [hsubmitted, List.append_nil]
  refine ⟨rfl, hnil, ⟨hperm, ?_, hfull⟩, inTurn_all ?_ ?_, response,
    rows (labels ++ [(.result p (.tuplesOk row), answers)]), ?_, ?_, sent_append ?_ _⟩
  · rw [completions_concat, h.completions, hcount, hno]
    rfl
  · rw [hsent, filter_map_worldQuery]
  · exact (congrArg List.length hrows).le.trans hlength.le
  · simp [Request.responded, Request.arrived, h.responses]
  · rw [hno]
    exact ⟨hsent, rfl⟩
  · rw [← htake]
    exact hresponse

/-- `/updates` sends one statement with the ids in order and a new number for each. -/
theorem Fetching.writing (hyes : doUpdate = true) (hnum : ids.length ≤ MAX_QUERIES)
    (hexec : doUpdates.exec (s.arrived p row) answers = some (((), s'), []))
    (haccepted : .accepts false ∉ answers) :
    Writing doUpdate ids (sent ++ s'.submitted (s.outstanding.erase p))
      (labels ++ [(.result p (.tuplesOk row), answers)]) s' := by
  obtain ⟨hnil, hsent, hrows, hperm⟩ := h.completed hp answers hq hlast hfull
  have hlength := hperm.length_eq
  rw [List.length_map] at hlength
  have hres : (s.arrived p row).ctx.res.length = (s.arrived p row).ctx.numResult := by
    rw [hrows, hlength]
    exact hfull.symm
  obtain ⟨numbers, rfl, hnumbers, rfl⟩ :=
    exec_doUpdates (by exact hfrees) (hfull.trans_le hnum) hres hexec haccepted
  have hdrawn : numbers.length = (s.arrived p row).ctx.res.length := hnumbers.trans hres.symm
  have hparam : (s.arrived p row).ctx.queryParam ≠ [] := by
    intro hempty
    rw [show s.ctx.queryParam = [] from hempty] at hq
    cases hq
  have hitem : ((s.arrived p row).updating (redrawn (s.arrived p row).ctx.res numbers)).ctx.queryParam[0]? =
      some (updateQuery (redrawn (s.arrived p row).ctx.res numbers)) :=
    List.getElem?_set_self (List.length_pos_iff.mpr hparam)
  have hsubmitted : ((s.arrived p row).updating
      (redrawn (s.arrived p row).ctx.res numbers)).submitted (s.outstanding.erase p) =
      [updateQuery (redrawn (s.arrived p row).ctx.res numbers)] := by
    apply submitted_cons rfl _ hitem
    rw [hnil]
    exact List.not_mem_nil
  have hitems : (redrawn (s.arrived p row).ctx.res numbers).length = (s.arrived p row).ctx.numResult := by
    simp [redrawn, hdrawn, hres]
  have hids : ((redrawn (s.arrived p row).ctx.res numbers).map (·.id)).Perm ids := by
    refine (redrawn_perm hdrawn).trans ?_
    rw [hrows]
    exact hperm
  rw [hsubmitted, hsent]
  refine ⟨h.doCleanup, h.disposed, h.responses, hyes, congrArg (0 :: ·) hnil, ⟨_, hitem, rfl⟩, ?_,
    ⟨hperm, ?_, hfull⟩, inTurn_all ?_ ?_⟩
  · have htake : (redrawn (s.arrived p row).ctx.res numbers).take (s.arrived p row).ctx.numResult =
        redrawn (s.arrived p row).ctx.res numbers := List.take_of_length_le hitems.le
    rw [hyes]
    dsimp only [Request.updating]
    rw [htake]
    exact ⟨rfl, hids, redrawn_sorted hdrawn⟩
  · rw [completions_concat, h.completions, hyes]
    rfl
  · rw [List.filter_append, filter_map_worldQuery]
    exact List.append_nil _
  · exact (hitems.trans hfull).le

end Completion

/-- A row has come. -/
theorem Fetching.step (h : Fetching doUpdate ids sent labels s) (hok : RequestOk s)
    (hnum : ids.length ≤ MAX_QUERIES) (hp : p ∈ s.outstanding)
    (hq : s.ctx.queryParam[p]? = some (worldQuery row.id))
    (hexec : (onMultipleQueryResult p (.tuplesOk row)).exec
      { s with outstanding := s.outstanding.erase p } answers = some (((), s'), []))
    (haccepted : .accepts false ∉ answers) :
    Progress doUpdate ids (sent ++ s'.submitted (s.outstanding.erase p))
      (labels ++ [(.result p (.tuplesOk row), answers)]) s' := by
  have hallocated := hok.allocated hp
  have hfrees := hallocated.frees
  have hinProgress := hallocated.inProgress
  have hpos := List.length_pos_of_mem hp
  have hroom := h.room
  have hnumQuery := h.numQuery
  have hcases := exec_onMultipleQueryResult hfrees h.doCleanup hexec haccepted
  have hunissued : (s.arrived p row).ctx.numQueryInProgress <
      (s.arrived p row).ctx.numQuery - (s.arrived p row).ctx.numResult ↔
        s.ctx.numResult + s.outstanding.length < ids.length := by
    simp only [Request.arrived, hinProgress, hnumQuery]
    omega
  by_cases hleft : s.ctx.numResult + s.outstanding.length < ids.length
  · simp only [if_pos (hunissued.mpr hleft)] at hcases
    obtain ⟨rfl, rfl⟩ := hcases
    apply Progress.fetching
    apply h.resubmitted hp hq hleft rfl
    rw [h.next_id hp hinProgress hleft]
  · simp only [if_neg (hleft ∘ hunissued.mp)] at hcases
    by_cases hfull : s.ctx.numResult + 1 = ids.length
    · have hlast : s.outstanding.length = 1 := by omega
      rw [if_pos (by simpa [Request.arrived, hnumQuery] using hfull), completeMultipleQuery,
        exec_getCtx_bind (by exact hfrees)] at hcases
      split at hcases
      · rename_i hyes
        exact .writing (h.writing hp hfrees hq hlast hfull (h.update.symm.trans hyes) hnum hcases haccepted)
      · rename_i hno
        rw [exec_modifyCtx_bind (by exact hfrees)] at hcases
        refine .finished (h.answered hp hfrees hq hlast hfull ?_ hcases)
        exact h.update.symm.trans (eq_false_of_ne_true hno)
    · rw [if_neg (by simpa [Request.arrived, hnumQuery] using hfull)] at hcases
      obtain ⟨rfl, rfl⟩ := hcases
      exact .fetching (h.waiting hp hq (by omega) (by omega) rfl rfl)

end Arrival

section Steps

variable {doUpdate : Bool} {ids : List ℕ} {sent : List QueryParam} {labels : List Label}
  {s s' : Request} {p : ℕ} {answers : List Answer}

theorem collected_of_eq {event : Event} (h : Collected doUpdate ids labels s)
    (hrows : rows (labels ++ [(event, answers)]) = rows labels)
    (hanswers : answers.countP (·.isCompletion doUpdate) = 0)
    (hnumResult : s'.ctx.numResult = s.ctx.numResult) :
    Collected doUpdate ids (labels ++ [(event, answers)]) s' :=
  ⟨hrows.symm ▸ h.rows, by rw [completions_concat, h.completions, hanswers],
    hnumResult.trans h.numResult⟩

theorem InTurn.of_eq (h : InTurn ids sent s) (hres : s'.ctx.res = s.ctx.res) : InTurn ids sent s' := by
  rw [InTurn, hres]
  exact h

theorem sent_mono {items : List QueryResult} {response : Response}
    (h : Sent (allAnswers labels) items response) (label : Label) :
    Sent (allAnswers (labels ++ [label])) items response := by
  refine h.imp_right fun ⟨hnone, herror⟩ => ⟨?_, herror⟩
  have hmem {answer : Answer} (hin : answer ∈ allAnswers labels) :
      answer ∈ allAnswers (labels ++ [label]) := by
    rw [allAnswers, List.flatMap_append]
    exact List.mem_append_left _ hin
  exact hnone.imp hmem hmem

/-- Only queries for rows are outstanding before the update. -/
theorem Fetching.exists_worldQuery (h : Fetching doUpdate ids sent labels s) {q : QueryParam}
    (hp : p ∈ s.outstanding) (hq : s.ctx.queryParam[p]? = some q) : ∃ id, q = worldQuery id := by
  have hmem : q ∈ sent := by
    apply h.balance.mem_iff.mp
    exact List.mem_append_right _ (List.mem_filterMap.mpr ⟨p, hp, hq⟩)
  rw [h.asked] at hmem
  obtain ⟨id, -, hid⟩ := List.mem_map.mp hmem
  exact ⟨id, hid.symm⟩

/-- The update has been carried out, and its items are the response. -/
theorem Writing.step (h : Writing doUpdate ids sent labels s) (hok : RequestOk s)
    (hexec : (onUpdateResult .commandOk).exec { s with outstanding := s.outstanding.erase p } answers =
      some (((), s'), []))
    (hp : p ∈ s.outstanding) :
    Finished doUpdate ids (sent ++ s'.submitted (s.outstanding.erase p))
      (labels ++ [(.result p .commandOk, answers)]) s' := by
  have hfrees := (hok.allocated hp).frees
  rw [exec_onUpdateResult (by exact hfrees) (by exact h.doCleanup)] at hexec
  obtain ⟨hcount, gen, response, rfl, hresponse⟩ := exec_respondWithItems (by exact hfrees) hexec
  have hnil : s.outstanding.erase p = [] := by
    rw [h.outstanding, List.mem_singleton] at hp
    simp [h.outstanding, hp]
  have hanswers : answers.countP (·.isCompletion doUpdate) = 0 := by
    rw [hcount, h.update]
    rfl
  rw [submitted_self (by rfl), List.append_nil]
  refine ⟨rfl, hnil, collected_of_eq h.collected rows_concat_commandOk hanswers rfl, h.inTurn.of_eq rfl,
    response, s.ctx.res.take s.ctx.numResult, ?_, ?_, sent_append hresponse _⟩
  · exact congrArg (response :: ·) h.responses
  · rw [rows_concat_commandOk]
    exact h.due

/-- What comes after a disposal changes nothing. -/
theorem abandoned_of_kept {event : Event} (hkept : Kept s s') (hdisposed : s'.disposed = true)
    (hresponses : s.responses = []) (hinTurn : InTurn ids sent s)
    (houtstanding : ∀ p ∈ s'.outstanding, p ∈ s.outstanding)
    (hcompletions : completions doUpdate labels = 0 ∨ (Collected doUpdate ids labels s ∧
      ∀ p ∈ s.outstanding, HasCallback s.ctx p .onUpdateResult))
    (hrows : completions doUpdate labels ≠ 0 → rows (labels ++ [(event, [])]) = rows labels) :
    Abandoned doUpdate ids sent (labels ++ [(event, [])]) s' := by
  refine ⟨hkept.doCleanup, hdisposed, hkept.responses.trans hresponses, hinTurn.of_eq hkept.res, ?_⟩
  rcases hcompletions with hnone | ⟨hcollected, hcallback⟩
  · exact .inl (by rw [completions_concat, hnone, List.countP_nil])
  · refine .inr ⟨collected_of_eq hcollected (hrows ?_) rfl hkept.numResult, fun p hp => ?_⟩
    · rw [hcollected.completions]
      exact Nat.one_ne_zero
    · rw [HasCallback, hkept.queryParam]
      exact hcallback p (houtstanding p hp)

/-- A result that comes after a disposal. -/
theorem Abandoned.result {outcome : QueryOutcome} (h : Abandoned doUpdate ids sent labels s)
    (hok : RequestOk s) (hsucceeds : Succeeds s (.result p outcome))
    (hnext : s.next (.result p outcome, answers) = some s') :
    Abandoned doUpdate ids (sent ++ s'.submitted (s.outstanding.erase p))
      (labels ++ [(.result p outcome, answers)]) s' := by
  obtain ⟨hp, q, hq, hexec⟩ := exec_of_next_result hok hnext
  have hfrees := (hok.allocated hp).frees
  obtain ⟨rfl, hkept, houtstanding, hdisposed⟩ : answers = [] ∧ Kept s s' ∧
      s'.outstanding = s.outstanding.erase p ∧ s'.disposed = s.disposed := by
    cases hcallback : q.onResult with
    | onMultipleQueryResult =>
      rw [hcallback] at hexec
      obtain ⟨hanswers, hkept, hrest⟩ :=
        exec_onMultipleQueryResult_dropped (by exact hfrees) (by exact h.doCleanup) hexec
      exact ⟨hanswers, ⟨hkept.1, hkept.2, hkept.3, hkept.4, hkept.5⟩, hrest⟩
    | onUpdateResult =>
      rw [hcallback] at hexec
      obtain ⟨hanswers, hkept, hrest⟩ :=
        exec_onUpdateResult_dropped (by exact hfrees) (by exact h.doCleanup) hexec
      exact ⟨hanswers, ⟨hkept.1, hkept.2, hkept.3, hkept.4, hkept.5⟩, hrest⟩
  rw [submitted_self houtstanding, List.append_nil]
  apply abandoned_of_kept hkept (hdisposed.trans h.disposed) h.responses h.inTurn
  · intro r hr
    rw [houtstanding] at hr
    exact List.mem_of_mem_erase hr
  · exact h.completions
  · intro hsome
    -- after the last row only the update can be outstanding
    have hupdate := (h.completions.resolve_left hsome).2 p hp
    cases outcome with
    | tuplesOk row => exact absurd (hupdate.unique ⟨_, hsucceeds, rfl⟩) (by simp [worldQuery])
    | commandOk => exact rows_concat_commandOk
    | failed => exact hsucceeds.elim

/-- The client disconnects. -/
theorem Progress.dispose (h : Progress doUpdate ids sent labels s) (hok : RequestOk s)
    (hnext : s.next (.dispose, answers) = some s') :
    Progress doUpdate ids (sent ++ s'.submitted s.outstanding) (labels ++ [(.dispose, answers)]) s' := by
  obtain ⟨hdisposed, hexec⟩ := exec_of_next_dispose hnext
  have hfrees := (hok.allocated_of_disposed hdisposed).frees
  obtain ⟨rfl, hkept', houtstanding, hdisposed'⟩ :=
    exec_cleanupMultipleQueryRequest (by exact hfrees) hexec
  have hkept : Kept s s' := ⟨hkept'.1, hkept'.2, hkept'.3, hkept'.4, hkept'.5⟩
  have hmem : ∀ p ∈ s'.outstanding, p ∈ s.outstanding := by
    intro p hp
    rwa [houtstanding] at hp
  rw [submitted_self houtstanding, List.append_nil]
  cases h with
  | fetching h =>
    exact .abandoned (abandoned_of_kept hkept hdisposed' h.responses h.inTurn hmem
      (.inl h.completions) fun _ => rows_concat_dispose)
  | writing h =>
    refine .abandoned (abandoned_of_kept hkept hdisposed' h.responses h.inTurn hmem
      (.inr ⟨h.collected, fun p hp => ?_⟩) fun _ => rows_concat_dispose)
    rw [h.outstanding, List.mem_singleton] at hp
    exact hp ▸ h.callback
  | finished h =>
    obtain ⟨response, items, hresponses, hdue, hsent⟩ := h.responses
    refine .finished ⟨hkept.doCleanup, houtstanding.trans h.outstanding,
      collected_of_eq h.collected rows_concat_dispose rfl hkept.numResult, h.inTurn.of_eq hkept.res,
      response, items, hkept.responses.trans hresponses, ?_, sent_mono hsent _⟩
    rw [rows_concat_dispose]
    exact hdue
  | abandoned h => exact absurd (h.disposed.symm.trans hdisposed) (by simp)

/-- What one event of an undisturbed request does. -/
theorem Progress.step {label : Label} (h : Progress doUpdate ids sent labels s) (hok : RequestOk s)
    (hnum : ids.length ≤ MAX_QUERIES) (hundisturbed : Undisturbed s label)
    (hnext : s.next label = some s') :
    Progress doUpdate ids (sent ++ s'.submitted (s.outstanding.diff label.1.released))
      (labels ++ [label]) s' := by
  obtain ⟨event, answers⟩ := label
  obtain ⟨hsucceeds, haccepted⟩ := hundisturbed
  cases event with
  | error p errorString => exact hsucceeds.elim
  | timeout p => exact hsucceeds.elim
  | dispose => exact h.dispose hok hnext
  | result p outcome =>
    rw [Event.released, List.diff_cons, List.diff_nil]
    obtain ⟨hp, q, hq, hexec⟩ := exec_of_next_result hok hnext
    cases h with
    | fetching h =>
      obtain ⟨id, rfl⟩ := h.exists_worldQuery hp hq
      cases outcome with
      | tuplesOk row => exact h.step hok hnum hp hsucceeds hexec haccepted
      | commandOk => exact absurd (hsucceeds.unique ⟨_, hq, rfl⟩) (by simp [worldQuery])
      | failed => exact hsucceeds.elim
    | writing h =>
      have hzero : p = 0 := by simpa [h.outstanding] using hp
      have hcallback : q.onResult = .onUpdateResult :=
        HasCallback.unique ⟨q, hq, rfl⟩ (hzero ▸ h.callback)
      rw [hcallback] at hexec
      cases outcome with
      | tuplesOk row =>
        rw [Option.some.inj (hq.symm.trans hsucceeds)] at hcallback
        cases hcallback
      | commandOk => exact .finished (h.step hok hexec hp)
      | failed => exact hsucceeds.elim
    | finished h =>
      rw [h.outstanding] at hp
      cases hp
    | abandoned h => exact .abandoned (h.result hok hsucceeds hnext)

/-- A run extends what was sent and what came back. -/
theorem Progress.run {before : List Label} (hok : RequestOk s) (hnum : ids.length ≤ MAX_QUERIES)
    (hrun : GuardedRun Request.next Undisturbed s labels s') (h : Progress doUpdate ids sent before s) :
    Progress doUpdate ids (sent ++ submissions s labels) (before ++ labels) s' := by
  induction hrun generalizing sent before with
  | nil s =>
    rw [submissions, List.append_nil, List.append_nil]
    exact h
  | cons hguard hnext _ ih =>
    have hstep := ih (hok.step hnext) (h.step hok hnum hguard hnext)
    rwa [submissions_cons hnext, ← List.append_assoc, List.append_cons]

end Steps

section Start

variable {ids : List ℕ}

theorem filterMap_range_getElem? {α : Type} (l : List α) :
    (List.range l.length).filterMap (l[·]?) = l := by
  induction l with
  | nil => rfl
  | cons a l ih =>
    rw [List.length_cons, List.range_succ_eq_map, List.filterMap_cons_some List.getElem?_cons_zero,
      List.filterMap_map]
    exact congrArg (a :: ·) ih

/-- The queries that a request begins with. -/
theorem filterMap_asking (config : Config) (doUpdate : Bool) {k : ℕ} (hk : k ≤ ids.length) :
    (List.range k).filterMap ((Request.asking config doUpdate ids k).ctx.queryParam[·]?) =
      (ids.take k).map worldQuery := by
  have hlength : ((ids.take k).map worldQuery).length = k := by
    rw [List.length_map, List.length_take, Nat.min_eq_left hk]
  have hall := filterMap_range_getElem? ((ids.take k).map worldQuery)
  rwa [hlength] at hall

theorem submitted_asking {config : Config} {doUpdate : Bool} {k : ℕ} (hk : k ≤ ids.length) :
    (Request.asking config doUpdate ids k).submitted [] = (ids.take k).map worldQuery := by
  have houtstanding : (Request.asking config doUpdate ids k).outstanding = (List.range k).reverse := rfl
  have hfilter (l : List ℕ) : l.filter (· ∉ []) = l := List.filter_eq_self.mpr (by simp)
  rw [Request.submitted, houtstanding, hfilter, List.reverse_reverse, filterMap_asking config doUpdate hk]

/-- The first queries have been sent. -/
theorem fetching_asking {config : Config} {doUpdate : Bool} {k : ℕ} (hpos : 0 < k)
    (hk : k ≤ ids.length) :
    Fetching doUpdate ids ((Request.asking config doUpdate ids k).submitted []) []
      (.asking config doUpdate ids k) := by
  have houtstanding : (Request.asking config doUpdate ids k).outstanding = (List.range k).reverse := rfl
  have hcount : (Request.asking config doUpdate ids k).ctx.numResult +
      (Request.asking config doUpdate ids k).outstanding.length = k := by
    rw [houtstanding, List.length_reverse, List.length_range]
    exact Nat.zero_add k
  refine ⟨rfl, rfl, rfl, rfl, rfl, ?_, ?_, hcount.trans_le hk, ?_, ?_, rfl, ?_, ?_, rfl⟩
  · rw [houtstanding]
    apply List.ne_nil_of_length_pos
    rwa [List.length_reverse, List.length_range]
  · rw [houtstanding]
    exact List.nodup_reverse.mpr List.nodup_range
  · rw [hcount]
    exact submitted_asking hk
  · exact List.length_map _
  · rw [hcount]
    exact List.map_drop.symm
  · rw [submitted_asking hk, houtstanding, ← filterMap_asking config doUpdate hk]
    exact (List.reverse_perm _).filterMap _

theorem getQueryNumber_le (queries : Option ℤ) : getQueryNumber queries ≤ MAX_QUERIES := by
  rw [getQueryNumber]
  split
  · decide
  · split
    · exact Nat.le_refl _
    · omega

end Start

/-- Whether an endpoint updates the rows. -/
def Endpoint.doUpdate : Endpoint → Bool
  | .updates => true
  | _ => false

/-- However many rows are asked for, however many sub-queries may be in flight, and in whatever order
their results come: if none of them fails, every id is sent once and is not overwritten before that,
`complete_multiple_query` runs once and with all results, and the response has one item for each id,
with the row that the database returned or the number that the update set. -/
theorem concurrent_results {config : Config} {endpoint : Endpoint} {queries : Option ℤ} {ids : List ℕ}
    {answers : List Answer} {s₀ s : Request} {labels : List Label}
    (hendpoint : endpoint ≠ .cachedWorlds)
    (hstart : Request.start config endpoint queries (.ids ids :: answers) = some s₀)
    (haccepted : .accepts false ∉ answers)
    (hrun : GuardedRun Request.next Undisturbed s₀ labels s) :
    ids.length = getQueryNumber queries ∧
      Delivered endpoint.doUpdate ids (issued s₀ labels) labels s := by
  have hhandler : endpoint.handler queries = doMultipleQueries endpoint.doUpdate false queries := by
    cases endpoint with
    | cachedWorlds => exact absurd rfl hendpoint
    | queries => rfl
    | updates => rfl
  have hok := requestOk_start hstart
  rw [Request.start, hhandler] at hstart
  split at hstart
  · rename_i hexec
    cases hstart
    obtain ⟨hlength, -, k, hpos, hk, rfl⟩ := exec_doMultipleQueries hexec haccepted
    have hnum : ids.length ≤ MAX_QUERIES := hlength.le.trans (getQueryNumber_le queries)
    have hprogress := Progress.run hok hnum hrun (.fetching (fetching_asking hpos hk))
    exact ⟨hlength, hprogress.delivered⟩
  · cases hstart

/-- Three rows with two sub-queries in flight; the second one comes back twice before the first. -/
theorem concurrent_results_queries : ∃ s₀ s,
    Request.start twoInFlight .queries (some 3) [.ids [9, 4, 7], .accepts true, .accepts true] = some s₀ ∧
    s.responses = [.items [⟨4, 40⟩, ⟨7, 70⟩, ⟨9, 90⟩]] ∧
    Delivered false [9, 4, 7] [worldQuery 9, worldQuery 4, worldQuery 7]
      [(.result 1 (.tuplesOk ⟨4, 40⟩), [.accepts true]), (.result 1 (.tuplesOk ⟨7, 70⟩), []),
        (.result 0 (.tuplesOk ⟨9, 90⟩), [.generator true, .serialized true])] s := by
  let s₀ := Request.asking twoInFlight false [9, 4, 7] 2
  let s₁ := (s₀.arrived 1 ⟨4, 40⟩).resubmitted 1 7
  let s₂ := s₁.arrived 1 ⟨7, 70⟩
  have hstart : Request.start twoInFlight .queries (some 3)
      [.ids [9, 4, 7], .accepts true, .accepts true] = some s₀ := rfl
  have hsecond : s₀.next (.result 1 (.tuplesOk ⟨4, 40⟩), [.accepts true]) = some s₁ := rfl
  have hthird : s₁.next (.result 1 (.tuplesOk ⟨7, 70⟩), []) = some s₂ := rfl
  obtain ⟨s, hfirst, hresponses⟩ : ∃ s, s₂.next (.result 0 (.tuplesOk ⟨9, 90⟩),
      [.generator true, .serialized true]) = some s ∧
      s.responses = [.items [⟨4, 40⟩, ⟨7, 70⟩, ⟨9, 90⟩]] := ⟨_, rfl, rfl⟩
  have hrun : GuardedRun Request.next Undisturbed s₀
      [(.result 1 (.tuplesOk ⟨4, 40⟩), [.accepts true]), (.result 1 (.tuplesOk ⟨7, 70⟩), []),
        (.result 0 (.tuplesOk ⟨9, 90⟩), [.generator true, .serialized true])] s :=
    .cons ⟨rfl, by simp⟩ hsecond (.cons ⟨rfl, by simp⟩ hthird (.cons ⟨rfl, by simp⟩ hfirst (.nil s)))
  exact ⟨s₀, s, hstart, hresponses, (concurrent_results (by simp) hstart (by simp) hrun).2⟩

end FrameworkBenchmarks.H2o.World
