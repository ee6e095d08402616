import FrameworkBenchmarks.H2o.WorldLifecycle

/-!
# What a step of a request does

The callbacks of a request on an allocated context, as equations between the state before and the
state after: which answers were read, which sub-query was submitted, and what was sent. No
submission is refused here.
-/

namespace FrameworkBenchmarks.H2o.World

open Common Scripted

variable {s s' : Request} {α : Type} {answers : List Answer}

section Execution

variable {result : (α × Request) × List Answer}

theorem exec_getCtx_bind (h : s.frees = 0) {f : MultipleQueryCtx → Handler α} :
    (getCtx >>= f).exec s answers = (f s.ctx).exec s answers := by
  have hused : (s.usedAfterFree || s.frees != 0) = s.usedAfterFree := by simp [h]
  simp only [getCtx, bind_assoc, exec_modify_bind, exec_get_bind, pure_bind, hused]

theorem exec_modifyCtx_bind (h : s.frees = 0) {g : MultipleQueryCtx → MultipleQueryCtx}
    {f : Unit → Handler α} :
    (modifyCtx g >>= f).exec s answers = (f ()).exec { s with ctx := g s.ctx } answers := by
  simp only [modifyCtx, exec_modify_bind, h, bne_self_eq_false, Bool.or_false]

theorem exec_modifyCtx (h : s.frees = 0) {g : MultipleQueryCtx → MultipleQueryCtx} :
    (modifyCtx g).exec s answers = some (((), { s with ctx := g s.ctx }), answers) := by
  simp only [modifyCtx, exec_modify, h, bne_self_eq_false, Bool.or_false]

theorem of_exec_getJsonGenerator_bind {f : Bool → Handler α}
    (h : (getJsonGenerator >>= f).exec s answers = some result) :
    ∃ found rest, answers = .generator found :: rest ∧ (f found).exec s rest = some result := by
  obtain ⟨e, rest, found, rfl, hpick, hrest⟩ := of_exec_expect_bind h
  cases e with
  | generator ok =>
    cases hpick
    exact ⟨_, rest, rfl, hrest⟩
  | _ => cases hpick

theorem of_exec_sendJsonResponse_bind {f : Bool → Handler α}
    (h : (sendJsonResponse >>= f).exec s answers = some result) :
    ∃ ok rest, answers = .serialized ok :: rest ∧ (f ok).exec s rest = some result := by
  obtain ⟨e, rest, found, rfl, hpick, hrest⟩ := of_exec_expect_bind h
  cases e with
  | serialized ok =>
    cases hpick
    exact ⟨_, rest, rfl, hrest⟩
  | _ => cases hpick

theorem of_exec_getRandomNumbers_bind {n : ℕ} {f : List ℕ → Handler α}
    (h : (getRandomNumbers n >>= f).exec s answers = some result) :
    ∃ numbers rest, answers = .randomNumbers numbers :: rest ∧ numbers.length = n ∧
      (f numbers).exec s rest = some result := by
  obtain ⟨e, rest, found, rfl, hpick, hrest⟩ := of_exec_expect_bind h
  cases e with
  | randomNumbers numbers =>
    obtain ⟨hlength, hsome⟩ := Option.ite_none_right_eq_some.mp hpick
    cases hsome
    exact ⟨_, rest, rfl, hlength, hrest⟩
  | _ => cases hpick

/-- A query that is not refused is outstanding. -/
theorem of_exec_executeDatabaseQuery_bind {p : ℕ} {f : Bool → Handler α}
    (h : (executeDatabaseQuery p >>= f).exec s answers = some result)
    (haccepted : .accepts false ∉ answers) :
    ∃ rest, answers = .accepts true :: rest ∧
      (f false).exec { s with outstanding := p :: s.outstanding } rest = some result := by
  simp only [executeDatabaseQuery, bind_assoc] at h
  obtain ⟨e, rest, accepted, rfl, hpick, hrest⟩ := of_exec_expect_bind h
  cases e with
  | accepts ok =>
    cases hpick
    cases accepted with
    | true => exact ⟨rest, rfl, hrest⟩
    | false => exact absurd List.mem_cons_self haccepted
  | _ => cases hpick

end Execution

section Responses

/-- The environment has no generator, or the items cannot be serialized. -/
def NoJson (answers : List Answer) : Prop :=
  .generator false ∈ answers ∨ .serialized false ∈ answers

/-- Items are sent, or the error that stands for them. -/
def Sent (answers : List Answer) (items : List QueryResult) (response : Response) : Prop :=
  response = .items items ∨ NoJson answers ∧ response = .error INTERNAL_SERVER_ERROR REQ_ERROR

/-- What `complete_multiple_query` asks the environment for first: random numbers for the updates, or
else a generator for the response. -/
def Answer.isCompletion (doUpdate : Bool) : Answer → Bool
  | .randomNumbers _ => doUpdate
  | .generator _ => !doUpdate
  | _ => false

/-- A request with a response, and with or without a generator. -/
def Request.responded (s : Request) (gen : Bool) (response : Response) : Request :=
  { s with
    ctx := { s.ctx with gen := gen }
    responses := response :: s.responses
    sentLate := s.sentLate || s.disposed }

/-- The end of both kinds of requests asks for a generator once, and draws no random numbers. -/
theorem exec_respondWithItems (hfrees : s.frees = 0)
    (h : respondWithItems.exec s answers = some (((), s'), [])) :
    (∀ doUpdate, answers.countP (·.isCompletion doUpdate) = if doUpdate then 0 else 1) ∧
    ∃ gen response, s' = s.responded gen response ∧
      Sent answers (s.ctx.res.take s.ctx.numResult) response := by
  rw [respondWithItems] at h
  obtain ⟨found, rest, rfl, hrest⟩ := of_exec_getJsonGenerator_bind h
  rw [exec_modifyCtx_bind hfrees] at hrest
  cases found with
  | false =>
    obtain ⟨rfl, rfl⟩ : s.responded false (.error INTERNAL_SERVER_ERROR REQ_ERROR) = s' ∧ rest = [] := by
      simpa [sendError, send, Request.responded] using hrest
    exact ⟨by simp [Answer.isCompletion], _, _, rfl, .inr ⟨.inl List.mem_cons_self, rfl⟩⟩
  | true =>
    simp (disch := exact hfrees) only [if_true, serializeItems, exec_getCtx_bind] at hrest
    obtain ⟨ok, rest, rfl, hsent⟩ := of_exec_sendJsonResponse_bind hrest
    cases ok with
    | true =>
      obtain ⟨rfl, rfl⟩ : s.responded true (.items (s.ctx.res.take s.ctx.numResult)) = s' ∧ rest = [] := by
        simpa [send, Request.responded] using hsent
      exact ⟨by simp [Answer.isCompletion], _, _, rfl, .inl rfl⟩
    | false =>
      simp (disch := exact hfrees) only [Bool.false_eq_true, if_false, exec_modifyCtx_bind] at hsent
      obtain ⟨rfl, rfl⟩ : s.responded false (.error INTERNAL_SERVER_ERROR REQ_ERROR) = s' ∧
          rest = [] := by
        simpa [sendError, send, Request.responded] using hsent
      exact ⟨by simp [Answer.isCompletion], _, _, rfl, .inr ⟨.inr (by simp), rfl⟩⟩

end Responses

section Updates

/-- The `UPDATE` of `do_updates` for a list of items. -/
def updateQuery (items : List QueryResult) : QueryParam :=
  ⟨UPDATE_QUERY_NAME_PREFIX ++ toString items.length, items.flatMap fun r => [r.id, r.randomNumber],
    .onUpdateResult⟩

/-- The rows in the order of their ids, each with a new random number. -/
def redrawn (rows : List QueryResult) (numbers : List ℕ) : List QueryResult :=
  List.zipWith (fun r number => ⟨r.id, 1 + number⟩) (rows.mergeSort fun x y => x.id ≤ y.id) numbers

/-- A request whose update has been submitted. -/
def Request.updating (s : Request) (items : List QueryResult) : Request :=
  { s with
    outstanding := 0 :: s.outstanding
    ctx := { s.ctx with
      res := items
      queryParam := s.ctx.queryParam.set 0 (updateQuery items)
      numQueryInProgress := s.ctx.numQueryInProgress + 1 } }

/-- The buffer of `do_updates` is long enough for the number of results. -/
theorem length_toString_lt {n : ℕ} (h : n ≤ MAX_QUERIES) :
    (toString n).length < (toString MAX_QUERIES).length + 1 := by
  have hmax : ¬ (toString MAX_QUERIES).length ≤ 2 := by
    rw [Nat.toString_eq_repr, Nat.length_repr_le_iff (by decide)]
    decide
  have hlength : (toString n).length ≤ 3 := by
    rw [Nat.toString_eq_repr, Nat.length_repr_le_iff (by decide)]
    exact Nat.lt_of_le_of_lt h (by decide)
  omega

/-- `do_updates` draws a number for each result and submits one update. -/
theorem exec_doUpdates (hfrees : s.frees = 0) (hnum : s.ctx.numResult ≤ MAX_QUERIES)
    (hres : s.ctx.res.length = s.ctx.numResult)
    (h : doUpdates.exec s answers = some (((), s'), [])) (haccepted : .accepts false ∉ answers) :
    ∃ numbers, answers = [.randomNumbers numbers, .accepts true] ∧
      numbers.length = s.ctx.numResult ∧ s' = s.updating (redrawn s.ctx.res numbers) := by
  rw [doUpdates, exec_getCtx_bind hfrees] at h
  dsimp only at h
  rw [if_neg (Nat.not_le_of_lt (length_toString_lt hnum))] at h
  obtain ⟨numbers, rest, rfl, hlength, hdrawn⟩ := of_exec_getRandomNumbers_bind h
  rw [exec_modifyCtx_bind hfrees] at hdrawn
  obtain ⟨rest, rfl, hsubmitted⟩ :=
    of_exec_executeDatabaseQuery_bind hdrawn fun hmem => haccepted (List.mem_cons_of_mem _ hmem)
  simp (disch := exact hfrees) only [Bool.false_eq_true, if_false, exec_modifyCtx] at hsubmitted
  have hitems : (redrawn s.ctx.res numbers).length = s.ctx.numResult := by
    simp [redrawn, hres, hlength]
  have htake : s.ctx.res.take s.ctx.numResult = s.ctx.res := List.take_of_length_le hres.le
  rw [htake] at hsubmitted
  cases hsubmitted
  refine ⟨numbers, rfl, hlength, ?_⟩
  rw [Request.updating, updateQuery, hitems, redrawn]

end Updates

section Rows

/-- The query of `do_multiple_queries` for an id. -/
def worldQuery (id : ℕ) : QueryParam := ⟨WORLD_TABLE_NAME, [id], .onMultipleQueryResult⟩

/-- A request that has stored a row. -/
def Request.arrived (s : Request) (p : ℕ) (row : QueryResult) : Request :=
  { s with
    outstanding := s.outstanding.erase p
    ctx := { s.ctx with
      numQueryInProgress := s.ctx.numQueryInProgress - 1
      res := s.ctx.res.set s.ctx.numResult row
      numResult := s.ctx.numResult + 1 } }

/-- A request that has submitted a sub-query again, for another id. -/
def Request.resubmitted (s : Request) (p id : ℕ) : Request :=
  { s with
    outstanding := p :: s.outstanding
    ctx := { s.ctx with
      queryParam := s.ctx.queryParam.modify p fun q => { q with paramValues := [id] }
      numQueryInProgress := s.ctx.numQueryInProgress + 1 } }

/-- A row is stored; then the sub-query is submitted again if ids are left, and the request is
completed if all rows have come. -/
theorem exec_onMultipleQueryResult {p : ℕ} {row : QueryResult} (hfrees : s.frees = 0)
    (hcleanup : s.ctx.doCleanup = false)
    (h : (onMultipleQueryResult p (.tuplesOk row)).exec
      { s with outstanding := s.outstanding.erase p } answers = some (((), s'), []))
    (haccepted : .accepts false ∉ answers) :
    let t := s.arrived p row
    if t.ctx.numQueryInProgress < t.ctx.numQuery - t.ctx.numResult then
      answers = [.accepts true] ∧
      s' = t.resubmitted p (t.ctx.res.getD (t.ctx.numResult + t.ctx.numQueryInProgress) ⟨0, 0⟩).id
    else if t.ctx.numResult = t.ctx.numQuery then
      completeMultipleQuery.exec t answers = some (((), s'), [])
    else answers = [] ∧ s' = t := by
  simp (disch := exact hfrees) only [onMultipleQueryResult, exec_modifyCtx_bind, exec_getCtx_bind] at h
  rw [if_neg (by simp [hcleanup])] at h
  simp (disch := exact hfrees) only [exec_modifyCtx_bind, exec_getCtx_bind] at h
  dsimp only [Request.arrived]
  split
  · rename_i hmore
    simp (disch := exact hfrees) only [if_pos hmore, exec_modifyCtx_bind] at h
    obtain ⟨rest, rfl, hsubmitted⟩ := of_exec_executeDatabaseQuery_bind h haccepted
    simp (disch := exact hfrees) only [Bool.false_eq_true, if_false, exec_modifyCtx] at hsubmitted
    cases hsubmitted
    exact ⟨rfl, rfl⟩
  · rename_i hlast
    rw [if_neg hlast] at h
    split
    · rename_i hfull
      rwa [if_pos hfull] at h
    · rename_i hmissing
      rw [if_neg hmissing] at h
      cases h
      exact ⟨rfl, rfl⟩

/-- The result of the update answers the request. -/
theorem exec_onUpdateResult (hfrees : s.frees = 0) (hcleanup : s.ctx.doCleanup = false) :
    (onUpdateResult .commandOk).exec s answers =
      respondWithItems.exec
        { s with ctx := { s.ctx with
            doCleanup := true, numQueryInProgress := s.ctx.numQueryInProgress - 1 } } answers := by
  simp (disch := exact hfrees) only [onUpdateResult, exec_getCtx_bind, exec_modifyCtx_bind, hcleanup,
    Bool.false_eq_true, if_false]

end Rows

section Cleanup

/-- The results and the responses are what they were, and later results are going to be dropped. -/
structure Kept (s s' : Request) : Prop where
  res : s'.ctx.res = s.ctx.res
  numResult : s'.ctx.numResult = s.ctx.numResult
  queryParam : s'.ctx.queryParam = s.ctx.queryParam
  responses : s'.responses = s.responses
  doCleanup : s'.ctx.doCleanup = true

theorem exec_cleanupMultipleQuery (hfrees : s.frees = 0) :
    cleanupMultipleQuery.exec s answers = some (((), { s with
      frees := s.frees + 1
      freedEarly := s.freedEarly || !(s.disposed && s.outstanding.isEmpty) }), answers) := by
  simp (disch := exact hfrees) only [cleanupMultipleQuery, exec_getCtx_bind, exec_modify]

/-- A result that comes after the request has been answered or disposed is dropped. -/
theorem exec_onMultipleQueryResult_dropped {p : ℕ} {outcome : QueryOutcome} (hfrees : s.frees = 0)
    (hcleanup : s.ctx.doCleanup = true)
    (h : (onMultipleQueryResult p outcome).exec s answers = some (((), s'), [])) :
    answers = [] ∧ Kept s s' ∧ s'.outstanding = s.outstanding ∧ s'.disposed = s.disposed := by
  simp (disch := exact hfrees) only [onMultipleQueryResult, exec_modifyCtx_bind, exec_getCtx_bind,
    hcleanup, if_true, cleanupIfLast] at h
  split at h
  · rw [exec_cleanupMultipleQuery (by exact hfrees)] at h
    cases h
    exact ⟨rfl, ⟨rfl, rfl, rfl, rfl, rfl⟩, rfl, rfl⟩
  · cases h
    exact ⟨rfl, ⟨rfl, rfl, rfl, rfl, rfl⟩, rfl, rfl⟩

theorem exec_onUpdateResult_dropped {outcome : QueryOutcome} (hfrees : s.frees = 0)
    (hcleanup : s.ctx.doCleanup = true)
    (h : (onUpdateResult outcome).exec s answers = some (((), s'), [])) :
    answers = [] ∧ Kept s s' ∧ s'.outstanding = s.outstanding ∧ s'.disposed = s.disposed := by
  simp (disch := exact hfrees) only [onUpdateResult, exec_getCtx_bind, exec_modifyCtx_bind, hcleanup,
    if_true] at h
  rw [exec_cleanupMultipleQuery (by exact hfrees)] at h
  cases h
  exact ⟨rfl, ⟨rfl, rfl, rfl, rfl, rfl⟩, rfl, rfl⟩

/-- The disposal changes neither the results nor the responses. -/
theorem exec_cleanupMultipleQueryRequest (hfrees : s.frees = 0)
    (h : cleanupMultipleQueryRequest.exec s answers = some (((), s'), [])) :
    answers = [] ∧ Kept s s' ∧ s'.outstanding = s.outstanding ∧ s'.disposed = s.disposed := by
  simp (disch := exact hfrees) only [cleanupMultipleQueryRequest, exec_modifyCtx_bind,
    exec_getCtx_bind] at h
  split at h
  · rename_i hcleanup
    split at h
    · rw [exec_cleanupMultipleQuery (by exact hfrees)] at h
      cases h
      exact ⟨rfl, ⟨rfl, rfl, rfl, rfl, hcleanup⟩, rfl, rfl⟩
    · cases h
      exact ⟨rfl, ⟨rfl, rfl, rfl, rfl, hcleanup⟩, rfl, rfl⟩
  · simp (disch := exact hfrees) only [exec_modifyCtx] at h
    cases h
    exact ⟨rfl, ⟨rfl, rfl, rfl, rfl, rfl⟩, rfl, rfl⟩

end Cleanup

section Events

theorem RequestOk.allocated (h : RequestOk s) {p : ℕ} (hp : p ∈ s.outstanding) : Allocated s := by
  cases h with
  | waiting h => exact h.toAllocated
  | answered h => exact h.toAllocated
  | draining h => exact h.toAllocated
  | freed h =>
    rw [h.outstanding] at hp
    cases hp

theorem RequestOk.allocated_of_disposed (h : RequestOk s) (hdisposed : s.disposed = false) :
    Allocated s := by
  cases h with
  | waiting h => exact h.toAllocated
  | answered h => exact h.toAllocated
  | draining h => exact absurd (h.disposed.symm.trans hdisposed) (by simp)
  | freed h => exact absurd (h.disposed.symm.trans hdisposed) (by simp)

/-- A step is an execution of the handler of its event. -/
theorem exec_of_next {label : Event × List Answer} (h : s.next label = some s') :
    (handle label.1).exec s label.2 = some (((), s'), []) := by
  rw [Request.next] at h
  split at h
  · rename_i hexec
    rw [hexec, Option.some.inj h]
  · cases h

/-- A result comes for a sub-query that is outstanding, and goes to its callback. -/
theorem exec_of_next_result {p : ℕ} {outcome : QueryOutcome} (hok : RequestOk s)
    (h : s.next (.result p outcome, answers) = some s') :
    p ∈ s.outstanding ∧ ∃ q, s.ctx.queryParam[p]? = some q ∧
      (match q.onResult with
        | .onMultipleQueryResult => onMultipleQueryResult p outcome
        | .onUpdateResult => onUpdateResult outcome).exec
        { s with outstanding := s.outstanding.erase p } answers = some (((), s'), []) := by
  have hexec := exec_of_next h
  simp only [handle, takeOutstanding, bind_assoc, exec_get_bind] at hexec
  split at hexec
  · rename_i hp
    refine ⟨hp, ?_⟩
    have hfrees := (hok.allocated hp).frees
    simp (disch := exact hfrees) only [exec_modify_bind, exec_getCtx_bind] at hexec
    cases hq : s.ctx.queryParam[p]? with
    | none =>
      rw [hq] at hexec
      cases hexec
    | some q =>
      refine ⟨q, rfl, ?_⟩
      obtain ⟨command, paramValues, onResult⟩ := q
      cases onResult with
      | onMultipleQueryResult => simpa only [hq] using hexec
      | onUpdateResult => simpa only [hq] using hexec
  · cases hexec

/-- The disposal comes once. -/
theorem exec_of_next_dispose (h : s.next (.dispose, answers) = some s') :
    s.disposed = false ∧
      cleanupMultipleQueryRequest.exec { s with disposed := true } answers = some (((), s'), []) := by
  have hexec := exec_of_next h
  simp only [handle, exec_get_bind] at hexec
  split at hexec
  · cases hexec
  · rename_i hdisposed
    exact ⟨by simpa using hdisposed, hexec⟩

end Events

section Start

/-- A request that has submitted a query for each of its first ids. -/
def Request.asking (config : Config) (doUpdate : Bool) (ids : List ℕ) (k : ℕ) : Request :=
  { Request.init config with
    ctx := { MultipleQueryCtx.cleared with
      queryParam := (ids.take k).map worldQuery
      numQuery := ids.length
      numQueryInProgress := k
      doUpdate := doUpdate
      res := ids.map fun id => ⟨id, 0⟩ }
    outstanding := (List.range k).reverse }

/-- The loop of `do_multiple_queries`. -/
theorem exec_submitFrom {i n : ℕ} (h : (submitFrom i n).exec s answers = some (((), s'), []))
    (haccepted : .accepts false ∉ answers) :
    s' = { s with outstanding := (List.range' i n).reverse ++ s.outstanding } ∧
      ∀ answer ∈ answers, answer = .accepts true := by
  induction n generalizing i s answers with
  | zero =>
    rw [submitFrom] at h
    cases h
    exact ⟨rfl, by simp⟩
  | succ n ih =>
    rw [submitFrom] at h
    obtain ⟨rest, rfl, hsubmitted⟩ := of_exec_executeDatabaseQuery_bind h haccepted
    simp only [Bool.false_eq_true, if_false] at hsubmitted
    obtain ⟨rfl, hall⟩ := ih hsubmitted fun hmem => haccepted (List.mem_cons_of_mem _ hmem)
    refine ⟨?_, fun answer hmem => (List.mem_cons.mp hmem).elim id (hall answer)⟩
    simp [List.range'_succ]

/-- The queries of the first ids. -/
theorem map_range_worldQuery {ids : List ℕ} {k : ℕ} (hk : k ≤ ids.length) :
    ((List.range k).map fun i =>
      (⟨WORLD_TABLE_NAME, [((ids.map fun id => (⟨id, 0⟩ : QueryResult)).getD (0 + i) ⟨0, 0⟩).id],
        .onMultipleQueryResult⟩ : QueryParam)) = (ids.take k).map worldQuery := by
  apply List.ext_getElem
  · simpa using hk
  · intro i hi hi'
    simp only [List.length_map, List.length_range] at hi
    have hlt : i < ids.length := Nat.lt_of_lt_of_le hi hk
    simp [worldQuery, hlt]

/-- `do_multiple_queries`, when the cache is not used. -/
theorem exec_doMultipleQueries {config : Config} {doUpdate : Bool} {queries : Option ℤ} {ids : List ℕ}
    (h : (doMultipleQueries doUpdate false queries).exec (.init config) (.ids ids :: answers) =
      some (((), s'), []))
    (haccepted : .accepts false ∉ answers) :
    ids.length = getQueryNumber queries ∧
      (∀ answer ∈ answers, answer = .accepts true) ∧
      ∃ k, 0 < k ∧ k ≤ ids.length ∧ s' = .asking config doUpdate ids k := by
  have hpos := getQueryNumber_pos queries
  have hcap := inFlightCap_pos config hpos
  simp only [doMultipleQueries, exec_get_bind] at h
  obtain ⟨e, rest, found, hcons, hpick, hids⟩ := of_exec_expect_bind h
  cases hcons
  obtain ⟨hlength, hfound⟩ := Option.ite_none_right_eq_some.mp hpick
  cases hfound
  have hfrees : (Request.init config).frees = 0 := rfl
  simp (disch := exact hfrees) only [exec_modifyCtx_bind, Bool.false_eq_true, if_false, false_and,
    exec_getCtx_bind, issueQueries] at hids
  obtain ⟨rfl, hall⟩ := exec_submitFrom hids haccepted
  have hsome : 0 < min (inFlightCap config (getQueryNumber queries)) (getQueryNumber queries - 0) := by
    omega
  refine ⟨hlength, hall, _, hsome, by omega, ?_⟩
  simp only [Request.asking, Request.init, MultipleQueryCtx.cleared, List.append_nil]
  rw [← map_range_worldQuery (by omega), ← List.range_eq_range', hlength]

end Start

end FrameworkBenchmarks.H2o.World
