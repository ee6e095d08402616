import FrameworkBenchmarks.TitanPl.Alone

/-!
# One request whose action differs from execution to execution

An action that draws random numbers is another decision tree in each of its executions. The results
stored for the request are those of the operations that earlier trees issued, and the tree of the
current execution is replayed on them.
-/

namespace FrameworkBenchmarks.TitanPl

open Common

variable {N D W : Type} {w : Worker N}

/-- The operation that an action waits for after the given results, if it needs another one. -/
def awaitedOp : Action N → List (Value N) → Option TitanAsyncOp
  | .done _, _ => none
  | .throw _, _ => none
  | .drift arg rest, results =>
    match arg.asyncOp with
    | none => awaitedOp (rest (.error .badDriftArg)) results
    | some (op, _) =>
      match results with
      | [] => some op
      | result :: results => awaitedOp (rest (.ok result)) results

/-- A worker that serves one request, what its operations act on, and the operations that have been
executed. -/
structure Served (N D W : Type) where
  rt : TitanRuntime N D
  ext : W
  executed : List TitanAsyncOp

/-- The first operation in flight is executed and its result resumes the request. -/
def Served.resume (answer : W → TitanAsyncOp → Value N × W) (w : Worker N) (duration : D)
    (s : Served N D W) : Served N D W :=
  match s.rt.asyncOps with
  | [] => s
  | op :: rest =>
    let answered := answer s.ext op.op
    { rt := handleResume w op.driftId answered.1 duration { s.rt with asyncOps := rest }
      ext := answered.2
      executed := s.executed ++ [op.op] }

/-- The worker after a number of resumes; `workers k` has the actions as the `k`-th execution finds
them. -/
def Served.after (answer : W → TitanAsyncOp → Value N × W) (workers : ℕ → Worker N)
    (durations : ℕ → D) (task : RequestData) (ext : W) : ℕ → Served N D W
  | 0 => ⟨handleNewRequest (workers 0) 0 task .init, ext, []⟩
  | n + 1 => (Served.after answer workers durations task ext n).resume answer (workers (n + 1))
      (durations n)

/-- The only request of the worker is about to be executed on its results. -/
structure Ready (rt : TitanRuntime N D) (results : List (Value N)) : Prop where
  pending : rt.pendingRequests 1 = some 0
  counter : rt.driftCounter = 0
  stored : Stored rt 1 0 results
  own : ∀ id r, rt.driftToRequest id = some r → r = 1
  resultsMapped : ResultsMapped rt
  idle : rt.asyncOps = []
  unsent : rt.sent = []

/-- The request has received some results and waits for that of one operation. -/
structure Awaiting (rt : TitanRuntime N D) (results : List (Value N)) (op : TitanAsyncOp) :
    Prop where
  pending : rt.pendingRequests 1 = some 0
  stored : Stored rt 1 0 results
  own : ∀ id r, rt.driftToRequest id = some r → r = 1
  resultsMapped : ResultsMapped rt
  inFlight : ∃ issued : AsyncOpRequest, rt.asyncOps = [issued] ∧ issued.op = op ∧
    issued.driftId = driftIdAt 0 results.length
  mapped : rt.driftToRequest (driftIdAt 0 results.length) = some 1
  unanswered : rt.completedDrifts (driftIdAt 0 results.length) = none
  unsent : rt.sent = []

/-- The request has been answered as a verdict says, and nothing is in flight. -/
structure Settled (rt : TitanRuntime N D) (v : Verdict N) : Prop where
  idle : rt.asyncOps = []
  sent : ∃ timings, rt.sent = ((v.response timings).map fun response => (0, response)).toList

/-- An execution puts the awaited operation in flight, if any. -/
theorem mem_asyncOps_runAction (hqueue : ∀ op, w.trySend op = true) {r start : ℕ} (hr : r ≠ 0)
    {results : List (Value N)} (action : Action N) (hprop : action.Propagates) :
    ∀ (call : ℕ) (rt : TitanRuntime N D), call ≤ results.length →
      u32Succ rt.driftCounter = driftIdAt start call → Stored rt r start results →
      ResultsMapped rt → driftIdsFree foreignDriftId w r call action rt = true →
      ∀ issued ∈ (runAction w r call action rt).1.asyncOps,
        issued ∈ rt.asyncOps ∨ awaitedOp action (results.drop call) = some issued.op := by
  induction action with
  | done value => exact fun call rt _ _ _ _ _ issued h => .inl h
  | throw err => exact fun call rt _ _ _ _ _ issued h => .inl h
  | drift arg rest ih =>
    intro call rt hcall hcounter hstored hmapped hfree
    simp only [driftIdsFree, Bool.and_eq_true, Bool.not_eq_true', Bool.and_eq_false_imp] at hfree
    obtain ⟨hclash, hfree⟩ := hfree
    rcases nativeDriftCall_cases hqueue r call arg rt with
      ⟨harg, hdrift⟩ | ⟨op, opType, harg, hdrift⟩
    · simp only [hdrift, harg, Option.isSome_none, Bool.false_eq_true, if_false] at hfree
      simp only [runAction, awaitedOp, hdrift, harg, Option.isSome_none, Bool.false_eq_true,
        if_false]
      exact ih _ (hprop.2 _) call rt hcall hcounter hstored hmapped hfree
    · obtain ⟨hlt, hmine⟩ := not_foreignDriftId (hclash (by simp [harg]))
      rcases Nat.lt_or_eq_of_le hcall with hcall | rfl
      · have hsome : arg.asyncOp ≠ none := by simp [harg]
        have hdrift := nativeDriftCall_stored hqueue hr hstored hsome hcall hcounter
        simp only [hdrift, harg, Option.isSome_some, if_true] at hfree
        have hrest := ih (.ok results[call]) (hprop.2 _) (call + 1)
          { rt with driftCounter := u32Succ rt.driftCounter } hcall
          (by rw [← u32Succ_driftIdAt, ← hcounter]) ⟨hstored.1, hstored.2⟩ hmapped hfree
        rw [List.drop_eq_getElem_cons hcall]
        simp only [runAction, awaitedOp, hdrift, harg, Option.isSome_some, if_true]
        exact hrest
      · rw [hcounter] at hmine hdrift
        have hnew := hstored.next_free hmapped hlt hmine
        rcases hdrift with ⟨v, hv, _⟩ | ⟨_, hdrift⟩
        · rw [hnew] at hv
          cases hv
        · intro issued hissued
          simp only [runAction, hdrift, hprop.1, issueOp, drawDriftId, List.mem_append,
            List.mem_singleton] at hissued
          simp only [List.drop_length, awaitedOp, harg]
          exact hissued.imp_right fun h => by rw [h]

/-- An action needs another result exactly if it waits for an operation. -/
theorem replayAction_eq_none_iff (action : Action N) (results : List (Value N)) :
    replayAction action results = none ↔ ∃ op, awaitedOp action results = some op := by
  induction action generalizing results with
  | done value => simp [replayAction, awaitedOp]
  | throw err => simp [replayAction, awaitedOp]
  | drift arg rest ih =>
    cases harg : arg.asyncOp with
    | none =>
      rw [replayAction_refused harg, ih]
      simp only [awaitedOp, harg]
    | some parsed =>
      cases results with
      | nil => simp [replayAction_nil harg, awaitedOp, harg]
      | cons result results =>
        rw [replayAction_cons harg, ih]
        simp only [awaitedOp, harg]

/-- An execution of the only request meets no foreign id. -/
theorem Ready.driftIdsFree (hqueue : ∀ op, w.trySend op = true) {rt : TitanRuntime N D}
    {results : List (Value N)} (h : Ready rt results) (hshort : results.length < 2 ^ 32)
    (action : Action N) (hprop : action.Propagates) :
    driftIdsFree foreignDriftId w 1 0 action rt = true := by
  apply driftIdsFree_alone hqueue Nat.one_ne_zero hshort.le action hprop 0 rt (Nat.zero_le _)
  · rw [h.counter, u32Succ_eq_driftIdAt]
  · exact h.stored
  · exact h.own
  · exact h.resultsMapped
  · exact fun _ => hshort

/-- An execution that needs another result puts the awaited operation in flight. -/
theorem Ready.execute_awaiting (hqueue : ∀ op, w.trySend op = true) {rt : TitanRuntime N D}
    {task : RequestData} {results : List (Value N)} {op : TitanAsyncOp}
    {action : RequestData → Action N} (h : Ready rt results) (hshort : results.length < 2 ^ 32)
    (hact : w.actions task.actionName = some action) (hprop : (action task).Propagates)
    (hop : awaitedOp (action task) results = some op) :
    Awaiting (executeActionOptimized w 1 task rt) results op := by
  have hfree := h.driftIdsFree hqueue hshort (action task) hprop
  have hcounter : u32Succ rt.driftCounter = driftIdAt 0 0 := by
    rw [h.counter, u32Succ_eq_driftIdAt]
  have hnone := (replayAction_eq_none_iff (action task) results).2 ⟨op, hop⟩
  have hrun := runAction_replay hqueue Nat.one_ne_zero (action task) hprop 0 rt (Nat.zero_le _)
    hcounter h.stored h.resultsMapped hfree
  have hissued := mem_asyncOps_runAction hqueue Nat.one_ne_zero (action task) hprop 0 rt
    (Nat.zero_le _) hcounter h.stored h.resultsMapped hfree
  rw [List.drop_zero, hnone] at hrun
  rw [List.drop_zero, hop, h.idle] at hissued
  rw [executeActionOptimized_eq hact]
  generalize runAction w 1 0 (action task) rt = run at hrun hissued
  cases hrun with
  | issued op' opType hcall hid hnew =>
    have hops : (issueAt op' opType (driftIdAt 0 results.length) 1 results.length rt).asyncOps =
        [⟨op', driftIdAt 0 results.length, 1, opType, rt.pendingRequests 1, results.length⟩] := by
      rw [issueAt, h.idle, List.nil_append]
    have heq : op = op' :=
      Option.some.inj ((hissued _ (hops ▸ List.mem_singleton_self _)).resolve_left List.not_mem_nil)
    rw [verdict_suspend]
    refine ⟨h.pending, ⟨fun j v hv => ?_, fun id v hmap hv => ?_⟩, fun id r hmap => ?_,
      fun id v hv => ?_, ⟨_, hops, heq.symm, rfl⟩,
      PartialMap.insert_self .., hnew, h.unsent⟩
    · obtain ⟨hresult, hmap⟩ := h.stored.stored j v hv
      refine ⟨hresult, ?_⟩
      simp only [settle, issueAt, PartialMap.insert_apply]
      split
      · rfl
      · exact hmap
    · refine h.stored.only id v ?_ hv
      obtain ⟨r, hr⟩ := h.resultsMapped id v hv
      rw [hr, h.own id r hr]
    · simp only [settle, issueAt, PartialMap.insert_apply] at hmap
      split at hmap
      · exact (Option.some.inj hmap).symm
      · exact h.own id r hmap
    · obtain ⟨r, hr⟩ := h.resultsMapped id v hv
      simp only [settle, issueAt, PartialMap.insert_apply]
      split
      · exact ⟨1, rfl⟩
      · exact ⟨r, hr⟩

/-- An execution that needs no further result answers the request. -/
theorem Ready.execute_settled (hqueue : ∀ op, w.trySend op = true) {rt : TitanRuntime N D}
    {task : RequestData} {results : List (Value N)} {outcome : DriftOutcome N}
    {action : RequestData → Action N} (h : Ready rt results) (hshort : results.length < 2 ^ 32)
    (hact : w.actions task.actionName = some action) (hprop : (action task).Propagates)
    (houtcome : replayAction (action task) results = some outcome) :
    Settled (executeActionOptimized w 1 task rt) (verdict outcome) := by
  have hfree := h.driftIdsFree hqueue hshort (action task) hprop
  have hrun := runAction_replay hqueue Nat.one_ne_zero (action task) hprop 0 rt (Nat.zero_le _)
    (by rw [h.counter, u32Succ_eq_driftIdAt]) h.stored h.resultsMapped hfree
  rw [List.drop_zero, houtcome] at hrun
  rw [executeActionOptimized_eq hact]
  generalize runAction w 1 0 (action task) rt = run at hrun
  cases hrun with
  | finished outcome counter =>
    have hbooks := settle_books 1 (verdict outcome) { rt with driftCounter := counter }
    refine ⟨hbooks.2.2.2.trans h.idle, (rt.requestTimings 1).getD [], ?_⟩
    cases hresponse : (verdict outcome).response ((rt.requestTimings 1).getD []) with
    | some response =>
      have hpending : { rt with driftCounter := counter }.pendingRequests 1 = some 0 := h.pending
      have hsettle := settle_of_response hpending hresponse
      rw [hsettle.2, h.unsent]
      rfl
    | none =>
      cases hv : verdict outcome with
      | finish json => simp [hv, Verdict.response] at hresponse
      | escape msg => simp [hv, Verdict.response] at hresponse
      | suspended => exact h.unsent

/-- The data of the request is kept while it waits. -/
structure Kept (rt : TitanRuntime N D) (task : RequestData) : Prop where
  active : rt.activeRequests 1 = some task
  startCounter : rt.requestStartCounters 1 = some 0

/-- The first execution of the only request puts the operation that it awaits in flight. -/
theorem awaiting_handleNewRequest (hqueue : ∀ op, w.trySend op = true) {task : RequestData}
    {op : TitanAsyncOp} {action : RequestData → Action N}
    (hact : w.actions task.actionName = some action) (hprop : (action task).Propagates)
    (hop : awaitedOp (action task) [] = some op) :
    Awaiting (handleNewRequest w 0 task (.init : TitanRuntime N D)) [] op ∧
      Kept (handleNewRequest w 0 task (.init : TitanRuntime N D)) task := by
  have hready : Ready (admitRequest 0 (.init : TitanRuntime N D)) [] :=
    ⟨rfl, rfl, ⟨nofun, nofun⟩, nofun, nofun, rfl, rfl⟩
  have hexec := hready.execute_awaiting hqueue (Nat.two_pow_pos 32) hact hprop hop
  have hbooks := execute_books (w := w) 1 task (admitRequest 0 (.init : TitanRuntime N D))
  have hnew : handleNewRequest w 0 task (.init : TitanRuntime N D) =
      let rt := executeActionOptimized w 1 task (admitRequest 0 .init)
      { rt with activeRequests := rt.activeRequests.insert 1 task } := by
    have hone : u32Succ (TitanRuntime.init : TitanRuntime N D).requestCounter = 1 := rfl
    rw [handleNewRequest, hone, if_neg (by simp [hexec.pending])]
  rw [hnew]
  refine ⟨⟨hexec.1, ⟨hexec.2.1, hexec.2.2⟩, hexec.3, hexec.4, hexec.5, hexec.6, hexec.7, hexec.8⟩, ?_⟩
  constructor
  · dsimp only
    rw [PartialMap.insert_self]
  · dsimp only
    rw [hbooks.2.1]
    rfl

/-- The result of the operation in flight is stored, and the request is executed on one more
result. -/
theorem Awaiting.ready {rt : TitanRuntime N D} {results : List (Value N)} {op : TitanAsyncOp}
    (h : Awaiting rt results op) (hshort : results.length < 2 ^ 32) (result : Value N)
    (duration : D) (hstart : rt.requestStartCounters 1 = some 0) :
    Ready (rewindCounter 1 (recordDrift (driftIdAt 0 results.length) 1 result duration
      { rt with asyncOps := [] })) (results ++ [result]) where
  pending := h.pending
  counter := by simp only [rewindCounter, recordDrift, hstart, Option.getD_some]
  stored := by
    refine ⟨fun j v hv => ?_, fun id v hmap hv => ?_⟩
    · simp only [rewindCounter, recordDrift, PartialMap.insert_apply]
      rcases Nat.lt_trichotomy j results.length with hj | rfl | hj
      · rw [List.getElem?_append_left hj] at hv
        rw [if_neg (driftIdAt_ne hj hshort)]
        exact h.stored.stored j v hv
      · obtain rfl : result = v := by simpa using hv
        exact ⟨if_pos rfl, h.mapped⟩
      · rw [List.getElem?_eq_none (by simpa using Nat.succ_le_of_lt hj)] at hv
        cases hv
    · rw [List.length_append, List.length_singleton]
      simp only [rewindCounter, recordDrift, PartialMap.insert_apply] at hv
      split at hv
      · exact ⟨results.length, by omega, by assumption⟩
      · obtain ⟨j, hj, hid⟩ := h.stored.only id v hmap hv
        exact ⟨j, by omega, hid⟩
  own := h.own
  resultsMapped := by
    intro id v hv
    simp only [rewindCounter, recordDrift, PartialMap.insert_apply] at hv ⊢
    split at hv
    · rename_i hid
      exact ⟨1, hid ▸ h.mapped⟩
    · exact h.resultsMapped id v hv
  idle := rfl
  unsent := h.unsent

/-- The request is resumed by the result of the operation in flight. -/
theorem handleResume_eq {rt : TitanRuntime N D} {results : List (Value N)} {op : TitanAsyncOp}
    {task : RequestData} (h : Awaiting rt results op) (hkept : Kept rt task) (result : Value N)
    (duration : D) :
    handleResume w (driftIdAt 0 results.length) result duration { rt with asyncOps := [] } =
      forgetAnswered 1 (executeActionOptimized w 1 task (rewindCounter 1
        (recordDrift (driftIdAt 0 results.length) 1 result duration { rt with asyncOps := [] }))) := by
  have hactive : (recordDrift (driftIdAt 0 results.length) 1 result duration
      { rt with asyncOps := [] }).activeRequests 1 = some task := hkept.active
  simp only [handleResume, h.mapped, Option.getD_some, hactive]

/-- A resumed request that needs another result waits for the next operation. -/
theorem Awaiting.resume_awaiting (hqueue : ∀ op, w.trySend op = true) {rt : TitanRuntime N D}
    {task : RequestData} {results : List (Value N)} {op op' : TitanAsyncOp}
    {action : RequestData → Action N} (h : Awaiting rt results op) (hkept : Kept rt task)
    (hshort : results.length + 1 < 2 ^ 32) (hact : w.actions task.actionName = some action)
    (hprop : (action task).Propagates) (result : Value N) (duration : D)
    (hop : awaitedOp (action task) (results ++ [result]) = some op') :
    let rt' := handleResume w (driftIdAt 0 results.length) result duration { rt with asyncOps := [] }
    Awaiting rt' (results ++ [result]) op' ∧ Kept rt' task := by
  have hready := h.ready (by omega) result duration hkept.startCounter
  have hexec := hready.execute_awaiting hqueue (by simpa using hshort) hact hprop hop
  have hbooks := execute_books (w := w) 1 task (rewindCounter 1
    (recordDrift (driftIdAt 0 results.length) 1 result duration { rt with asyncOps := [] }))
  rw [handleResume_eq h hkept, forgetAnswered, if_neg (by simp [hexec.pending])]
  exact ⟨hexec, (congrFun hbooks.1 1).trans hkept.active,
    (congrFun hbooks.2.1 1).trans hkept.startCounter⟩

/-- A resumed request that needs no further result is answered. -/
theorem Awaiting.resume_settled (hqueue : ∀ op, w.trySend op = true) {rt : TitanRuntime N D}
    {task : RequestData} {results : List (Value N)} {op : TitanAsyncOp} {outcome : DriftOutcome N}
    {action : RequestData → Action N} (h : Awaiting rt results op) (hkept : Kept rt task)
    (hshort : results.length + 1 < 2 ^ 32) (hact : w.actions task.actionName = some action)
    (hprop : (action task).Propagates) (result : Value N) (duration : D)
    (houtcome : replayAction (action task) (results ++ [result]) = some outcome) :
    Settled (handleResume w (driftIdAt 0 results.length) result duration { rt with asyncOps := [] })
      (verdict outcome) := by
  have hready := h.ready (by omega) result duration hkept.startCounter
  have hexec := hready.execute_settled hqueue (by simpa using hshort) hact hprop houtcome
  rw [handleResume_eq h hkept]
  have hbooks := forgetAnswered_books 1 (executeActionOptimized w 1 task (rewindCounter 1
    (recordDrift (driftIdAt 0 results.length) 1 result duration { rt with asyncOps := [] })))
  refine ⟨hbooks.2.2.1.trans hexec.idle, ?_⟩
  rw [hbooks.2.1]
  exact hexec.sent

section served

variable {answer : W → TitanAsyncOp → Value N × W} {s : Served N D W}

/-- While the request waits, a resume executes the operation that it waits for. -/
theorem Served.resume_of_awaiting {results : List (Value N)} {op : TitanAsyncOp}
    (h : Awaiting s.rt results op) (duration : D) :
    s.resume answer w duration =
      { rt := handleResume w (driftIdAt 0 results.length) (answer s.ext op).1 duration
          { s.rt with asyncOps := [] }
        ext := (answer s.ext op).2
        executed := s.executed ++ [op] } := by
  obtain ⟨issued, hops, rfl, hid⟩ := h.inFlight
  rw [Served.resume, hops, ← hid]

/-- Once nothing is in flight, the worker stays as it is. -/
theorem Served.after_of_idle {workers : ℕ → Worker N} {durations : ℕ → D} {task : RequestData}
    {ext : W} {n m : ℕ} (hn : n ≤ m)
    (h : (Served.after answer workers durations task ext n).rt.asyncOps = []) :
    Served.after answer workers durations task ext m =
      Served.after answer workers durations task ext n := by
  induction m, hn using Nat.le_induction with
  | base => rfl
  | succ m _ ih => rw [Served.after, ih, Served.resume, h]

end served

end FrameworkBenchmarks.TitanPl
