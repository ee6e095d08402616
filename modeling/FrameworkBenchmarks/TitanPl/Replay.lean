import FrameworkBenchmarks.TitanPl.Execution

/-!
# Replaying an action on the results it has received so far

For an action that does not catch the exception of a suspended drift call, an execution from the
start value of its request is the pure evaluation of the action on the list of results stored under
the ids that follow that value, as long as none of these ids belongs to another request.
-/

namespace FrameworkBenchmarks.TitanPl

open Common

variable {N D : Type} {w : Worker N}

/-- Evaluate an action whose drift calls return the given results in order; `none` when it makes a
call for which no result is left. -/
def replayAction : Action N → List (Value N) → Option (DriftOutcome N)
  | .done value, _ => some (.ok value)
  | .throw err, _ => some (.error err)
  | .drift arg rest, results =>
    match arg.asyncOp with
    | none => replayAction (rest (.error .badDriftArg)) results
    | some _ =>
      match results with
      | [] => none
      | result :: results => replayAction (rest (.ok result)) results

theorem replayAction_refused {arg : DriftArg} (harg : arg.asyncOp = none)
    (rest : DriftOutcome N → Action N) (results : List (Value N)) :
    replayAction (.drift arg rest) results = replayAction (rest (.error .badDriftArg)) results := by
  cases results <;> simp only [replayAction, harg]

theorem replayAction_nil {arg : DriftArg} {parsed : TitanAsyncOp × String}
    (harg : arg.asyncOp = some parsed) (rest : DriftOutcome N → Action N) :
    replayAction (.drift arg rest) [] = none := by
  simp only [replayAction, harg]

theorem replayAction_cons {arg : DriftArg} {parsed : TitanAsyncOp × String}
    (harg : arg.asyncOp = some parsed) (rest : DriftOutcome N → Action N) (result : Value N)
    (results : List (Value N)) :
    replayAction (.drift arg rest) (result :: results) =
      replayAction (rest (.ok result)) results := by
  simp only [replayAction, harg]

/-- The id of the `call`-th drift call of an execution that starts from the counter `start`. -/
def driftIdAt (start call : ℕ) : ℕ := (start + 1 + call) % 2 ^ 32

theorem u32Succ_eq_driftIdAt (start : ℕ) : u32Succ start = driftIdAt start 0 := rfl

theorem u32Succ_driftIdAt (start call : ℕ) :
    u32Succ (driftIdAt start call) = driftIdAt start (call + 1) := by
  simp only [u32Succ, driftIdAt]
  omega

/-- The first 2^32 calls of an execution get different ids. -/
theorem driftIdAt_ne {start j k : ℕ} (hjk : j < k) (hk : k < 2 ^ 32) :
    driftIdAt start j ≠ driftIdAt start k := by
  simp only [driftIdAt]
  omega

/-- The id is mapped to another request, or it was already drawn earlier in the same execution. -/
def foreignDriftId (rt : TitanRuntime N D) (requestId call driftId : ℕ) : Bool :=
  decide (2 ^ 32 ≤ call) ||
    match rt.driftToRequest driftId with
    | none => false
    | some r => r != requestId

theorem not_foreignDriftId {rt : TitanRuntime N D} {requestId call driftId : ℕ}
    (h : foreignDriftId rt requestId call driftId = false) :
    call < 2 ^ 32 ∧ ∀ r, rt.driftToRequest driftId = some r → r = requestId := by
  simp only [foreignDriftId, Bool.or_eq_false_iff, decide_eq_false_iff_not, not_le] at h
  refine ⟨h.1, fun r hr => ?_⟩
  simpa [hr] using h.2

/-- Every stored result belongs to an id that is mapped to some request. -/
def ResultsMapped (rt : TitanRuntime N D) : Prop :=
  ∀ id v, rt.completedDrifts id = some v → ∃ r, rt.driftToRequest id = some r

/-- What the maps hold for a request that starts from `start` and has received `results`. -/
structure Stored (rt : TitanRuntime N D) (requestId start : ℕ) (results : List (Value N)) : Prop where
  stored : ∀ j v, results[j]? = some v →
    rt.completedDrifts (driftIdAt start j) = some v ∧
      rt.driftToRequest (driftIdAt start j) = some requestId
  only : ∀ id v, rt.driftToRequest id = some requestId → rt.completedDrifts id = some v →
    ∃ j < results.length, id = driftIdAt start j

/-- Drawing an id that is mapped to the request already changes only the counter. -/
theorem drawDriftId_of_mapped {rt : TitanRuntime N D} {r : ℕ} (hr : r ≠ 0)
    (h : rt.driftToRequest (u32Succ rt.driftCounter) = some r) :
    drawDriftId r rt = { rt with driftCounter := u32Succ rt.driftCounter } := by
  simp only [drawDriftId, ne_eq, hr, not_false_eq_true, if_true, PartialMap.insert_eq_self h]

/-- A call whose result is stored returns it and changes only the counter. -/
theorem nativeDriftCall_stored (hqueue : ∀ op, w.trySend op = true) {r start call : ℕ} (hr : r ≠ 0)
    {rt : TitanRuntime N D} {results : List (Value N)} (hstored : Stored rt r start results)
    {arg : DriftArg} (harg : arg.asyncOp ≠ none) (hcall : call < results.length)
    (hcounter : u32Succ rt.driftCounter = driftIdAt start call) :
    nativeDriftCall w r call arg rt =
      ({ rt with driftCounter := u32Succ rt.driftCounter }, .ok results[call]) := by
  obtain ⟨hresult, hmap⟩ := hstored.stored call results[call] (List.getElem?_eq_getElem hcall)
  rw [← hcounter] at hresult hmap
  rcases nativeDriftCall_cases hqueue r call arg rt with
    ⟨hnone, _⟩ | ⟨op, opType, _, ⟨v, hv, hdrift⟩ | ⟨hnone, _⟩⟩
  · exact absurd hnone harg
  · obtain rfl : results[call] = v := Option.some.inj (hresult.symm.trans hv)
    rw [hdrift, drawDriftId_of_mapped hr hmap]
  · rw [hnone] at hresult
    cases hresult

/-- The id after the last stored result is free of results, unless it belongs to somebody else. -/
theorem Stored.next_free {rt : TitanRuntime N D} {r start : ℕ} {results : List (Value N)}
    (hstored : Stored rt r start results) (hmapped : ResultsMapped rt)
    (hlt : results.length < 2 ^ 32)
    (hmine : ∀ r', rt.driftToRequest (driftIdAt start results.length) = some r' → r' = r) :
    rt.completedDrifts (driftIdAt start results.length) = none := by
  by_contra hsome
  obtain ⟨v, hv⟩ := Option.ne_none_iff_exists'.mp hsome
  obtain ⟨r', hr'⟩ := hmapped _ v hv
  obtain rfl := hmine r' hr'
  obtain ⟨j, hj, hid⟩ := hstored.only _ v hr' hv
  exact driftIdAt_ne hj hlt hid.symm

/-- The runtime after the operation of a request has been put in flight under a new id. -/
def issueAt (op : TitanAsyncOp) (opType : String) (driftId requestId call : ℕ)
    (rt : TitanRuntime N D) : TitanRuntime N D :=
  { rt with
    driftCounter := driftId
    driftToRequest := rt.driftToRequest.insert driftId requestId
    asyncOps := rt.asyncOps ++
      [⟨op, driftId, requestId, opType, rt.pendingRequests requestId, call⟩] }

/-- The runtime after the drift calls of one execution: either every call found its result, or the
last one put its operation in flight under the id after the last stored result. -/
inductive ReplayEnd (rt : TitanRuntime N D) (requestId start : ℕ) (results : List (Value N)) :
    Option (DriftOutcome N) → TitanRuntime N D × DriftOutcome N → Prop
  | finished (outcome : DriftOutcome N) (counter : ℕ) :
    ReplayEnd rt requestId start results (some outcome) ({ rt with driftCounter := counter }, outcome)
  | issued (op : TitanAsyncOp) (opType : String)
    (hcall : results.length < 2 ^ 32)
    (hid : ∀ r, rt.driftToRequest (driftIdAt start results.length) = some r → r = requestId)
    (hnew : rt.completedDrifts (driftIdAt start results.length) = none) :
    ReplayEnd rt requestId start results none
      (issueAt op opType (driftIdAt start results.length) requestId results.length rt,
        .error .suspend)

/-- An execution that meets no foreign id is the replay of the action on the stored results. -/
theorem runAction_replay (hqueue : ∀ op, w.trySend op = true) {r start : ℕ} (hr : r ≠ 0)
    {results : List (Value N)} (action : Action N) (hprop : action.Propagates) :
    ∀ (call : ℕ) (rt : TitanRuntime N D), call ≤ results.length →
      u32Succ rt.driftCounter = driftIdAt start call → Stored rt r start results →
      ResultsMapped rt → driftIdsFree foreignDriftId w r call action rt = true →
      ReplayEnd rt r start results (replayAction action (results.drop call))
        (runAction w r call action rt) := by
  induction action with
  | done value => exact fun call rt _ _ _ _ _ => .finished (.ok value) rt.driftCounter
  | throw err => exact fun call rt _ _ _ _ _ => .finished (.error err) rt.driftCounter
  | drift arg rest ih =>
    intro call rt hcall hcounter hstored hmapped hfree
    simp only [driftIdsFree, Bool.and_eq_true, Bool.not_eq_true', Bool.and_eq_false_imp] at hfree
    obtain ⟨hclash, hfree⟩ := hfree
    rcases nativeDriftCall_cases hqueue r call arg rt with
      ⟨harg, hdrift⟩ | ⟨op, opType, harg, hdrift⟩
    · simp only [hdrift, harg, Option.isSome_none, Bool.false_eq_true, if_false] at hfree
      simp only [runAction, replayAction_refused harg, hdrift, harg, Option.isSome_none,
        Bool.false_eq_true, if_false]
      exact ih _ (hprop.2 _) call rt hcall hcounter hstored hmapped hfree
    · obtain ⟨hlt, hmine⟩ := not_foreignDriftId (hclash (by simp [harg]))
      rcases Nat.lt_or_eq_of_le hcall with hcall | rfl
      · -- the call has its result: the id is already mapped to this request
        have hsome : arg.asyncOp ≠ none := by simp [harg]
        have hdrift := nativeDriftCall_stored hqueue hr hstored hsome hcall hcounter
        simp only [hdrift, harg, Option.isSome_some, if_true] at hfree
        have hrest := ih (.ok results[call]) (hprop.2 _) (call + 1)
          { rt with driftCounter := u32Succ rt.driftCounter } hcall
          (by rw [← u32Succ_driftIdAt, ← hcounter]) ⟨hstored.1, hstored.2⟩ hmapped hfree
        rw [List.drop_eq_getElem_cons hcall, replayAction_cons harg]
        simp only [runAction, hdrift, harg, Option.isSome_some, if_true]
        generalize replayAction (rest (.ok results[call])) (results.drop (call + 1)) = outcome at hrest
        generalize runAction w r (call + 1) (rest (.ok results[call])) _ = run at hrest
        cases hrest with
        | finished outcome counter => exact .finished outcome counter
        | issued op opType hcall hid hnew => exact .issued op opType hcall hid hnew
      · -- no result is left: nothing is stored under the id, so the operation goes out
        rw [hcounter] at hmine hdrift
        have hnew := hstored.next_free hmapped hlt hmine
        rcases hdrift with ⟨v, hv, _⟩ | ⟨_, hdrift⟩
        · rw [hnew] at hv
          cases hv
        · rw [List.drop_length, replayAction_nil harg]
          simp only [runAction, hdrift, hprop.1, issueOp, drawDriftId, hcounter, ne_eq, hr,
            not_false_eq_true, if_true]
          exact .issued op opType hlt hmine hnew

end FrameworkBenchmarks.TitanPl
