import FrameworkBenchmarks.TitanPl.Replay
import FrameworkBenchmarks.TitanPl.Responses

/-!
# One request on its own results, next to the others

What the results a request has received decide about it, and what an execution of its action does
to the runtime: to its own entries what the results decide, to those of every other request nothing.
-/

namespace FrameworkBenchmarks.TitanPl

open Common

variable {N D : Type} {w : Worker N}

/-- What the results received so far decide about a request; `none` while its action needs another
one. -/
def soloVerdict (w : Worker N) (task : RequestData) (results : List (Value N)) :
    Option (Verdict N) :=
  match w.actions task.actionName with
  | none => some (.escape ("Action '" ++ task.actionName ++ "' not found"))
  | some action => (replayAction (action task) results).map verdict

/-- The response that goes out on a verdict. -/
def Verdict.response (timings : List (String × D)) : Verdict N → Option (WorkerResult N D)
  | .finish json => some { json, timings }
  | .escape msg => some { json := .errorObject msg, timings := [] }
  | .suspended => none

/-- The runtime after an execution: the verdict has been acted on, or the operation of the next drift
call is in flight. -/
inductive Executed (rt : TitanRuntime N D) (requestId start : ℕ) (results : List (Value N)) :
    Option (Verdict N) → TitanRuntime N D → Prop
  | settled (v : Verdict N) (counter : ℕ) :
    Executed rt requestId start results (some v)
      (settle requestId v { rt with driftCounter := counter })
  | issued (op : TitanAsyncOp) (opType : String)
    (hcall : results.length < 2 ^ 32)
    (hid : ∀ r, rt.driftToRequest (driftIdAt start results.length) = some r → r = requestId)
    (hnew : rt.completedDrifts (driftIdAt start results.length) = none) :
    Executed rt requestId start results none
      (issueAt op opType (driftIdAt start results.length) requestId results.length rt)

/-- An execution that meets no foreign id does what the results of its request decide. -/
theorem execute_solo (hqueue : ∀ op, w.trySend op = true)
    (hprop : ∀ name action, w.actions name = some action → ∀ data, (action data).Propagates)
    {r : ℕ} (hr : r ≠ 0) {task : RequestData} {rt : TitanRuntime N D} {results : List (Value N)}
    (hstored : Stored rt r rt.driftCounter results) (hmapped : ResultsMapped rt)
    (hfree : ∀ action, w.actions task.actionName = some action →
      driftIdsFree foreignDriftId w r 0 (action task) rt = true) :
    Executed rt r rt.driftCounter results (soloVerdict w task results)
      (executeActionOptimized w r task rt) := by
  cases hact : w.actions task.actionName with
  | none =>
    rw [executeActionOptimized_missing hact]
    simp only [soloVerdict, hact]
    exact .settled _ rt.driftCounter
  | some action =>
    rw [executeActionOptimized_eq hact]
    simp only [soloVerdict, hact]
    have hrun := runAction_replay hqueue hr (action task) (hprop _ _ hact task) 0 rt (Nat.zero_le _)
      rfl hstored hmapped (hfree action hact)
    rw [List.drop_zero] at hrun
    generalize replayAction (action task) results = replayed at hrun
    generalize runAction w r 0 (action task) rt = run at hrun
    cases hrun with
    | finished outcome counter => exact .settled (verdict outcome) counter
    | issued op opType hcall hid hnew =>
      rw [Option.map_none, verdict_suspend]
      exact .issued op opType hcall hid hnew

/-- The entries of one request are the same before and after. -/
structure Untouched (rt rt' : TitanRuntime N D) (r : ℕ) : Prop where
  pending : rt'.pendingRequests r = rt.pendingRequests r
  active : rt'.activeRequests r = rt.activeRequests r
  startCounter : rt'.requestStartCounters r = rt.requestStartCounters r
  timings : rt'.requestTimings r = rt.requestTimings r
  mapping : ∀ id, rt'.driftToRequest id = some r ↔ rt.driftToRequest id = some r
  results : ∀ id, rt.driftToRequest id = some r → rt'.completedDrifts id = rt.completedDrifts id
  ops : ∀ op : AsyncOpRequest, op.requestId = r → (op ∈ rt'.asyncOps ↔ op ∈ rt.asyncOps)

theorem Untouched.refl (rt : TitanRuntime N D) (r : ℕ) : Untouched rt rt r :=
  ⟨rfl, rfl, rfl, rfl, fun _ => .rfl, fun _ _ => rfl, fun _ _ => .rfl⟩

theorem Untouched.trans {rt₁ rt₂ rt₃ : TitanRuntime N D} {r : ℕ} (h₁ : Untouched rt₁ rt₂ r)
    (h₂ : Untouched rt₂ rt₃ r) : Untouched rt₁ rt₃ r where
  pending := h₂.pending.trans h₁.pending
  active := h₂.active.trans h₁.active
  startCounter := h₂.startCounter.trans h₁.startCounter
  timings := h₂.timings.trans h₁.timings
  mapping id := (h₂.mapping id).trans (h₁.mapping id)
  results id hid := (h₂.results id ((h₁.mapping id).mpr hid)).trans (h₁.results id hid)
  ops op hop := (h₂.ops op hop).trans (h₁.ops op hop)

/-- What is stored for a request survives whatever leaves its entries alone. -/
theorem Stored.of_untouched {rt rt' : TitanRuntime N D} {r start : ℕ} {results : List (Value N)}
    (h : Stored rt r start results) (hsame : Untouched rt rt' r) : Stored rt' r start results where
  stored j v hv := by
    obtain ⟨hresult, hmap⟩ := h.stored j v hv
    exact ⟨by rw [hsame.results _ hmap, hresult], (hsame.mapping _).mpr hmap⟩
  only id v hmap hv := by
    rw [hsame.mapping id] at hmap
    rw [hsame.results id hmap] at hv
    exact h.only id v hmap hv

theorem untouched_respond {rt : TitanRuntime N D} {r r' : ℕ} (hne : r' ≠ r)
    (result : WorkerResult N D) : Untouched rt (rt.respond r result) r' := by
  cases htx : rt.pendingRequests r with
  | none =>
    rw [respond_of_none htx]
    exact .refl rt r'
  | some tx =>
    rw [respond_of_some htx]
    exact ⟨PartialMap.erase_of_ne _ hne, rfl, rfl, rfl, fun _ => .rfl, fun _ _ => rfl, fun _ _ => .rfl⟩

theorem untouched_clearDrifts {rt : TitanRuntime N D} {r r' : ℕ} (hne : r' ≠ r) :
    Untouched rt (clearDrifts r rt) r' where
  pending := rfl
  active := rfl
  startCounter := rfl
  timings := PartialMap.erase_of_ne _ hne
  mapping id := by
    simp only [clearDrifts]
    split
    · rename_i hid
      simp [hid, Ne.symm hne]
    · exact .rfl
  results id hid := by simp [clearDrifts, hid, hne]
  ops _ _ := .rfl

/-- Acting on the verdict of one request leaves the others alone. -/
theorem untouched_settle {rt : TitanRuntime N D} {r r' : ℕ} (hne : r' ≠ r) (v : Verdict N) :
    Untouched rt (settle r v rt) r' := by
  cases v with
  | finish json => exact (untouched_clearDrifts hne).trans (untouched_respond hne _)
  | escape msg => exact untouched_respond hne _
  | suspended => exact .refl rt r'

/-- An execution leaves the other requests alone. -/
theorem Executed.untouched {rt rt' : TitanRuntime N D} {r r' start : ℕ} {results : List (Value N)}
    {v : Option (Verdict N)} (h : Executed rt r start results v rt') (hne : r' ≠ r) :
    Untouched rt rt' r' := by
  cases h with
  | settled v counter =>
    have hcounter : Untouched rt { rt with driftCounter := counter } r' :=
      ⟨rfl, rfl, rfl, rfl, fun _ => .rfl, fun _ _ => rfl, fun _ _ => .rfl⟩
    exact hcounter.trans (untouched_settle hne v)
  | issued op opType hcall hid hnew =>
    refine ⟨rfl, rfl, rfl, rfl, fun id => ?_, fun _ _ => rfl, fun op' hop' => ?_⟩
    · simp only [issueAt, PartialMap.insert_apply]
      split
      · rename_i heq
        rw [heq]
        exact ⟨fun h => absurd (Option.some.inj h).symm hne, fun h => absurd (hid r' h) hne⟩
      · exact .rfl
    · simp only [issueAt, List.mem_append, List.mem_singleton, or_iff_left_iff_imp]
      rintro rfl
      exact absurd hop'.symm hne

theorem resultsMapped_settle {rt : TitanRuntime N D} (h : ResultsMapped rt) (r : ℕ)
    (v : Verdict N) : ResultsMapped (settle r v rt) := by
  have hrespond (rt₁ : TitanRuntime N D) (h₁ : ResultsMapped rt₁) (result : WorkerResult N D) :
      ResultsMapped (rt₁.respond r result) := by
    cases htx : rt₁.pendingRequests r with
    | none => rwa [respond_of_none htx]
    | some tx =>
      rw [respond_of_some htx]
      exact h₁
  cases v with
  | finish json =>
    refine hrespond (clearDrifts r rt) (fun id v hv => ?_) _
    by_cases hid : rt.driftToRequest id = some r
    · simp [clearDrifts, hid] at hv
    · obtain ⟨r', hr'⟩ := h id v (by simpa [clearDrifts, hid] using hv)
      exact ⟨r', by simpa [clearDrifts, hid] using hr'⟩
  | escape msg => exact hrespond rt h _
  | suspended => exact h

theorem Executed.resultsMapped {rt rt' : TitanRuntime N D} {r start : ℕ} {results : List (Value N)}
    {v : Option (Verdict N)} (h : Executed rt r start results v rt') (hmapped : ResultsMapped rt) :
    ResultsMapped rt' := by
  cases h with
  | settled v counter =>
    have hcounter : ResultsMapped { rt with driftCounter := counter } := hmapped
    exact resultsMapped_settle hcounter r v
  | issued op opType hcall hid hnew =>
    intro id v hv
    simp only [issueAt, PartialMap.insert_apply]
    split
    · exact ⟨r, rfl⟩
    · exact hmapped id v hv

/-- A verdict that has a response sends it over the channel of the request. -/
theorem settle_of_response {rt : TitanRuntime N D} {r tx : ℕ} (htx : rt.pendingRequests r = some tx)
    {v : Verdict N} {result : WorkerResult N D}
    (hresult : v.response ((rt.requestTimings r).getD []) = some result) :
    (settle r v rt).pendingRequests = rt.pendingRequests.erase r ∧
      (settle r v rt).sent = rt.sent ++ [(tx, result)] := by
  have hcleared : (clearDrifts r rt).pendingRequests r = some tx := htx
  cases v with
  | finish json =>
    obtain rfl := Option.some.inj hresult
    rw [settle, nativeFinishRequest, respond_of_some hcleared]
    exact ⟨rfl, rfl⟩
  | escape msg =>
    obtain rfl := Option.some.inj hresult
    rw [settle, respond_of_some htx]
    exact ⟨rfl, rfl⟩
  | suspended => cases hresult

end FrameworkBenchmarks.TitanPl
