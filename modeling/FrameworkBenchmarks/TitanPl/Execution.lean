import FrameworkBenchmarks.TitanPl.System

/-!
# What one execution of an action does to the runtime

A drift call only moves the drift counter, maps the new id and may put an operation in flight; an
execution is a sequence of such calls followed by a verdict. The lemmas here say this once, so that
the invariants never unfold a handler.
-/

namespace FrameworkBenchmarks.TitanPl

open Common

variable {N D : Type} {w : Worker N}

/-- How an execution ends for its request. -/
inductive Verdict (N : Type) where
  /-- `native_finish_request` answers with this JSON -/
  | finish (json : Value N)
  /-- the exception that escaped the wrapper is the answer -/
  | escape (msg : String)
  /-- the request is left suspended -/
  | suspended

/-- The verdict on the outcome of an action, read off the wrapper and `execute_action_optimized`. -/
def verdict : DriftOutcome N → Verdict N
  | .ok value => .finish value
  | .error err =>
    match err.isSuspend with
    | .error uncaught => if includes uncaught "SUSPEND" then .suspended else .escape uncaught
    | .ok true => .suspended
    | .ok false =>
      match err.text with
      | .error uncaught => if includes uncaught "SUSPEND" then .suspended else .escape uncaught
      | .ok msg => .finish (.errorObject msg)

/-- The effect of a verdict on the runtime. -/
def settle (requestId : ℕ) (v : Verdict N) (rt : TitanRuntime N D) : TitanRuntime N D :=
  match v with
  | .finish json => nativeFinishRequest requestId json rt
  | .escape msg => rt.respond requestId { json := .errorObject msg, timings := [] }
  | .suspended => rt

/-- A suspended drift call that nobody catches leaves the request suspended. -/
@[simp] theorem verdict_suspend : verdict (.error .suspend : DriftOutcome N) = .suspended := by
  have h : (JsThrown.suspend).isSuspend = .ok true := by decide
  simp only [verdict, h]

/-- Executing a registered action is running its body and acting on the verdict. -/
theorem executeActionOptimized_eq {data : RequestData} {action : RequestData → Action N}
    (hact : w.actions data.actionName = some action) (requestId : ℕ) (rt : TitanRuntime N D) :
    executeActionOptimized w requestId data rt =
      settle requestId (verdict (runAction w requestId 0 (action data) rt).2)
        (runAction w requestId 0 (action data) rt).1 := by
  simp only [executeActionOptimized, hact]
  generalize runAction w requestId 0 (action data) rt = run
  obtain ⟨rt', outcome⟩ := run
  cases outcome with
  | ok value => rfl
  | error err =>
    simp only [defineAction, verdict]
    cases hsus : err.isSuspend with
    | error uncaught => by_cases h : includes uncaught "SUSPEND" <;> simp [h, settle]
    | ok suspended =>
      cases suspended with
      | true => rfl
      | false =>
        cases htext : err.text with
        | error uncaught => by_cases h : includes uncaught "SUSPEND" <;> simp [h, settle]
        | ok msg => rfl

/-- An action that is not registered is answered at once. -/
theorem executeActionOptimized_missing {data : RequestData}
    (hact : w.actions data.actionName = none) (requestId : ℕ) (rt : TitanRuntime N D) :
    executeActionOptimized w requestId data rt =
      rt.respond requestId
        { json := .errorObject ("Action '" ++ data.actionName ++ "' not found"), timings := [] } := by
  simp only [executeActionOptimized, hact]

/-- The parts of the runtime that drift calls leave alone. -/
structure SameBooks (rt rt' : TitanRuntime N D) : Prop where
  pendingRequests : rt'.pendingRequests = rt.pendingRequests
  requestCounter : rt'.requestCounter = rt.requestCounter
  requestTimings : rt'.requestTimings = rt.requestTimings
  completedDrifts : rt'.completedDrifts = rt.completedDrifts
  activeRequests : rt'.activeRequests = rt.activeRequests
  requestStartCounters : rt'.requestStartCounters = rt.requestStartCounters
  sent : rt'.sent = rt.sent

theorem SameBooks.refl (rt : TitanRuntime N D) : SameBooks rt rt :=
  ⟨rfl, rfl, rfl, rfl, rfl, rfl, rfl⟩

theorem SameBooks.trans {rt₁ rt₂ rt₃ : TitanRuntime N D} (h₁ : SameBooks rt₁ rt₂)
    (h₂ : SameBooks rt₂ rt₃) : SameBooks rt₁ rt₃ :=
  ⟨h₂.1.trans h₁.1, h₂.2.trans h₁.2, h₂.3.trans h₁.3, h₂.4.trans h₁.4, h₂.5.trans h₁.5,
    h₂.6.trans h₁.6, h₂.7.trans h₁.7⟩

/-- The runtime after the id of a drift call has been drawn and mapped. -/
def drawDriftId (requestId : ℕ) (rt : TitanRuntime N D) : TitanRuntime N D :=
  { rt with
    driftCounter := u32Succ rt.driftCounter
    driftToRequest :=
      if requestId ≠ 0 then rt.driftToRequest.insert (u32Succ rt.driftCounter) requestId
      else rt.driftToRequest }

/-- The runtime after an operation has been put in flight. -/
def issueOp (req : AsyncOpRequest) (rt : TitanRuntime N D) : TitanRuntime N D :=
  { rt with asyncOps := rt.asyncOps ++ [req] }

/-- The three things a drift call can do: refuse its argument, return a stored result, or put its
operation in flight and suspend. -/
theorem nativeDriftCall_cases (hqueue : ∀ op, w.trySend op = true) (requestId call : ℕ)
    (arg : DriftArg) (rt : TitanRuntime N D) :
    (arg.asyncOp = none ∧ nativeDriftCall w requestId call arg rt =
      (rt, .error .badDriftArg)) ∨
    (∃ op opType, arg.asyncOp = some (op, opType) ∧
      ((∃ result, rt.completedDrifts (u32Succ rt.driftCounter) = some result ∧
          nativeDriftCall w requestId call arg rt = (drawDriftId requestId rt, .ok result)) ∨
        (rt.completedDrifts (u32Succ rt.driftCounter) = none ∧
          nativeDriftCall w requestId call arg rt =
            (issueOp ⟨op, u32Succ rt.driftCounter, requestId, opType, rt.pendingRequests requestId,
              call⟩ (drawDriftId requestId rt), .error .suspend)))) := by
  cases harg : arg.asyncOp with
  | none => exact .inl ⟨rfl, by simp only [nativeDriftCall, harg]⟩
  | some parsed =>
    obtain ⟨op, opType⟩ := parsed
    refine .inr ⟨op, opType, rfl, ?_⟩
    cases hdone : rt.completedDrifts (u32Succ rt.driftCounter) with
    | some result => exact .inl ⟨result, rfl, by simp only [nativeDriftCall, harg, hdone, drawDriftId]⟩
    | none =>
      exact .inr ⟨rfl, by
        simp only [nativeDriftCall, harg, hdone, drawDriftId, issueOp, hqueue, if_true]⟩

theorem sameBooks_drawDriftId (requestId : ℕ) (rt : TitanRuntime N D) :
    SameBooks rt (drawDriftId requestId rt) :=
  ⟨rfl, rfl, rfl, rfl, rfl, rfl, rfl⟩

/-- A drift call touches nothing but the counter, the mapping and the operations in flight. -/
theorem sameBooks_nativeDriftCall (requestId call : ℕ) (arg : DriftArg) (rt : TitanRuntime N D) :
    SameBooks rt (nativeDriftCall w requestId call arg rt).1 := by
  unfold nativeDriftCall
  cases arg.asyncOp with
  | none => exact .refl rt
  | some parsed =>
    dsimp only
    cases rt.completedDrifts (u32Succ rt.driftCounter) with
    | some result => exact ⟨rfl, rfl, rfl, rfl, rfl, rfl, rfl⟩
    | none =>
      dsimp only
      split
      · exact ⟨rfl, rfl, rfl, rfl, rfl, rfl, rfl⟩
      · exact ⟨rfl, rfl, rfl, rfl, rfl, rfl, rfl⟩

/-- So does the whole body of an action. -/
theorem sameBooks_runAction (requestId : ℕ) (action : Action N) :
    ∀ (call : ℕ) (rt : TitanRuntime N D), SameBooks rt (runAction w requestId call action rt).1 := by
  induction action with
  | done value => exact fun _ rt => .refl rt
  | throw err => exact fun _ rt => .refl rt
  | drift arg rest ih =>
    intro call rt
    exact (sameBooks_nativeDriftCall requestId call arg rt).trans (ih _ _ _)

end FrameworkBenchmarks.TitanPl
