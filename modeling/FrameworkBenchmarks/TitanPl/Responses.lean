import FrameworkBenchmarks.TitanPl.Execution

/-!
# Response channels

Every accepted request has a channel of its own. As long as new requests get ids that are not in
use, a channel is either still pending under exactly one id and nothing was sent over it, or it is
not pending any more and exactly one response was sent.
-/

namespace FrameworkBenchmarks.TitanPl

open Common

variable {N D : Type} {w : Worker N}

/-- The accounting of the first `n` channels. -/
structure ChannelsOk (n : ℕ) (rt : TitanRuntime N D) : Prop where
  bound : ∀ r tx, rt.pendingRequests r = some tx → tx < n
  unique : ∀ r r' tx, rt.pendingRequests r = some tx → rt.pendingRequests r' = some tx → r = r'
  waiting : ∀ r tx, rt.pendingRequests r = some tx → (rt.sent.map Prod.fst).count tx = 0
  answered : ∀ tx < n, (∀ r, rt.pendingRequests r ≠ some tx) → (rt.sent.map Prod.fst).count tx = 1
  unused : ∀ tx, n ≤ tx → (rt.sent.map Prod.fst).count tx = 0

/-- The accounting only reads the pending requests and the responses. -/
theorem ChannelsOk.congr {n : ℕ} {rt rt' : TitanRuntime N D} (h : ChannelsOk n rt)
    (hpending : rt'.pendingRequests = rt.pendingRequests) (hsent : rt'.sent = rt.sent) :
    ChannelsOk n rt' := by
  constructor
  · rw [hpending]; exact h.bound
  · rw [hpending]; exact h.unique
  · rw [hpending, hsent]; exact h.waiting
  · rw [hpending, hsent]; exact h.answered
  · rw [hsent]; exact h.unused

theorem respond_of_none {rt : TitanRuntime N D} {r : ℕ} (h : rt.pendingRequests r = none)
    (result : WorkerResult N D) : rt.respond r result = rt := by
  simp only [TitanRuntime.respond, h]

theorem respond_of_some {rt : TitanRuntime N D} {r tx : ℕ} (h : rt.pendingRequests r = some tx)
    (result : WorkerResult N D) :
    rt.respond r result =
      { rt with
        pendingRequests := rt.pendingRequests.erase r
        sent := rt.sent ++ [(tx, result)] } := by
  simp only [TitanRuntime.respond, h]

/-- A response moves one channel from waiting to answered. -/
theorem ChannelsOk.respond {n : ℕ} {rt : TitanRuntime N D} (h : ChannelsOk n rt) (r : ℕ)
    (result : WorkerResult N D) : ChannelsOk n (rt.respond r result) := by
  cases htx : rt.pendingRequests r with
  | none =>
    rw [respond_of_none htx]
    exact h
  | some tx =>
    rw [respond_of_some htx]
    have hkeep : ∀ r' tx', rt.pendingRequests.erase r r' = some tx' →
        r' ≠ r ∧ rt.pendingRequests r' = some tx' := by
      intro r' tx' hr'
      by_cases heq : r' = r
      · simp [heq] at hr'
      · exact ⟨heq, by simpa [heq] using hr'⟩
    have hcount : ∀ tx', ((rt.sent ++ [(tx, result)]).map Prod.fst).count tx' =
        (rt.sent.map Prod.fst).count tx' + if tx = tx' then 1 else 0 := by
      intro tx'
      simp only [List.map_append, List.map_cons, List.map_nil, List.count_append,
        List.count_singleton, beq_iff_eq]
    constructor
    · exact fun r' tx' hr' => h.bound r' tx' (hkeep r' tx' hr').2
    · intro r₁ r₂ tx' h₁ h₂
      exact h.unique r₁ r₂ tx' (hkeep r₁ tx' h₁).2 (hkeep r₂ tx' h₂).2
    · intro r' tx' hr'
      obtain ⟨hne, hr'⟩ := hkeep r' tx' hr'
      have hother : tx ≠ tx' := fun heq => hne (h.unique r' r tx' hr' (heq ▸ htx))
      rw [hcount, if_neg hother, h.waiting r' tx' hr']
    · intro tx' hlt hnone
      rw [hcount]
      by_cases heq : tx = tx'
      · rw [if_pos heq, ← heq, h.waiting r tx htx]
      · have hnone' : ∀ r', rt.pendingRequests r' ≠ some tx' := by
          intro r' hr'
          by_cases hr : r' = r
          · rw [hr, htx] at hr'
            exact heq (Option.some.inj hr')
          · exact hnone r' (by simpa [hr] using hr')
        rw [if_neg heq, h.answered tx' hlt hnone']
    · intro tx' hle
      have hother : tx ≠ tx' := fun heq => absurd (h.bound r tx htx) (by omega)
      rw [hcount, if_neg hother, h.unused tx' hle]

/-- Answering, whichever way an execution ends, keeps the accounting. -/
theorem ChannelsOk.settle {n : ℕ} {rt : TitanRuntime N D} (h : ChannelsOk n rt) (r : ℕ)
    (v : Verdict N) : ChannelsOk n (settle r v rt) := by
  cases v with
  | finish json =>
    have hcleared : ChannelsOk n (clearDrifts r rt) := h.congr rfl rfl
    exact hcleared.respond r _
  | escape msg => exact h.respond r _
  | suspended => exact h

/-- An execution keeps the accounting. -/
theorem ChannelsOk.execute {n : ℕ} {rt : TitanRuntime N D}
    (h : ChannelsOk n rt) (r : ℕ) (data : RequestData) :
    ChannelsOk n (executeActionOptimized w r data rt) := by
  cases hact : w.actions data.actionName with
  | none =>
    rw [executeActionOptimized_missing hact]
    exact h.respond r _
  | some action =>
    rw [executeActionOptimized_eq hact]
    have hrun := sameBooks_runAction (w := w) r (action data) 0 rt
    exact (h.congr hrun.pendingRequests hrun.sent).settle r _

/-- Admitting a request under an unused id opens the next channel. -/
theorem ChannelsOk.admitted {n : ℕ} {rt : TitanRuntime N D} (h : ChannelsOk n rt)
    (hfree : rt.pendingRequests (u32Succ rt.requestCounter) = none) :
    ChannelsOk (n + 1) (admitRequest n rt) := by
  have hnew : ∀ r tx, (admitRequest n rt).pendingRequests r = some tx →
      (r = u32Succ rt.requestCounter ∧ tx = n) ∨ rt.pendingRequests r = some tx := by
    intro r tx hr
    by_cases heq : r = u32Succ rt.requestCounter
    · simp only [admitRequest, heq, PartialMap.insert_self, Option.some.injEq] at hr
      exact .inl ⟨heq, hr.symm⟩
    · exact .inr (by simpa [admitRequest, heq] using hr)
  have hsent : (admitRequest n rt).sent = rt.sent := rfl
  constructor
  · intro r tx hr
    rcases hnew r tx hr with ⟨_, rfl⟩ | hr
    · exact Nat.lt_succ_self _
    · exact Nat.lt_succ_of_lt (h.bound r tx hr)
  · intro r r' tx hr hr'
    rcases hnew r tx hr with ⟨hr, htx⟩ | hr
    · rcases hnew r' tx hr' with ⟨hr', _⟩ | hr'
      · rw [hr, hr']
      · exact absurd (h.bound r' tx hr') (by omega)
    · rcases hnew r' tx hr' with ⟨_, htx⟩ | hr'
      · exact absurd (h.bound r tx hr) (by omega)
      · exact h.unique r r' tx hr hr'
  · intro r tx hr
    rw [hsent]
    rcases hnew r tx hr with ⟨_, htx⟩ | hr
    · exact h.unused tx (by omega)
    · exact h.waiting r tx hr
  · intro tx hlt hnone
    rw [hsent]
    have hne : tx ≠ n := by
      rintro rfl
      exact hnone (u32Succ rt.requestCounter) (by simp [admitRequest])
    refine h.answered tx (by omega) fun r hr => ?_
    by_cases heq : r = u32Succ rt.requestCounter
    · rw [heq, hfree] at hr
      cases hr
    · exact hnone r (by simpa [admitRequest, heq] using hr)
  · intro tx hle
    rw [hsent]
    exact h.unused tx (by omega)

/-- What answering one request leaves alone. -/
theorem settle_books (r : ℕ) (v : Verdict N) (rt : TitanRuntime N D) :
    (settle r v rt).activeRequests = rt.activeRequests ∧
      (settle r v rt).requestStartCounters = rt.requestStartCounters ∧
      (settle r v rt).requestCounter = rt.requestCounter ∧
      (settle r v rt).asyncOps = rt.asyncOps := by
  have hrespond (rt₁ : TitanRuntime N D) (result : WorkerResult N D) :
      (rt₁.respond r result).activeRequests = rt₁.activeRequests ∧
        (rt₁.respond r result).requestStartCounters = rt₁.requestStartCounters ∧
        (rt₁.respond r result).requestCounter = rt₁.requestCounter ∧
        (rt₁.respond r result).asyncOps = rt₁.asyncOps := by
    cases htx : rt₁.pendingRequests r with
    | none => rw [respond_of_none htx]; exact ⟨rfl, rfl, rfl, rfl⟩
    | some tx => rw [respond_of_some htx]; exact ⟨rfl, rfl, rfl, rfl⟩
  cases v with
  | finish json => exact hrespond (clearDrifts r rt) _
  | escape msg => exact hrespond rt _
  | suspended => exact ⟨rfl, rfl, rfl, rfl⟩

/-- What an execution leaves alone. -/
theorem execute_books (r : ℕ) (data : RequestData)
    (rt : TitanRuntime N D) :
    (executeActionOptimized w r data rt).activeRequests = rt.activeRequests ∧
      (executeActionOptimized w r data rt).requestStartCounters = rt.requestStartCounters ∧
      (executeActionOptimized w r data rt).requestCounter = rt.requestCounter := by
  cases hact : w.actions data.actionName with
  | none =>
    rw [executeActionOptimized_missing hact]
    have h := settle_books (N := N) r (.escape ("Action '" ++ data.actionName ++ "' not found")) rt
    exact ⟨h.1, h.2.1, h.2.2.1⟩
  | some action =>
    rw [executeActionOptimized_eq hact]
    have hrun := sameBooks_runAction (w := w) r (action data) 0 rt
    have h := settle_books r (verdict (runAction w r 0 (action data) rt).2)
      (runAction w r 0 (action data) rt).1
    exact ⟨h.1.trans hrun.activeRequests, h.2.1.trans hrun.requestStartCounters,
      h.2.2.1.trans hrun.requestCounter⟩

/-- An execution makes nobody pending. -/
theorem pending_of_execute (r : ℕ) (data : RequestData)
    (rt : TitanRuntime N D) (r' : ℕ)
    (h : ((executeActionOptimized w r data rt).pendingRequests r').isSome) :
    (rt.pendingRequests r').isSome := by
  have hrespond (rt₁ : TitanRuntime N D) (result : WorkerResult N D)
      (h : ((rt₁.respond r result).pendingRequests r').isSome) :
      (rt₁.pendingRequests r').isSome := by
    cases htx : rt₁.pendingRequests r with
    | none => rwa [respond_of_none htx] at h
    | some tx =>
      rw [respond_of_some htx] at h
      by_cases heq : r' = r
      · simp [heq] at h
      · simpa [heq] using h
  cases hact : w.actions data.actionName with
  | none =>
    rw [executeActionOptimized_missing hact] at h
    exact hrespond rt _ h
  | some action =>
    rw [executeActionOptimized_eq hact] at h
    rw [← (sameBooks_runAction (w := w) r (action data) 0 rt).pendingRequests]
    cases hv : verdict (runAction w r 0 (action data) rt).2 with
    | finish json =>
      rw [hv] at h
      exact hrespond (clearDrifts r (runAction w r 0 (action data) rt).1) _ h
    | escape msg =>
      rw [hv] at h
      exact hrespond _ _ h
    | suspended =>
      rw [hv] at h
      exact h

/-- Forgetting the data of an answered request touches neither channels nor operations. -/
theorem forgetAnswered_books (r : ℕ) (rt : TitanRuntime N D) :
    (forgetAnswered r rt).pendingRequests = rt.pendingRequests ∧
      (forgetAnswered r rt).sent = rt.sent ∧ (forgetAnswered r rt).asyncOps = rt.asyncOps ∧
      (forgetAnswered r rt).driftToRequest = rt.driftToRequest ∧
      (forgetAnswered r rt).completedDrifts = rt.completedDrifts ∧
      (forgetAnswered r rt).requestTimings = rt.requestTimings ∧
      (forgetAnswered r rt).requestCounter = rt.requestCounter := by
  unfold forgetAnswered
  split <;> exact ⟨rfl, rfl, rfl, rfl, rfl, rfl, rfl⟩

end FrameworkBenchmarks.TitanPl
