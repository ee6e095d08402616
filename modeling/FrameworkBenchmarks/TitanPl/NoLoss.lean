import FrameworkBenchmarks.TitanPl.Responses

/-!
# Whether a suspended request is ever forgotten

A suspended request is woken by the mapping of an operation in flight. Two things leave it without
one: another request draws the id of that operation and takes over its mapping, or the request is
taken for suspended only because an error of its own contains the text `SUSPEND`. In runs where
neither happens (and the `u32` request counter never comes back to an id in use) every pending
request owns an operation in flight, so once nothing is in flight nothing is pending.
-/

namespace FrameworkBenchmarks.TitanPl

open Common

variable {N D : Type} {w : Worker N}

/-- The drift id under which an operation is in flight for another pending request. -/
def overwritesMapping (rt : TitanRuntime N D) (requestId _call driftId : ℕ) : Bool :=
  match rt.driftToRequest driftId with
  | none => false
  | some r =>
    r != requestId && (rt.pendingRequests r).isSome && rt.asyncOps.any (·.driftId == driftId)

/-- The execution is taken for suspended although none of its drift calls put an operation in
flight: the text of an error of its own was recognised. -/
def suspendsByText (w : Worker N) (requestId : ℕ) (action : Action N) (rt : TitanRuntime N D) :
    Bool :=
  let run := runAction w requestId 0 action rt
  match verdict run.2 with
  | .suspended => run.1.asyncOps.length == rt.asyncOps.length
  | _ => false

/-- A new request is given an id that is not zero and not pending. -/
def freshRequestId (s : System N D) : Command N D → Bool
  | .request _ =>
    u32Succ s.rt.requestCounter != 0 && (s.rt.pendingRequests (u32Succ s.rt.requestCounter)).isNone
  | .resume .. => true

/-- The side condition of a step under which no request is forgotten. -/
def keepsRequests (w : Worker N) (s : System N D) (cmd : Command N D) : Bool :=
  freshRequestId s cmd &&
    match s.execution cmd with
    | none => true
    | some (r, data, rt) =>
      match w.actions data.actionName with
      | none => true
      | some action =>
        driftIdsFree overwritesMapping w r 0 (action data) rt &&
          !suspendsByText w r (action data) rt

/-- An operation in flight is mapped to the request. -/
def Owned (rt : TitanRuntime N D) (r : ℕ) : Prop :=
  ∃ op ∈ rt.asyncOps, rt.driftToRequest op.driftId = some r

/-- Everybody who is pending, apart from the request being executed, owns an operation. -/
def OthersOwned (rt : TitanRuntime N D) (requestId : ℕ) : Prop :=
  ∀ r, r ≠ requestId → (rt.pendingRequests r).isSome → Owned rt r

/-- Drawing an id for one request keeps what its own operations are mapped to. -/
theorem Owned.drawDriftId {rt : TitanRuntime N D} {r : ℕ} (hr : r ≠ 0) (h : Owned rt r) :
    Owned (drawDriftId r rt) r := by
  obtain ⟨op, hop, hmap⟩ := h
  refine ⟨op, hop, ?_⟩
  simp only [TitanPl.drawDriftId, hr, ne_eq, not_false_eq_true, if_true, PartialMap.insert_apply]
  split
  · rfl
  · exact hmap

/-- One drift call keeps the operation of the request that makes it. -/
theorem Owned.nativeDriftCall (hqueue : ∀ op, w.trySend op = true) {rt : TitanRuntime N D} {r : ℕ}
    (hr : r ≠ 0) (h : Owned rt r) (call : ℕ) (arg : DriftArg) :
    Owned (nativeDriftCall w r call arg rt).1 r := by
  rcases nativeDriftCall_cases hqueue r call arg rt with
    ⟨_, hcall⟩ | ⟨op, opType, _, ⟨result, _, hcall⟩ | ⟨_, hcall⟩⟩
  · rw [hcall]
    exact h
  · rw [hcall]
    exact h.drawDriftId hr
  · rw [hcall]
    obtain ⟨op', hop', hmap'⟩ := h.drawDriftId hr
    exact ⟨op', List.mem_append_left _ hop', hmap'⟩

theorem Owned.runAction (hqueue : ∀ op, w.trySend op = true) {r : ℕ} (hr : r ≠ 0)
    (action : Action N) : ∀ (call : ℕ) (rt : TitanRuntime N D), Owned rt r →
      Owned (runAction w r call action rt).1 r := by
  induction action with
  | done value => exact fun _ _ h => h
  | throw err => exact fun _ _ h => h
  | drift arg rest ih => exact fun call rt h => ih _ _ _ (h.nativeDriftCall hqueue hr call arg)

/-- An execution either leaves the operations in flight alone or ends owning one. -/
theorem runAction_issues (hqueue : ∀ op, w.trySend op = true) {r : ℕ} (hr : r ≠ 0)
    (action : Action N) : ∀ (call : ℕ) (rt : TitanRuntime N D),
      (runAction w r call action rt).1.asyncOps = rt.asyncOps ∨
        Owned (runAction w r call action rt).1 r := by
  induction action with
  | done value => exact fun _ _ => .inl rfl
  | throw err => exact fun _ _ => .inl rfl
  | drift arg rest ih =>
    intro call rt
    rcases nativeDriftCall_cases hqueue r call arg rt with
      ⟨_, hcall⟩ | ⟨op, opType, _, ⟨result, _, hcall⟩ | ⟨_, hcall⟩⟩
    · simp only [TitanPl.runAction, hcall]
      exact ih _ _ rt
    · simp only [TitanPl.runAction, hcall]
      exact ih _ _ (drawDriftId r rt)
    · right
      refine Owned.runAction hqueue hr (rest _) _ (nativeDriftCall w r call arg rt).1 ?_
      rw [hcall]
      refine ⟨⟨op, u32Succ rt.driftCounter, r, opType, rt.pendingRequests r, call⟩,
        by simp [issueOp], ?_⟩
      simp [issueOp, drawDriftId, hr]

/-- A drift call whose id is not taken from somebody keeps what the others own. -/
theorem OthersOwned.nativeDriftCall (hqueue : ∀ op, w.trySend op = true) {rt : TitanRuntime N D}
    {r : ℕ} (h : OthersOwned rt r) (call : ℕ) (arg : DriftArg)
    (hfree : arg.asyncOp.isSome → overwritesMapping rt r call (u32Succ rt.driftCounter) = false) :
    OthersOwned (nativeDriftCall w r call arg rt).1 r := by
  have hdraw (hsome : arg.asyncOp.isSome) (r' : ℕ) (hne : r' ≠ r)
      (hpending : (rt.pendingRequests r').isSome) : ∃ op ∈ rt.asyncOps,
        (drawDriftId r rt).driftToRequest op.driftId = some r' := by
    obtain ⟨op, hop, hmap⟩ := h r' hne hpending
    refine ⟨op, hop, ?_⟩
    have hid : op.driftId ≠ u32Succ rt.driftCounter := by
      intro heq
      have hclash := hfree hsome
      rw [← heq] at hclash
      simp only [overwritesMapping, hmap, hpending, Bool.and_true, Bool.and_eq_false_iff,
        bne_eq_false_iff_eq, List.any_eq_false, beq_iff_eq] at hclash
      rcases hclash with hclash | hclash
      · exact hne hclash
      · exact hclash op hop rfl
    simp only [drawDriftId]
    split
    · rw [PartialMap.insert_of_ne _ _ hid, hmap]
    · exact hmap
  rcases nativeDriftCall_cases hqueue r call arg rt with
    ⟨_, hcall⟩ | ⟨op, opType, harg, ⟨result, _, hcall⟩ | ⟨_, hcall⟩⟩
  · rw [hcall]
    exact h
  · rw [hcall]
    exact fun r' hne hpending => hdraw (by simp [harg]) r' hne hpending
  · rw [hcall]
    intro r' hne hpending
    obtain ⟨op', hop', hmap'⟩ := hdraw (by simp [harg]) r' hne hpending
    exact ⟨op', List.mem_append_left _ hop', hmap'⟩

theorem OthersOwned.runAction (hqueue : ∀ op, w.trySend op = true) {r : ℕ} (action : Action N) :
    ∀ (call : ℕ) (rt : TitanRuntime N D), OthersOwned rt r →
      driftIdsFree overwritesMapping w r call action rt = true →
      OthersOwned (runAction w r call action rt).1 r := by
  induction action with
  | done value => exact fun _ _ h _ => h
  | throw err => exact fun _ _ h _ => h
  | drift arg rest ih =>
    intro call rt h hfree
    simp only [driftIdsFree, Bool.and_eq_true, Bool.not_eq_true', Bool.and_eq_false_imp] at hfree
    exact ih _ _ _ (h.nativeDriftCall hqueue call arg hfree.1) hfree.2

/-- After a response the request is not pending, and nobody else loses anything. -/
theorem owned_settle {rt : TitanRuntime N D} {r : ℕ} {v : Verdict N} (hothers : OthersOwned rt r)
    (hself : v = .suspended → (rt.pendingRequests r).isSome → Owned rt r) :
    ∀ r', ((settle r v rt).pendingRequests r').isSome → Owned (settle r v rt) r' := by
  have hrespond (rt₁ : TitanRuntime N D) (result : WorkerResult N D) (r' : ℕ)
      (hr' : ((rt₁.respond r result).pendingRequests r').isSome) :
      r' ≠ r ∧ (rt₁.pendingRequests r').isSome := by
    cases htx : rt₁.pendingRequests r with
    | none =>
      rw [respond_of_none htx] at hr'
      exact ⟨fun heq => by simp [heq, htx] at hr', hr'⟩
    | some tx =>
      rw [respond_of_some htx] at hr'
      by_cases heq : r' = r
      · simp [heq] at hr'
      · exact ⟨heq, by simpa [heq] using hr'⟩
  have hsame (rt₁ : TitanRuntime N D) (result : WorkerResult N D) (r' : ℕ) (h : Owned rt₁ r') :
      Owned (rt₁.respond r result) r' := by
    cases htx : rt₁.pendingRequests r with
    | none => rwa [respond_of_none htx]
    | some tx =>
      rw [respond_of_some htx]
      exact h
  cases v with
  | finish json =>
    intro r' hr'
    obtain ⟨hne, hpending⟩ := hrespond (clearDrifts r rt) _ r' hr'
    refine hsame (clearDrifts r rt) _ r' ?_
    obtain ⟨op, hop, hmap⟩ := hothers r' hne hpending
    exact ⟨op, hop, by simp [clearDrifts, hmap, hne]⟩
  | escape msg =>
    intro r' hr'
    obtain ⟨hne, hpending⟩ := hrespond rt _ r' hr'
    exact hsame rt _ r' (hothers r' hne hpending)
  | suspended =>
    intro r' hr'
    by_cases heq : r' = r
    · exact heq ▸ hself rfl (heq ▸ hr')
    · exact hothers r' heq hr'

/-- After an execution that meets the side condition, whoever is pending owns an operation. -/
theorem owned_execute (hqueue : ∀ op, w.trySend op = true) {rt : TitanRuntime N D} {r : ℕ}
    (hr : r ≠ 0) (data : RequestData) (hothers : OthersOwned rt r)
    (hok : ∀ action, w.actions data.actionName = some action →
      driftIdsFree overwritesMapping w r 0 (action data) rt = true ∧
        suspendsByText w r (action data) rt = false) :
    ∀ r', ((executeActionOptimized w r data rt).pendingRequests r').isSome →
      Owned (executeActionOptimized w r data rt) r' := by
  cases hact : w.actions data.actionName with
  | none =>
    rw [executeActionOptimized_missing hact]
    exact owned_settle (v := .escape ("Action '" ++ data.actionName ++ "' not found")) hothers
      (by simp)
  | some action =>
    obtain ⟨hfree, htext⟩ := hok action hact
    rw [executeActionOptimized_eq hact]
    refine owned_settle (hothers.runAction hqueue (action data) 0 rt hfree) fun hv _ => ?_
    rcases runAction_issues hqueue hr (action data) 0 rt with hops | howned
    · simp [suspendsByText, hv, hops] at htext
    · exact howned

end FrameworkBenchmarks.TitanPl
