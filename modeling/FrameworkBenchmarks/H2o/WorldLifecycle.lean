import FrameworkBenchmarks.Common.GuardedRun
import FrameworkBenchmarks.H2o.World

/-!
# The life of a context of several queries

A request waits for its sub-queries, is answered while some of them may still be outstanding, is
disposed, and its context is freed by whoever comes last.
-/

namespace FrameworkBenchmarks.H2o.World

open Common Scripted

variable {s s' : Request} {α : Type} {Q : α → Request → Prop}

section Rules

/-- Reading an allocated context has no effect. -/
theorem wlp_getCtx_bind (h : s.frees = 0) {f : MultipleQueryCtx → Handler α} :
    (getCtx >>= f).wlp Q s ↔ (f s.ctx).wlp Q s := by
  have hused : (s.usedAfterFree || s.frees != 0) = s.usedAfterFree := by simp [h]
  simp only [getCtx, bind_assoc, wlp_modify_bind, wlp_get_bind, pure_bind, hused]

/-- Writing to an allocated context has no other effect. -/
theorem wlp_modifyCtx_bind (h : s.frees = 0) {g : MultipleQueryCtx → MultipleQueryCtx}
    {f : Unit → Handler α} :
    (modifyCtx g >>= f).wlp Q s ↔ (f ()).wlp Q { s with ctx := g s.ctx } := by
  simp only [modifyCtx, wlp_modify_bind, h, bne_self_eq_false, Bool.or_false]

theorem wlp_modifyCtx (h : s.frees = 0) {g : MultipleQueryCtx → MultipleQueryCtx}
    {Q : Unit → Request → Prop} : (modifyCtx g).wlp Q s ↔ Q () { s with ctx := g s.ctx } := by
  simp only [modifyCtx, wlp_modify, h, bne_self_eq_false, Bool.or_false]

/-- A query is outstanding once it is accepted. -/
theorem wlp_executeDatabaseQuery_bind {p : ℕ} {f : Bool → Handler α} (hfull : (f true).wlp Q s)
    (haccepted : (f false).wlp Q { s with outstanding := p :: s.outstanding }) :
    (executeDatabaseQuery p >>= f).wlp Q s := by
  simp only [executeDatabaseQuery, bind_assoc]
  refine wlp_expect_bind fun accepted _ _ => ?_
  cases accepted with
  | true => simpa using haccepted
  | false => simpa using hfull

end Rules

/-- The context is allocated, its counter counts the outstanding sub-queries, and nothing has gone
wrong. -/
structure Allocated (s : Request) : Prop where
  frees : s.frees = 0
  freedEarly : s.freedEarly = false
  usedAfterFree : s.usedAfterFree = false
  sentLate : s.sentLate = false
  inProgress : s.ctx.numQueryInProgress = s.outstanding.length
  isCompleted : s.ctx.isCompleted = s.disposed

/-- The element of `query_param` has the callback. -/
def HasCallback (ctx : MultipleQueryCtx) (p : ℕ) (onResult : OnResult) : Prop :=
  ∃ q, ctx.queryParam[p]? = some q ∧ q.onResult = onResult

/-- All outstanding sub-queries ask for rows. -/
def Querying (s : Request) : Prop :=
  ∀ p ∈ s.outstanding, HasCallback s.ctx p .onMultipleQueryResult

/-- The only outstanding sub-query is the update. -/
def Updating (s : Request) : Prop :=
  s.outstanding = [0] ∧ HasCallback s.ctx 0 .onUpdateResult

/-- The request waits for its sub-queries. -/
structure Waiting (s : Request) : Prop extends Allocated s where
  doCleanup : s.ctx.doCleanup = false
  disposed : s.disposed = false
  responses : s.responses = []
  outstanding : s.outstanding ≠ []
  asked : (Querying s ∧ s.ctx.numResult + s.outstanding.length ≤ s.ctx.numQuery) ∨ Updating s

/-- The request has been answered; sub-queries may still be outstanding. -/
structure Answered (s : Request) : Prop extends Allocated s where
  doCleanup : s.ctx.doCleanup = true
  disposed : s.disposed = false
  responses : s.responses.length = 1
  asked : Querying s

/-- The request has been disposed before its last sub-query has come back. -/
structure Draining (s : Request) : Prop extends Allocated s where
  doCleanup : s.ctx.doCleanup = true
  disposed : s.disposed = true
  responses : s.responses.length ≤ 1
  outstanding : s.outstanding ≠ []
  asked : Querying s ∨ Updating s

/-- The context is gone. -/
structure Freed (s : Request) : Prop where
  frees : s.frees = 1
  freedEarly : s.freedEarly = false
  usedAfterFree : s.usedAfterFree = false
  sentLate : s.sentLate = false
  disposed : s.disposed = true
  responses : s.responses.length ≤ 1
  outstanding : s.outstanding = []

/-- A request between two events. -/
inductive RequestOk (s : Request) : Prop
  | waiting (h : Waiting s)
  | answered (h : Answered s)
  | draining (h : Draining s)
  | freed (h : Freed s)

section Answering

/-- The request is about to be answered. -/
structure Closing (s : Request) : Prop extends Allocated s where
  doCleanup : s.ctx.doCleanup = true
  disposed : s.disposed = false
  responses : s.responses = []
  asked : Querying s

/-- Sending the response. -/
theorem Closing.wlp_send (h : Closing s) (response : Response) :
    (send response).wlp (fun _ s' => RequestOk s') s := by
  simp only [send, wlp_modify]
  exact .answered ⟨⟨h.frees, h.freedEarly, h.usedAfterFree, by simp [h.sentLate, h.disposed],
    h.inProgress, h.isCompleted⟩, h.doCleanup, h.disposed, by simp [h.responses], h.asked⟩

/-- The generator does not matter. -/
theorem Closing.setGen (h : Closing s) (gen : Bool) :
    Closing { s with ctx := { s.ctx with gen := gen } } :=
  ⟨⟨h.frees, h.freedEarly, h.usedAfterFree, h.sentLate, h.inProgress, h.isCompleted⟩, h.doCleanup,
    h.disposed, h.responses, h.asked⟩

theorem Closing.wlp_respondWithItems (h : Closing s) :
    respondWithItems.wlp (fun _ s' => RequestOk s') s := by
  refine wlp_expect_bind fun found _ _ => ?_
  rw [wlp_modifyCtx_bind h.frees]
  have hclosing := h.setGen found
  split
  · rw [serializeItems, wlp_getCtx_bind hclosing.frees]
    refine wlp_expect_bind fun ok _ _ => ?_
    split
    · exact hclosing.wlp_send _
    · rw [wlp_modifyCtx_bind hclosing.frees]
      exact (hclosing.setGen false).wlp_send _
  · exact hclosing.wlp_send _

/-- All rows have come. -/
structure Complete (s : Request) : Prop extends Allocated s where
  doCleanup : s.ctx.doCleanup = false
  disposed : s.disposed = false
  responses : s.responses = []
  outstanding : s.outstanding = []

/-- Setting `DO_CLEANUP` when no sub-query is outstanding. -/
theorem Complete.closing (h : Complete s) {ctx : MultipleQueryCtx}
    (hinProgress : ctx.numQueryInProgress = s.ctx.numQueryInProgress)
    (hcompleted : ctx.isCompleted = s.ctx.isCompleted) (hcleanup : ctx.doCleanup = true) :
    Closing { s with ctx := ctx } :=
  ⟨⟨h.frees, h.freedEarly, h.usedAfterFree, h.sentLate, hinProgress.trans h.inProgress,
    hcompleted.trans h.isCompleted⟩, hcleanup, h.disposed, h.responses, fun p hp => by
      rw [show ({ s with ctx := ctx } : Request).outstanding = [] from h.outstanding] at hp
      cases hp⟩

/-- `do_updates` -/
theorem Complete.wlp_doUpdates (h : Complete s) (hparam : s.ctx.queryParam ≠ []) :
    doUpdates.wlp (fun _ s' => RequestOk s') s := by
  rw [doUpdates, wlp_getCtx_bind h.frees]
  dsimp only
  split
  · rw [wlp_modifyCtx_bind h.frees]
    refine Closing.wlp_send ?_ _
    exact h.closing rfl rfl rfl
  · refine wlp_expect_bind fun numbers _ _ => ?_
    rw [wlp_modifyCtx_bind h.frees]
    have hlength := List.length_pos_iff.mpr hparam
    refine wlp_executeDatabaseQuery_bind ?_ ?_
    · simp (disch := exact h.frees) only [if_true, wlp_modifyCtx_bind]
      refine Closing.wlp_send ?_ _
      exact h.closing rfl rfl rfl
    · simp (disch := exact h.frees) only [Bool.false_eq_true, if_false, wlp_modifyCtx]
      have hone : [0] = 0 :: s.outstanding := by rw [h.outstanding]
      refine .waiting ⟨⟨h.frees, h.freedEarly, h.usedAfterFree, h.sentLate, ?_, h.isCompleted⟩,
        h.doCleanup, h.disposed, h.responses, by simp, .inr ⟨hone.symm, ?_⟩⟩
      · simp [h.inProgress]
      · exact ⟨_, List.getElem?_set_self hlength, rfl⟩

/-- `complete_multiple_query` -/
theorem Complete.wlp_completeMultipleQuery (h : Complete s)
    (hparam : s.ctx.doUpdate = true → s.ctx.queryParam ≠ []) :
    completeMultipleQuery.wlp (fun _ s' => RequestOk s') s := by
  rw [completeMultipleQuery, wlp_getCtx_bind h.frees]
  split
  · rename_i hupdate
    exact h.wlp_doUpdates (hparam hupdate)
  · rw [wlp_modifyCtx_bind h.frees]
    refine Closing.wlp_respondWithItems ?_
    exact h.closing rfl rfl rfl

end Answering

section Draining

/-- The request has been answered or disposed, and a sub-query has just come back. -/
structure Settled (s : Request) : Prop extends Allocated s where
  doCleanup : s.ctx.doCleanup = true
  responses : s.responses.length ≤ 1
  answered : s.disposed = false → s.responses.length = 1
  asked : Querying s

/-- Freeing the context of a request that is disposed and has no sub-query outstanding. -/
theorem Allocated.wlp_cleanupMultipleQuery (h : Allocated s) (hdisposed : s.disposed = true)
    (houtstanding : s.outstanding = []) (hresponses : s.responses.length ≤ 1) :
    cleanupMultipleQuery.wlp (fun _ s' => RequestOk s') s := by
  rw [cleanupMultipleQuery, wlp_getCtx_bind h.frees, wlp_modify]
  exact .freed ⟨by simp [h.frees], by simp [h.freedEarly, hdisposed, houtstanding], h.usedAfterFree,
    h.sentLate, hdisposed, hresponses, houtstanding⟩

theorem Settled.wlp_cleanupIfLast (h : Settled s) :
    cleanupIfLast.wlp (fun _ s' => RequestOk s') s := by
  rw [cleanupIfLast, wlp_getCtx_bind h.frees]
  split
  · rename_i hlast
    refine h.toAllocated.wlp_cleanupMultipleQuery (h.isCompleted.symm.trans hlast.2) ?_ h.responses
    exact List.length_eq_zero_iff.mp (h.inProgress.symm.trans hlast.1)
  · rename_i hlast
    rw [wlp_pure]
    cases hdisposed : s.disposed with
    | false => exact .answered ⟨h.toAllocated, h.doCleanup, hdisposed, h.answered hdisposed, h.asked⟩
    | true =>
      refine .draining ⟨h.toAllocated, h.doCleanup, hdisposed, h.responses, fun hnil => hlast ?_,
        .inl h.asked⟩
      exact ⟨by rw [h.inProgress, hnil, List.length_nil], h.isCompleted.trans hdisposed⟩

end Draining

section Callbacks

variable {p : ℕ}

/-- A sub-query has come back and is no longer counted. -/
def Request.release (s : Request) (p : ℕ) : Request :=
  { s with
    outstanding := s.outstanding.erase p
    ctx := { s.ctx with numQueryInProgress := s.ctx.numQueryInProgress - 1 } }

theorem Allocated.release (h : Allocated s) (hp : p ∈ s.outstanding) : Allocated (s.release p) :=
  { h with
    inProgress := by
      simp only [Request.release, List.length_erase_of_mem hp, h.inProgress] }

/-- What is still outstanding are queries for rows. -/
theorem querying_release (h : Querying s ∨ Updating s) (hp : p ∈ s.outstanding) :
    Querying (s.release p) := by
  rcases h with h | ⟨hone, -⟩
  · exact fun q hq => h q (List.mem_of_mem_erase hq)
  · intro q hq
    rw [hone, List.mem_singleton] at hp
    simp [Request.release, hone, hp] at hq

/-- The two callbacks of a sub-query exclude each other. -/
theorem HasCallback.unique {ctx : MultipleQueryCtx} {r r' : OnResult} (h : HasCallback ctx p r)
    (h' : HasCallback ctx p r') : r = r' := by
  obtain ⟨q, hq, rfl⟩ := h
  obtain ⟨q', hq', rfl⟩ := h'
  rw [Option.some.inj (hq.symm.trans hq')]

/-- What is sent does not matter. -/
theorem HasCallback.modify {ctx ctx' : MultipleQueryCtx} {q : ℕ} {r : OnResult}
    {f : QueryParam → QueryParam} (h : HasCallback ctx p r)
    (hctx : ctx'.queryParam = ctx.queryParam.modify q f) (hf : ∀ x, (f x).onResult = x.onResult) :
    HasCallback ctx' p r := by
  obtain ⟨x, hx, rfl⟩ := h
  rw [HasCallback, hctx, List.getElem?_modify, hx]
  split
  · exact ⟨f x, rfl, hf x⟩
  · exact ⟨x, rfl, rfl⟩

theorem Answered.settled (h : Answered s) (hp : p ∈ s.outstanding) : Settled (s.release p) :=
  ⟨h.toAllocated.release hp, h.doCleanup, h.responses.le, fun _ => h.responses,
    querying_release (.inl h.asked) hp⟩

theorem Draining.settled (h : Draining s) (hp : p ∈ s.outstanding) : Settled (s.release p) :=
  ⟨h.toAllocated.release hp, h.doCleanup, h.responses,
    fun hno => absurd (h.disposed.symm.trans hno) (by simp), querying_release h.asked hp⟩

/-- A waiting request whose sub-query has come back is answered at once if that cannot go on. -/
theorem Waiting.closing (h : Waiting s) (hp : p ∈ s.outstanding) {ctx : MultipleQueryCtx}
    (hinProgress : ctx.numQueryInProgress = s.ctx.numQueryInProgress - 1)
    (hcompleted : ctx.isCompleted = s.ctx.isCompleted) (hcleanup : ctx.doCleanup = true)
    (hasked : ∀ q ∈ s.outstanding.erase p, HasCallback s.ctx q .onMultipleQueryResult →
      HasCallback ctx q .onMultipleQueryResult) :
    Closing { s with outstanding := s.outstanding.erase p, ctx := ctx } := by
  have hreleased := h.toAllocated.release hp
  have hquerying := querying_release (h.asked.imp_left And.left) hp
  exact ⟨⟨h.frees, h.freedEarly, h.usedAfterFree, h.sentLate, hinProgress.trans hreleased.inProgress,
    hcompleted.trans h.isCompleted⟩, hcleanup, h.disposed, h.responses,
    fun q hq => hasked q hq (hquerying q hq)⟩

/-- `on_multiple_query_error` and `on_multiple_query_timeout` -/
theorem wlp_onMultipleQueryFailure (h : RequestOk s) (hp : p ∈ s.outstanding) (status : ℕ)
    (body : String) :
    (onMultipleQueryFailure status body).wlp (fun _ s' => RequestOk s')
      { s with outstanding := s.outstanding.erase p } := by
  cases h with
  | waiting h =>
    simp (disch := exact h.frees) only [onMultipleQueryFailure, wlp_modifyCtx_bind, wlp_getCtx_bind]
    rw [if_neg (by simp [h.doCleanup])]
    simp (disch := exact h.frees) only [wlp_modifyCtx_bind]
    refine Closing.wlp_send ?_ _
    exact h.closing hp rfl rfl rfl fun _ _ => id
  | answered h =>
    simp (disch := exact h.frees) only [onMultipleQueryFailure, wlp_modifyCtx_bind, wlp_getCtx_bind]
    rw [if_pos h.doCleanup]
    exact (h.settled hp).wlp_cleanupIfLast
  | draining h =>
    simp (disch := exact h.frees) only [onMultipleQueryFailure, wlp_modifyCtx_bind, wlp_getCtx_bind]
    rw [if_pos h.doCleanup]
    exact (h.settled hp).wlp_cleanupIfLast
  | freed h =>
    rw [h.outstanding] at hp
    cases hp

/-- Both kinds of outstanding sub-queries. -/
theorem RequestOk.hasCallback (h : RequestOk s) (hp : p ∈ s.outstanding) :
    HasCallback s.ctx p .onMultipleQueryResult ∨ (s.outstanding = [0] ∧ HasCallback s.ctx p .onUpdateResult) := by
  have hupdating (hu : Updating s) : s.outstanding = [0] ∧ HasCallback s.ctx p .onUpdateResult := by
    obtain ⟨hone, hcallback⟩ := hu
    rw [hone, List.mem_singleton] at hp
    exact ⟨hone, hp ▸ hcallback⟩
  cases h with
  | waiting h => exact h.asked.imp (fun hq => hq.1 p hp) hupdating
  | answered h => exact .inl (h.asked p hp)
  | draining h => exact h.asked.imp (fun hq => hq p hp) hupdating
  | freed h =>
    rw [h.outstanding] at hp
    cases hp

/-- A row has come, and it was not the last one. -/
theorem Waiting.wlp_nextQuery (h : Waiting s) (hp : p ∈ s.outstanding)
    (hq : HasCallback s.ctx p .onMultipleQueryResult) (row : QueryResult) :
    (onMultipleQueryResult p (.tuplesOk row)).wlp (fun _ s' => RequestOk s')
      { s with outstanding := s.outstanding.erase p } := by
  obtain ⟨hquerying, hroom⟩ : Querying s ∧ s.ctx.numResult + s.outstanding.length ≤ s.ctx.numQuery := by
    refine h.asked.resolve_right fun ⟨hone, hcallback⟩ => ?_
    rw [hone, List.mem_singleton] at hp
    exact absurd (hq.unique (hp ▸ hcallback)) (by simp)
  have hlength := List.length_erase_of_mem hp
  have hpos := List.length_pos_of_mem hp
  have hinProgress := h.inProgress
  simp (disch := exact h.frees) only [onMultipleQueryResult, wlp_modifyCtx_bind, wlp_getCtx_bind]
  rw [if_neg (by simp [h.doCleanup])]
  simp (disch := exact h.frees) only [wlp_modifyCtx_bind, wlp_getCtx_bind]
  split
  · rename_i hmore
    simp (disch := exact h.frees) only [wlp_modifyCtx_bind]
    refine wlp_executeDatabaseQuery_bind ?_ ?_
    · simp (disch := exact h.frees) only [if_true, wlp_modifyCtx_bind]
      refine Closing.wlp_send ?_ _
      exact h.closing hp rfl rfl rfl fun q _ hcallback => hcallback.modify rfl fun _ => rfl
    · simp (disch := exact h.frees) only [Bool.false_eq_true, if_false, wlp_modifyCtx]
      refine .waiting ⟨⟨h.frees, h.freedEarly, h.usedAfterFree, h.sentLate, ?_, h.isCompleted⟩,
        h.doCleanup, h.disposed, h.responses, by simp, .inl ⟨fun q hmem => ?_, ?_⟩⟩
      · simp only [List.length_cons, hlength, hinProgress]
      · refine @HasCallback.modify _ s.ctx _ _ _ _ ?_ rfl fun _ => rfl
        rcases List.mem_cons.mp hmem with rfl | hmem
        · exact hq
        · exact hquerying q (List.mem_of_mem_erase hmem)
      · simp only [List.length_cons, hlength]
        omega
  · rename_i hlast
    split
    · rename_i hcomplete
      refine Complete.wlp_completeMultipleQuery ⟨⟨h.frees, h.freedEarly, h.usedAfterFree, h.sentLate,
        ?_, h.isCompleted⟩, h.doCleanup, h.disposed, h.responses, ?_⟩ fun _ hnil => ?_
      · simp only [hlength, hinProgress]
      · refine List.length_eq_zero_iff.mp ?_
        simp only [hlength]
        omega
      · obtain ⟨x, hx, -⟩ := hq
        rw [show s.ctx.queryParam = [] from hnil] at hx
        cases hx
    · rename_i hincomplete
      rw [wlp_pure]
      refine .waiting ⟨⟨h.frees, h.freedEarly, h.usedAfterFree, h.sentLate, ?_, h.isCompleted⟩,
        h.doCleanup, h.disposed, h.responses, fun hnil => ?_, .inl ⟨fun q hmem => ?_, ?_⟩⟩
      · simp only [hlength, hinProgress]
      · have hzero := List.length_eq_zero_iff.mpr hnil
        simp only [hlength] at hzero
        omega
      · exact hquerying q (List.mem_of_mem_erase hmem)
      · simp only [hlength]
        omega

/-- `on_multiple_query_result` -/
theorem wlp_onMultipleQueryResult (h : RequestOk s) (hp : p ∈ s.outstanding)
    (hq : HasCallback s.ctx p .onMultipleQueryResult) (result : QueryOutcome) :
    (onMultipleQueryResult p result).wlp (fun _ s' => RequestOk s')
      { s with outstanding := s.outstanding.erase p } := by
  cases h with
  | waiting h =>
    cases result with
    | tuplesOk row => exact h.wlp_nextQuery hp hq row
    | commandOk | failed =>
      simp (disch := exact h.frees) only [onMultipleQueryResult, wlp_modifyCtx_bind, wlp_getCtx_bind]
      rw [if_neg (by simp [h.doCleanup])]
      simp (disch := exact h.frees) only [wlp_modifyCtx_bind]
      refine Closing.wlp_send ?_ _
      exact h.closing hp rfl rfl rfl fun _ _ => id
  | answered h =>
    simp (disch := exact h.frees) only [onMultipleQueryResult, wlp_modifyCtx_bind, wlp_getCtx_bind]
    rw [if_pos h.doCleanup]
    exact (h.settled hp).wlp_cleanupIfLast
  | draining h =>
    simp (disch := exact h.frees) only [onMultipleQueryResult, wlp_modifyCtx_bind, wlp_getCtx_bind]
    rw [if_pos h.doCleanup]
    exact (h.settled hp).wlp_cleanupIfLast
  | freed h =>
    rw [h.outstanding] at hp
    cases hp

/-- `on_update_result`; the update is the only sub-query that is outstanding then. -/
theorem wlp_onUpdateResult (h : RequestOk s) (hone : s.outstanding = [0])
    (hq : HasCallback s.ctx 0 .onUpdateResult) (result : QueryOutcome) :
    (onUpdateResult result).wlp (fun _ s' => RequestOk s')
      { s with outstanding := s.outstanding.erase 0 } := by
  have hp : 0 ∈ s.outstanding := by simp [hone]
  cases h with
  | waiting h =>
    simp (disch := exact h.frees) only [onUpdateResult, wlp_modifyCtx_bind, wlp_getCtx_bind]
    rw [if_neg (by simp [h.doCleanup])]
    split
    · refine Closing.wlp_respondWithItems ?_
      exact h.closing hp rfl rfl rfl fun _ _ => id
    · refine Closing.wlp_send ?_ _
      exact h.closing hp rfl rfl rfl fun _ _ => id
  | answered h => exact absurd ((h.asked 0 hp).unique hq) (by simp)
  | draining h =>
    simp (disch := exact h.frees) only [onUpdateResult, wlp_modifyCtx_bind, wlp_getCtx_bind]
    rw [if_pos h.doCleanup]
    have hreleased := h.toAllocated.release hp
    refine Allocated.wlp_cleanupMultipleQuery ⟨h.frees, h.freedEarly, h.usedAfterFree, h.sentLate,
      hreleased.inProgress, h.isCompleted⟩ h.disposed ?_ h.responses
    simp [hone]
  | freed h =>
    rw [h.outstanding] at hone
    cases hone

/-- `cleanup_multiple_query_request` -/
theorem wlp_cleanupMultipleQueryRequest (h : RequestOk s) (hdisposed : s.disposed = false) :
    cleanupMultipleQueryRequest.wlp (fun _ s' => RequestOk s') { s with disposed := true } := by
  cases h with
  | waiting h =>
    simp (disch := exact h.frees) only [cleanupMultipleQueryRequest, wlp_modifyCtx_bind,
      wlp_getCtx_bind]
    rw [if_neg (by simp [h.doCleanup])]
    simp (disch := exact h.frees) only [wlp_modifyCtx]
    exact .draining ⟨⟨h.frees, h.freedEarly, h.usedAfterFree, h.sentLate, h.inProgress, rfl⟩, rfl, rfl,
      by simp [h.responses], h.outstanding, h.asked.imp_left And.left⟩
  | answered h =>
    simp (disch := exact h.frees) only [cleanupMultipleQueryRequest, wlp_modifyCtx_bind,
      wlp_getCtx_bind]
    rw [if_pos h.doCleanup]
    split
    · rename_i hzero
      refine Allocated.wlp_cleanupMultipleQuery ⟨h.frees, h.freedEarly, h.usedAfterFree, h.sentLate,
        h.inProgress, rfl⟩ rfl ?_ h.responses.le
      exact List.length_eq_zero_iff.mp (h.inProgress.symm.trans hzero)
    · rename_i hsome
      rw [wlp_pure]
      exact .draining ⟨⟨h.frees, h.freedEarly, h.usedAfterFree, h.sentLate, h.inProgress, rfl⟩,
        h.doCleanup, rfl, h.responses.le,
        fun hnil => hsome (h.inProgress.trans (List.length_eq_zero_iff.mpr hnil)), .inl h.asked⟩
  | draining h => exact absurd (h.disposed.symm.trans hdisposed) (by simp)
  | freed h => exact absurd (h.disposed.symm.trans hdisposed) (by simp)

/-- Every event of a request. -/
theorem wlp_handle (h : RequestOk s) (event : Event) :
    (handle event).wlp (fun _ s' => RequestOk s') s := by
  cases event with
  | error p errorString =>
    simp only [handle, takeOutstanding, bind_assoc, wlp_get_bind]
    split
    · rename_i hp
      exact wlp_onMultipleQueryFailure h hp BAD_GATEWAY errorString
    · simp
  | timeout p =>
    simp only [handle, takeOutstanding, bind_assoc, wlp_get_bind]
    split
    · rename_i hp
      exact wlp_onMultipleQueryFailure h hp GATEWAY_TIMEOUT DB_TIMEOUT_ERROR
    · simp
  | result p result =>
    simp only [handle, takeOutstanding, bind_assoc, wlp_get_bind]
    split
    · rename_i hp
      have hfrees : s.frees = 0 := by
        cases h with
        | waiting h => exact h.frees
        | answered h => exact h.frees
        | draining h => exact h.frees
        | freed h =>
          rw [h.outstanding] at hp
          cases hp
      simp (disch := exact hfrees) only [wlp_modify_bind, wlp_getCtx_bind]
      rcases h.hasCallback hp with hq | ⟨hone, hq⟩
      · obtain ⟨⟨command, paramValues, onResult⟩, hx, rfl⟩ := id hq
        simp only [hx]
        exact wlp_onMultipleQueryResult h hp hq result
      · obtain ⟨⟨command, paramValues, onResult⟩, hx, rfl⟩ := id hq
        obtain rfl : p = 0 := by simpa [hone] using hp
        simp only [hx]
        exact wlp_onUpdateResult h hone hq result
    · simp
  | dispose =>
    simp only [handle, wlp_get_bind]
    split
    · simp
    · rename_i hdisposed
      exact wlp_cleanupMultipleQueryRequest h (by simpa using hdisposed)

end Callbacks

section Start

/-- Queries up to an index have been submitted, and more are to follow. -/
structure Submitting (s : Request) (i n : ℕ) : Prop where
  frees : s.frees = 0
  freedEarly : s.freedEarly = false
  usedAfterFree : s.usedAfterFree = false
  sentLate : s.sentLate = false
  isCompleted : s.ctx.isCompleted = false
  doCleanup : s.ctx.doCleanup = false
  disposed : s.disposed = false
  responses : s.responses = []
  inProgress : s.ctx.numQueryInProgress = i + n
  submitted : s.outstanding.length = i
  bounded : ∀ p ∈ s.outstanding, p < i
  callbacks : ∀ p < i + n, HasCallback s.ctx p .onMultipleQueryResult
  room : s.ctx.numResult + (i + n) ≤ s.ctx.numQuery

/-- The loop of `do_multiple_queries`. -/
theorem Submitting.wlp_submitFrom {i n : ℕ} (h : Submitting s i n) (hpos : 0 < i + n) :
    (submitFrom i n).wlp (fun _ s' => RequestOk s') s := by
  induction n generalizing i s with
  | zero =>
    refine (wlp_pure _).mpr (.waiting ⟨⟨h.frees, h.freedEarly, h.usedAfterFree, h.sentLate,
      h.inProgress.trans h.submitted.symm, h.isCompleted.trans h.disposed.symm⟩, h.doCleanup, h.disposed,
      h.responses, fun hnil => ?_, .inl ⟨fun p hp => h.callbacks p (h.bounded p hp), ?_⟩⟩)
    · have hlength := h.submitted
      rw [hnil, List.length_nil] at hlength
      omega
    · rw [h.submitted]
      exact h.room
  | succ n ih =>
    rw [submitFrom]
    refine wlp_executeDatabaseQuery_bind ?_ ?_
    · simp (disch := exact h.frees) only [if_true, wlp_modifyCtx_bind]
      refine Closing.wlp_send ?_ _
      exact ⟨⟨h.frees, h.freedEarly, h.usedAfterFree, h.sentLate, h.submitted.symm,
        h.isCompleted.trans h.disposed.symm⟩, rfl, h.disposed, h.responses,
        fun p hp => h.callbacks p (Nat.lt_of_lt_of_le (h.bounded p hp) (Nat.le_add_right _ _))⟩
    · simp only [Bool.false_eq_true, if_false]
      have harith : i + 1 + n = i + (n + 1) := by omega
      refine ih ⟨h.frees, h.freedEarly, h.usedAfterFree, h.sentLate, h.isCompleted, h.doCleanup,
        h.disposed, h.responses, h.inProgress.trans harith.symm, by simp [h.submitted], fun p hp => ?_,
        harith ▸ h.callbacks, harith ▸ h.room⟩ (by omega)
      rcases List.mem_cons.mp hp with rfl | hp
      · exact Nat.lt_succ_self p
      · exact Nat.lt_succ_of_lt (h.bounded p hp)

/-- At least one query is asked for. -/
theorem getQueryNumber_pos (queries : Option ℤ) : 0 < getQueryNumber queries := by
  rw [getQueryNumber]
  split
  · exact Nat.one_pos
  · split
    · decide
    · omega

/-- At least one sub-query may be in progress, even if the product of the limits overflows. -/
theorem inFlightCap_pos (config : Config) {numQuery : ℕ} (h : 0 < numQuery) :
    0 < inFlightCap config numQuery := by
  have hconn := config.maxDbConnNum_pos
  rw [inFlightCap]
  split
  · exact h
  · omega

/-- A request that nothing has happened to. -/
structure Fresh (s : Request) : Prop where
  frees : s.frees = 0
  freedEarly : s.freedEarly = false
  usedAfterFree : s.usedAfterFree = false
  sentLate : s.sentLate = false
  isCompleted : s.ctx.isCompleted = false
  doCleanup : s.ctx.doCleanup = false
  disposed : s.disposed = false
  responses : s.responses = []
  outstanding : s.outstanding = []
  inProgress : s.ctx.numQueryInProgress = 0

/-- Without results, as many queries are submitted as the cap allows. -/
theorem Fresh.wlp_issueQueries (h : Fresh s) {cap : ℕ} (hcap : 0 < cap) (hnone : s.ctx.numResult = 0)
    (hnum : 0 < s.ctx.numQuery) : (issueQueries cap).wlp (fun _ s' => RequestOk s') s := by
  simp (disch := exact h.frees) only [issueQueries, wlp_modifyCtx_bind, wlp_getCtx_bind]
  have hsome : 0 < min cap (s.ctx.numQuery - s.ctx.numResult) := by omega
  refine Submitting.wlp_submitFrom ⟨h.frees, h.freedEarly, h.usedAfterFree, h.sentLate, h.isCompleted,
    h.doCleanup, h.disposed, h.responses, (Nat.zero_add _).symm, by simp [h.outstanding],
    by simp [h.outstanding], fun p hp => ?_, ?_⟩ (by omega)
  · rw [Nat.zero_add] at hp
    rw [HasCallback, List.getElem?_map, List.getElem?_range hp]
    exact ⟨_, rfl, rfl⟩
  · dsimp only
    omega

/-- `do_multiple_queries`; only requests that ignore the cache are for updates. -/
theorem wlp_doMultipleQueries (config : Config) {doUpdate useCache : Bool}
    (hcache : doUpdate = false ∨ useCache = false) (queries : Option ℤ) :
    (doMultipleQueries doUpdate useCache queries).wlp (fun _ s' => RequestOk s') (.init config) := by
  have hpos := getQueryNumber_pos queries
  have hcap := inFlightCap_pos config hpos
  simp only [doMultipleQueries, wlp_get_bind]
  refine wlp_expect_bind fun ids _ _ => ?_
  rw [wlp_modifyCtx_bind rfl]
  cases useCache with
  | false =>
    simp only [Bool.false_eq_true, if_false, false_and]
    rw [wlp_getCtx_bind rfl]
    exact Fresh.wlp_issueQueries ⟨rfl, rfl, rfl, rfl, rfl, rfl, rfl, rfl, rfl, rfl⟩ hcap rfl hpos
  | true =>
    simp only [if_true, true_and]
    refine wlp_expect_bind fun table _ _ => ?_
    cases table with
    | none =>
      rw [wlp_getCtx_bind rfl]
      split
      · rename_i hfull
        exact absurd hfull (Nat.ne_of_lt hpos)
      · exact Fresh.wlp_issueQueries ⟨rfl, rfl, rfl, rfl, rfl, rfl, rfl, rfl, rfl, rfl⟩ hcap rfl hpos
    | some table =>
      rw [wlp_modifyCtx_bind rfl, wlp_getCtx_bind rfl, if_pos rfl]
      refine Complete.wlp_completeMultipleQuery ⟨⟨rfl, rfl, rfl, rfl, rfl, rfl⟩, rfl, rfl, rfl, rfl⟩
        fun hupdate => ?_
      rw [hcache.resolve_right (by simp)] at hupdate
      cases hupdate

end Start

/-- What the claims of a request on its context and on its answer come to. -/
structure LifecycleOk (s : Request) : Prop where
  /-- freed once the request is disposed and its last sub-query has come back, and only once -/
  frees : s.frees = if s.disposed = true ∧ s.outstanding = [] then 1 else 0
  freedEarly : s.freedEarly = false
  usedAfterFree : s.usedAfterFree = false
  responses : s.responses.length ≤ 1
  /-- answered by the time its last sub-query has come back, unless it was disposed before -/
  answered : s.disposed = false → s.outstanding = [] → s.responses.length = 1
  sentLate : s.sentLate = false

theorem RequestOk.lifecycleOk (h : RequestOk s) : LifecycleOk s := by
  cases h with
  | waiting h =>
    exact ⟨by simp [h.frees, h.disposed], h.freedEarly, h.usedAfterFree, by simp [h.responses],
      fun _ hnil => absurd hnil h.outstanding, h.sentLate⟩
  | answered h =>
    exact ⟨by simp [h.frees, h.disposed], h.freedEarly, h.usedAfterFree, h.responses.le,
      fun _ _ => h.responses, h.sentLate⟩
  | draining h =>
    exact ⟨by simp [h.frees, h.outstanding], h.freedEarly, h.usedAfterFree, h.responses,
      fun _ hnil => absurd hnil h.outstanding, h.sentLate⟩
  | freed h =>
    exact ⟨by simp [h.frees, h.disposed, h.outstanding], h.freedEarly, h.usedAfterFree, h.responses,
      fun hno => absurd (h.disposed.symm.trans hno) (by simp), h.sentLate⟩

/-- Every handler leaves a request in order. -/
theorem requestOk_start {config : Config} {endpoint : Endpoint} {queries : Option ℤ}
    {answers : List Answer} (hstart : Request.start config endpoint queries answers = some s) :
    RequestOk s := by
  have hhandler : (endpoint.handler queries).wlp (fun _ s' => RequestOk s') (.init config) := by
    cases endpoint with
    | cachedWorlds => exact wlp_doMultipleQueries config (.inl rfl) queries
    | queries => exact wlp_doMultipleQueries config (.inl rfl) queries
    | updates => exact wlp_doMultipleQueries config (.inr rfl) queries
  rw [Request.start] at hstart
  split at hstart
  · rename_i hexec
    obtain rfl := Option.some.inj hstart
    exact wlp_of_exec hhandler hexec
  · cases hstart

/-- So does every event. -/
theorem RequestOk.step (h : RequestOk s) {label : Event × List Answer}
    (hnext : s.next label = some s') : RequestOk s' := by
  rw [Request.next] at hnext
  split at hnext
  · rename_i hexec
    obtain rfl := Option.some.inj hnext
    exact wlp_of_exec (wlp_handle h label.1) hexec
  · cases hnext

/-- Whatever order the results, errors, timeouts and the disposal come in, the context is freed
exactly once and by the last one who needs it, and the request is answered exactly once, unless it is
disposed first. -/
theorem context_lifecycle {config : Config} {endpoint : Endpoint} {queries : Option ℤ}
    {answers : List Answer} {s₀ : Request} {labels : List (Event × List Answer)}
    (hstart : Request.start config endpoint queries answers = some s₀)
    (hrun : Run Request.next s₀ labels s) : LifecycleOk s :=
  (hrun.invariant (fun _ _ _ hok _ hnext => hok.step hnext) (requestOk_start hstart)).lifecycleOk

theorem four_queries_pos : 0 < 4 := by decide

/-- Limits under which a request may have two sub-queries in flight. -/
def twoInFlight : Config where
  maxDbConnNum := 1
  maxPipelineQueryNum := 2
  maxQueryNum := 4
  maxDbConnNum_pos := Nat.one_pos
  maxPipelineQueryNum_pos := Nat.two_pos
  maxQueryNum_pos := four_queries_pos

/-- The client disconnects while the update is in flight, and its result frees the context. -/
theorem context_lifecycle_disconnect : ∃ s₀ s,
    Request.start twoInFlight .updates (some 2) [.ids [9, 4], .accepts true, .accepts true] = some s₀ ∧
    Run Request.next s₀
      [(.result 1 (.tuplesOk ⟨4, 70⟩), []),
        (.result 0 (.tuplesOk ⟨9, 80⟩), [.randomNumbers [5, 6], .accepts true]),
        (.dispose, []), (.result 0 .commandOk, [])] s ∧
    s.frees = 1 ∧ s.responses = [] ∧ LifecycleOk s := by
  obtain ⟨s₀, hstart⟩ : ∃ s₀, Request.start twoInFlight .updates (some 2)
      [.ids [9, 4], .accepts true, .accepts true] = some s₀ := ⟨_, rfl⟩
  obtain ⟨s, hrun, hfrees, hresponses⟩ : ∃ s, Run Request.next s₀
      [(.result 1 (.tuplesOk ⟨4, 70⟩), []),
        (.result 0 (.tuplesOk ⟨9, 80⟩), [.randomNumbers [5, 6], .accepts true]),
        (.dispose, []), (.result 0 .commandOk, [])] s ∧ s.frees = 1 ∧ s.responses = [] := by
    rw [← Option.some.inj hstart]
    exact exists_run_of_exec (by decide +kernel)
  exact ⟨s₀, s, hstart, hrun, hfrees, hresponses, context_lifecycle hstart hrun⟩

end FrameworkBenchmarks.H2o.World
