import FrameworkBenchmarks.TitanPl.NoLossRuns
import FrameworkBenchmarks.TitanPl.Solo

/-!
# The entries of answered requests

`native_finish_request` clears the drift ids, stored results and timings of its request, and the
handlers the rest. An answer that goes out over the error branch clears nothing, and a result that
arrives when its drift id is no longer mapped is stored for nobody.
-/

namespace FrameworkBenchmarks.TitanPl

open Common

variable {N D : Type} {w : Worker N}

/-- An execution of the action draws a drift id. -/
def Action.draws : Action N → Bool
  | .done _ => false
  | .throw _ => false
  | .drift arg rest =>
    match arg.asyncOp with
    | some _ => true
    | none => (rest (.error .badDriftArg)).draws

/-- An exception escapes from the wrapper of the action after drift ids have been drawn or timings
recorded for its request. -/
def escapesWithEntries (w : Worker N) (requestId : ℕ) (action : Action N) (rt : TitanRuntime N D) :
    Bool :=
  match verdict (runAction w requestId 0 action rt).2 with
  | .escape _ => action.draws || (rt.requestTimings requestId).isSome
  | _ => false

/-- The operation that is resumed is still mapped to a request. -/
def resumesMapped (s : System N D) : Command N D → Bool
  | .request _ => true
  | .resume i _ _ => (s.rt.asyncOps[i]?).all fun op => (s.rt.driftToRequest op.driftId).isSome

/-- The side condition of a step under which all entries are reclaimed. -/
def reclaimsEntries (w : Worker N) (s : System N D) (cmd : Command N D) : Bool :=
  freshRequestId s cmd && resumesMapped s cmd &&
    match s.execution cmd with
    | none => true
    | some (r, data, rt) =>
      match w.actions data.actionName with
      | none => true
      | some action => !escapesWithEntries w r (action data) rt

/-- Nothing is kept about the drift calls of a request. -/
structure DriftsForgotten (rt : TitanRuntime N D) (r : ℕ) : Prop where
  mapping : ∀ id, rt.driftToRequest id ≠ some r
  timings : rt.requestTimings r = none

/-- Nothing is kept for a request. -/
structure Forgotten (rt : TitanRuntime N D) (r : ℕ) : Prop extends DriftsForgotten rt r where
  active : rt.activeRequests r = none
  startCounter : rt.requestStartCounters r = none

/-- The drift calls of one request only map ids to it. -/
structure Drawn (r : ℕ) (rt rt' : TitanRuntime N D) : Prop where
  mapped : ∀ id r', rt'.driftToRequest id = some r' → r' = r ∨ rt.driftToRequest id = some r'
  kept : ∀ id, (rt.driftToRequest id).isSome → (rt'.driftToRequest id).isSome

theorem Drawn.refl (r : ℕ) (rt : TitanRuntime N D) : Drawn r rt rt :=
  ⟨fun _ _ h => .inr h, fun _ h => h⟩

theorem Drawn.trans {r : ℕ} {rt₁ rt₂ rt₃ : TitanRuntime N D} (h₁ : Drawn r rt₁ rt₂)
    (h₂ : Drawn r rt₂ rt₃) : Drawn r rt₁ rt₃ where
  mapped := by
    intro id r' hmap
    rcases h₂.mapped id r' hmap with heq | hmap
    · exact .inl heq
    · exact h₁.mapped id r' hmap
  kept id h := h₂.kept id (h₁.kept id h)

theorem drawn_nativeDriftCall (r call : ℕ) (arg : DriftArg) (rt : TitanRuntime N D) :
    Drawn r rt (nativeDriftCall w r call arg rt).1 := by
  have hdraw : Drawn r rt (drawDriftId r rt) := by
    unfold drawDriftId
    constructor
    · intro id r' hmap
      dsimp only at hmap
      split at hmap
      · rw [PartialMap.insert_apply] at hmap
        split at hmap
        · exact .inl (Option.some.inj hmap).symm
        · exact .inr hmap
      · exact .inr hmap
    · intro id hsome
      dsimp only
      split
      · rw [PartialMap.insert_apply]
        split
        · rfl
        · exact hsome
      · exact hsome
  have hmap : (nativeDriftCall w r call arg rt).1.driftToRequest = rt.driftToRequest ∨
      (nativeDriftCall w r call arg rt).1.driftToRequest = (drawDriftId r rt).driftToRequest := by
    unfold nativeDriftCall
    cases arg.asyncOp with
    | none => exact .inl rfl
    | some parsed =>
      right
      dsimp only
      cases rt.completedDrifts (u32Succ rt.driftCounter) with
      | some result => rfl
      | none =>
        dsimp only
        split <;> rfl
  rcases hmap with hmap | hmap
  · exact ⟨fun id r' h => .inr (by rwa [hmap] at h), fun id h => by rwa [hmap]⟩
  · exact ⟨fun id r' h => hdraw.mapped id r' (by rwa [hmap] at h),
      fun id h => by rw [hmap]; exact hdraw.kept id h⟩

theorem drawn_runAction (r : ℕ) (action : Action N) :
    ∀ (call : ℕ) (rt : TitanRuntime N D), Drawn r rt (runAction w r call action rt).1 := by
  induction action with
  | done value => exact fun _ rt => .refl r rt
  | throw err => exact fun _ rt => .refl r rt
  | drift arg rest ih =>
    intro call rt
    exact (drawn_nativeDriftCall r call arg rt).trans (ih _ _ _)

/-- An action that draws no id leaves the runtime as it is. -/
theorem runAction_of_not_draws (r : ℕ) (action : Action N) (h : action.draws = false) (call : ℕ)
    (rt : TitanRuntime N D) : (runAction w r call action rt).1 = rt := by
  induction action with
  | done value => rfl
  | throw err => rfl
  | drift arg rest ih =>
    cases harg : arg.asyncOp with
    | some parsed => simp only [Action.draws, harg, Bool.true_eq_false] at h
    | none =>
      simp only [Action.draws, harg] at h
      simp only [runAction, nativeDriftCall, harg, Option.isSome_none, Bool.false_eq_true, if_false]
      exact ih _ h

/-- Stored results stay mapped while drift ids are drawn. -/
theorem ResultsMapped.runAction {rt : TitanRuntime N D} (h : ResultsMapped rt) (r : ℕ)
    (action : Action N) : ResultsMapped (runAction w r 0 action rt).1 := by
  intro id v hv
  rw [(sameBooks_runAction r action 0 rt).completedDrifts] at hv
  exact Option.isSome_iff_exists.1
    ((drawn_runAction r action 0 rt).kept id (Option.isSome_iff_exists.2 (h id v hv)))

/-- What is kept about drift calls belongs to pending requests. -/
structure DriftsReclaimed (rt : TitanRuntime N D) : Prop where
  results : ResultsMapped rt
  forgotten : ∀ r, rt.pendingRequests r = none → DriftsForgotten rt r

theorem DriftsForgotten.of_untouched {rt rt' : TitanRuntime N D} {r : ℕ}
    (h : DriftsForgotten rt r) (hsame : Untouched rt rt' r) : DriftsForgotten rt' r where
  mapping id hmap := h.mapping id ((hsame.mapping id).1 hmap)
  timings := hsame.timings.trans h.timings

/-- Answering over the channel touches nothing that is kept about drift calls. -/
theorem respond_drifts (rt : TitanRuntime N D) (r : ℕ) (result : WorkerResult N D) :
    (rt.respond r result).driftToRequest = rt.driftToRequest ∧
      (rt.respond r result).completedDrifts = rt.completedDrifts ∧
      (rt.respond r result).requestTimings = rt.requestTimings := by
  cases htx : rt.pendingRequests r with
  | none =>
    rw [respond_of_none htx]
    exact ⟨rfl, rfl, rfl⟩
  | some tx =>
    rw [respond_of_some htx]
    exact ⟨rfl, rfl, rfl⟩

/-- A finished request is forgotten. -/
theorem driftsForgotten_finish (rt : TitanRuntime N D) (r : ℕ) (json : Value N) :
    DriftsForgotten (settle r (.finish json) rt) r := by
  have hdrifts := respond_drifts (clearDrifts r rt) r
    { json, timings := (rt.requestTimings r).getD [] }
  constructor
  · intro id
    rw [settle, nativeFinishRequest, hdrifts.1]
    simp only [clearDrifts]
    split
    · intro h
      cases h
    · assumption
  · rw [settle, nativeFinishRequest, hdrifts.2.2]
    exact PartialMap.erase_self _ _

/-- Acting on the verdict keeps the entries with pending requests, if an escaping exception leaves
none of its own behind. -/
theorem DriftsReclaimed.settle {rt : TitanRuntime N D} {r : ℕ} (v : Verdict N)
    (hresults : ResultsMapped rt) (hpending : rt.pendingRequests r ≠ none)
    (hothers : ∀ r', r' ≠ r → rt.pendingRequests r' = none → DriftsForgotten rt r')
    (hescape : ∀ msg, v = .escape msg → DriftsForgotten rt r) :
    DriftsReclaimed (settle r v rt) := by
  refine ⟨resultsMapped_settle hresults r v, fun r' hr' => ?_⟩
  by_cases heq : r' = r
  · rw [heq] at hr' ⊢
    cases v with
    | finish json => exact driftsForgotten_finish rt r json
    | escape msg =>
      have hdrifts := respond_drifts rt r { json := .errorObject msg, timings := [] }
      have h := hescape msg rfl
      exact ⟨fun id => by rw [TitanPl.settle, hdrifts.1]; exact h.mapping id,
        by rw [TitanPl.settle, hdrifts.2.2]; exact h.timings⟩
    | suspended => exact absurd hr' hpending
  · have hsame : Untouched rt (TitanPl.settle r v rt) r' := untouched_settle heq v
    exact (hothers r' heq (hsame.pending ▸ hr')).of_untouched hsame

/-- An execution keeps the entries with pending requests. -/
theorem DriftsReclaimed.execute {rt : TitanRuntime N D} {r : ℕ} {data : RequestData}
    (hresults : ResultsMapped rt) (hpending : rt.pendingRequests r ≠ none)
    (hothers : ∀ r', r' ≠ r → rt.pendingRequests r' = none → DriftsForgotten rt r')
    (hfresh : rt.requestTimings r = none → DriftsForgotten rt r)
    (hmissing : w.actions data.actionName = none → DriftsForgotten rt r)
    (hguard : ∀ action, w.actions data.actionName = some action →
      escapesWithEntries w r (action data) rt = false) :
    DriftsReclaimed (executeActionOptimized w r data rt) := by
  cases hact : w.actions data.actionName with
  | none =>
    rw [executeActionOptimized_missing hact]
    exact DriftsReclaimed.settle (.escape _) hresults hpending hothers fun _ _ => hmissing hact
  | some action =>
    rw [executeActionOptimized_eq hact]
    have hbooks := sameBooks_runAction (w := w) r (action data) 0 rt
    have hdrawn := drawn_runAction (w := w) r (action data) 0 rt
    apply DriftsReclaimed.settle
    · exact hresults.runAction r (action data)
    · rwa [hbooks.pendingRequests]
    · intro r' hne hr'
      rw [hbooks.pendingRequests] at hr'
      have hforgotten := hothers r' hne hr'
      constructor
      · intro id hmap
        exact hforgotten.mapping id ((hdrawn.mapped id r' hmap).resolve_left hne)
      · rw [hbooks.requestTimings]
        exact hforgotten.timings
    · intro msg hmsg
      have hescapes := hguard action hact
      rw [escapesWithEntries, hmsg] at hescapes
      simp only [Bool.or_eq_false_iff, Option.isSome_eq_false_iff, Option.isNone_iff_eq_none]
        at hescapes
      rw [runAction_of_not_draws r (action data) hescapes.1]
      exact hfresh hescapes.2

/-- The invariant of runs in which all entries are reclaimed. -/
structure Reclaimed (w : Worker N) (s : System N D) : Prop where
  channels : ChannelsOk s.accepted.length s.rt
  results : ResultsMapped s.rt
  nonzero : s.rt.pendingRequests 0 = none
  forgotten : ∀ r, s.rt.pendingRequests r = none → Forgotten s.rt r
  registered : ∀ r data, s.rt.activeRequests r = some data → (w.actions data.actionName).isSome

theorem reclaimed_init : Reclaimed w (System.init : System N D) where
  channels := accounted_init.channels
  results := nofun
  nonzero := rfl
  forgotten _ _ := ⟨⟨nofun, rfl⟩, rfl, rfl⟩
  registered := nofun

/-- An execution answers nobody but its own request. -/
theorem pending_execute_of_ne (r : ℕ) (data : RequestData) (rt : TitanRuntime N D) {r' : ℕ}
    (hne : r' ≠ r) :
    (executeActionOptimized w r data rt).pendingRequests r' = rt.pendingRequests r' := by
  cases hact : w.actions data.actionName with
  | none =>
    rw [executeActionOptimized_missing hact]
    exact (untouched_respond hne _).pending
  | some action =>
    rw [executeActionOptimized_eq hact, (untouched_settle hne _).pending,
      (sameBooks_runAction r (action data) 0 rt).pendingRequests]

/-- A request for an action that is not registered is answered at once. -/
theorem pending_execute_missing {r tx : ℕ} {data : RequestData} {rt : TitanRuntime N D}
    (hact : w.actions data.actionName = none) (htx : rt.pendingRequests r = some tx) :
    (executeActionOptimized w r data rt).pendingRequests r = none := by
  rw [executeActionOptimized_missing hact, respond_of_some htx]
  exact PartialMap.erase_self _ _

/-- Processing a new request keeps the invariant. -/
theorem Reclaimed.request {s s' : System N D} {task : RequestData} (h : Reclaimed w s)
    (hok : reclaimsEntries w s (.request task) = true)
    (hnext : s.next w (.request task) = some s') : Reclaimed w s' := by
  simp only [reclaimsEntries, freshRequestId, System.execution, Bool.and_eq_true, bne_iff_ne,
    Option.isNone_iff_eq_none] at hok
  obtain ⟨⟨⟨hnonzero, hfree⟩, -⟩, hexec⟩ := hok
  obtain rfl := Option.some.inj hnext
  set r := u32Succ s.rt.requestCounter with hr
  set rt₀ := admitRequest s.accepted.length s.rt with hrt₀
  have hpending₀ : ∀ r', r' ≠ r → rt₀.pendingRequests r' = s.rt.pendingRequests r' := by
    intro r' hne
    simp [hrt₀, admitRequest, ← hr, hne]
  have htx : rt₀.pendingRequests r = some s.accepted.length := by
    simp [hrt₀, admitRequest, ← hr]
  have hold := h.forgotten r hfree
  have hfresh : DriftsForgotten rt₀ r := ⟨hold.mapping, hold.timings⟩
  set rt₁ := executeActionOptimized w r task rt₀ with hrt₁
  have hdrifts : DriftsReclaimed rt₁ := by
    apply DriftsReclaimed.execute
    · exact h.results
    · rw [htx]
      intro h
      cases h
    · intro r' hne hr'
      rw [hpending₀ r' hne] at hr'
      exact ⟨(h.forgotten r' hr').mapping, (h.forgotten r' hr').timings⟩
    · exact fun _ => hfresh
    · exact fun _ => hfresh
    · intro action hact
      simpa [hact] using hexec
  have hbooks := execute_books (w := w) r task rt₀
  have hchannels := (h.channels.admitted hfree).execute (w := w) r task
  have hothers : ∀ r', r' ≠ r → rt₁.pendingRequests r' = s.rt.pendingRequests r' := by
    intro r' hne
    rw [hrt₁, pending_execute_of_ne r task rt₀ hne, hpending₀ r' hne]
  have hstart : rt₁.requestStartCounters = s.rt.requestStartCounters.insert r s.rt.driftCounter :=
    hbooks.2.1
  have hactive : rt₁.activeRequests = s.rt.activeRequests := hbooks.1
  have hlength : (s.accepted ++ [(r, task)]).length = s.accepted.length + 1 := by simp
  simp only [handleNewRequest, ← hr, ← hrt₀, ← hrt₁]
  split
  · -- answered at once: only its start counter is left to be erased
    refine ⟨?_, hdrifts.results, ?_, ?_, ?_⟩
    · rw [hlength]
      exact hchannels.congr rfl rfl
    · exact (hothers 0 (Ne.symm hnonzero)).trans h.nonzero
    · intro r' hr'
      refine ⟨⟨(hdrifts.forgotten r' hr').mapping, (hdrifts.forgotten r' hr').timings⟩, ?_, ?_⟩
      · by_cases hne : r' = r
        · rw [hne, hactive]
          exact hold.active
        · rw [hactive]
          exact (h.forgotten r' ((hothers r' hne).symm.trans hr')).active
      · by_cases hne : r' = r
        · rw [hne]
          exact PartialMap.erase_self _ _
        · dsimp only
          rw [PartialMap.erase_of_ne _ hne, hstart, PartialMap.insert_of_ne _ _ hne]
          exact (h.forgotten r' ((hothers r' hne).symm.trans hr')).startCounter
    · rw [hactive]
      exact h.registered
  · -- suspended: its data is kept
    rename_i hsuspended
    have hpending : rt₁.pendingRequests r ≠ none := by
      simpa using hsuspended
    refine ⟨?_, hdrifts.results, ?_, ?_, ?_⟩
    · rw [hlength]
      exact hchannels.congr rfl rfl
    · exact (hothers 0 (Ne.symm hnonzero)).trans h.nonzero
    · intro r' hr'
      have hne : r' ≠ r := fun heq => hpending (heq ▸ hr')
      have hforgotten := h.forgotten r' ((hothers r' hne).symm.trans hr')
      refine ⟨⟨(hdrifts.forgotten r' hr').mapping, (hdrifts.forgotten r' hr').timings⟩, ?_, ?_⟩
      · dsimp only
        rw [PartialMap.insert_of_ne _ _ hne, hactive]
        exact hforgotten.active
      · dsimp only
        rw [hstart, PartialMap.insert_of_ne _ _ hne]
        exact hforgotten.startCounter
    · intro r' data hdata
      dsimp only at hdata
      rw [PartialMap.insert_apply] at hdata
      split at hdata
      · obtain rfl := Option.some.inj hdata
        rw [Option.isSome_iff_ne_none]
        exact fun hact => hpending (pending_execute_missing hact htx)
      · rw [hactive] at hdata
        exact h.registered r' data hdata

/-- Processing a resume keeps the invariant. -/
theorem Reclaimed.resume {s s' : System N D} {i : ℕ} {result : Value N} {duration : D}
    (h : Reclaimed w s) (hok : reclaimsEntries w s (.resume i result duration) = true)
    (hnext : s.next w (.resume i result duration) = some s') : Reclaimed w s' := by
  obtain ⟨op, hop, rfl⟩ := Option.map_eq_some_iff.mp hnext
  simp only [reclaimsEntries, freshRequestId, resumesMapped, System.execution, hop, Option.all_some,
    Option.bind_some, Bool.true_and, Bool.and_eq_true] at hok
  obtain ⟨hmapped, hexec⟩ := hok
  obtain ⟨r, hmap⟩ := Option.isSome_iff_exists.1 hmapped
  have hpending : s.rt.pendingRequests r ≠ none := fun hnone =>
    (h.forgotten r hnone).mapping op.driftId hmap
  obtain ⟨tx, htx⟩ := Option.ne_none_iff_exists'.1 hpending
  have hnonzero : r ≠ 0 := by
    rintro rfl
    exact hpending h.nonzero
  set rt₀ := recordDrift op.driftId r result duration
    { s.rt with asyncOps := s.rt.asyncOps.eraseIdx i } with hrt₀
  have hresults₀ : ResultsMapped rt₀ := by
    intro id v hv
    simp only [hrt₀, recordDrift, PartialMap.insert_apply] at hv
    split at hv
    · rename_i hid
      exact ⟨r, hid ▸ hmap⟩
    · exact h.results id v hv
  have hothers₀ : ∀ r', r' ≠ r → s.rt.pendingRequests r' = none → DriftsForgotten rt₀ r' := by
    intro r' hne hr'
    refine ⟨(h.forgotten r' hr').mapping, ?_⟩
    simp only [hrt₀, recordDrift, PartialMap.insert_of_ne _ _ hne]
    exact (h.forgotten r' hr').timings
  have htimings₀ : rt₀.requestTimings r ≠ none := by
    simp [hrt₀, recordDrift]
  simp only [handleResume, hmap, Option.getD_some, ← hrt₀]
  cases hdata : s.rt.activeRequests r with
  | none =>
    have hactive : rt₀.activeRequests r = none := hdata
    have hsame : forgetAnswered r rt₀ = rt₀ := by
      rw [forgetAnswered, if_neg]
      rintro ⟨-, hnone⟩
      exact hpending (Option.isNone_iff_eq_none.1 hnone)
    simp only [hactive, hsame]
    refine ⟨h.channels.congr rfl rfl, hresults₀, h.nonzero, fun r' hr' => ?_, h.registered⟩
    have hne : r' ≠ r := fun heq => hpending (heq ▸ hr')
    exact ⟨hothers₀ r' hne hr', (h.forgotten r' hr').active, (h.forgotten r' hr').startCounter⟩
  | some data =>
    have hactive : rt₀.activeRequests r = some data := hdata
    simp only [hactive]
    set rt₁ := executeActionOptimized w r data (rewindCounter r rt₀) with hrt₁
    have hdrifts : DriftsReclaimed rt₁ := by
      apply DriftsReclaimed.execute
      · exact hresults₀
      · exact hpending
      · intro r' hne hr'
        exact ⟨(hothers₀ r' hne hr').mapping, (hothers₀ r' hne hr').timings⟩
      · exact fun hnone => absurd hnone htimings₀
      · intro hact
        have := h.registered r data hdata
        rw [hact] at this
        cases this
      · intro action hact
        simpa [hmap, hdata, hact, ← hrt₀] using hexec
    have hbooks := execute_books (w := w) r data (rewindCounter r rt₀)
    rw [← hrt₁] at hbooks
    have hothers : ∀ r', r' ≠ r → rt₁.pendingRequests r' = s.rt.pendingRequests r' := fun r' hne =>
      pending_execute_of_ne r data (rewindCounter r rt₀) hne
    have hrewound : ChannelsOk s.accepted.length (rewindCounter r rt₀) := h.channels.congr rfl rfl
    obtain ⟨hpend, hsent, -, hmap', hcompleted, htimings, -⟩ := forgetAnswered_books r rt₁
    refine ⟨(hrewound.execute r data).congr hpend hsent, ?_, ?_, ?_, ?_⟩
    · intro id v hv
      rw [hcompleted] at hv
      rw [hmap']
      exact hdrifts.results id v hv
    · rw [hpend]
      exact (hothers 0 (Ne.symm hnonzero)).trans h.nonzero
    · intro r' hr'
      rw [hpend] at hr'
      have hforgotten := hdrifts.forgotten r' hr'
      refine ⟨⟨hmap' ▸ hforgotten.mapping, htimings ▸ hforgotten.timings⟩, ?_, ?_⟩
      · by_cases hne : r' = r
        · rw [hne] at hr' ⊢
          rw [forgetAnswered, if_pos ⟨hnonzero, by rw [hr']; rfl⟩]
          exact PartialMap.erase_self _ _
        · have hold := (h.forgotten r' ((hothers r' hne).symm.trans hr')).active
          unfold forgetAnswered
          split
          · dsimp only
            rw [PartialMap.erase_of_ne _ hne, hbooks.1]
            exact hold
          · rw [hbooks.1]
            exact hold
      · by_cases hne : r' = r
        · rw [hne] at hr' ⊢
          rw [forgetAnswered, if_pos ⟨hnonzero, by rw [hr']; rfl⟩]
          exact PartialMap.erase_self _ _
        · have hold := (h.forgotten r' ((hothers r' hne).symm.trans hr')).startCounter
          unfold forgetAnswered
          split
          · dsimp only
            rw [PartialMap.erase_of_ne _ hne, hbooks.2.1]
            exact hold
          · rw [hbooks.2.1]
            exact hold
    · intro r' data' hdata'
      unfold forgetAnswered at hdata'
      split at hdata'
      · dsimp only at hdata'
        rw [PartialMap.erase_apply] at hdata'
        split at hdata'
        · cases hdata'
        · rw [hbooks.1] at hdata'
          exact h.registered r' data' hdata'
      · rw [hbooks.1] at hdata'
        exact h.registered r' data' hdata'

/-- In a run whose steps all meet the side condition the invariant holds throughout. -/
theorem reclaimed_of_run {cmds : List (Command N D)} {s : System N D}
    (hrun : GuardedRun (System.next w) (fun s cmd => reclaimsEntries w s cmd = true) .init cmds s) :
    Reclaimed w s := by
  refine hrun.invariant (fun s cmd s' h hok hnext => ?_) reclaimed_init
  cases cmd with
  | request task => exact h.request hok hnext
  | resume i result duration => exact h.resume hok hnext

/-- All maps that are filled for a request are empty. -/
structure BooksEmpty (rt : TitanRuntime N D) : Prop where
  driftToRequest : rt.driftToRequest = .empty
  completedDrifts : rt.completedDrifts = .empty
  activeRequests : rt.activeRequests = .empty
  requestStartCounters : rt.requestStartCounters = .empty
  requestTimings : rt.requestTimings = .empty

/-- Every accepted request has been answered. -/
def AllAnswered (s : System N D) : Prop :=
  ∀ tx < s.accepted.length, tx ∈ s.rt.sent.map Prod.fst

/-- The only request has been answered. -/
theorem allAnswered_one {s : System N D} (haccepted : s.accepted.length = 1)
    (hsent : s.rt.sent.map Prod.fst = [0]) : AllAnswered s := by
  intro tx htx
  rw [haccepted] at htx
  rw [hsent, List.mem_singleton]
  omega

/-- Start reading a file, and answer without waiting for it. -/
def peekFile (path : String) : Action ℕ :=
  .drift (.single (some (.fsRead path))) fun
    | .ok value => .done value
    | .error _ => .done .null

/-- Read a file and throw `null`. -/
def throwNull (path : String) : Action ℕ :=
  .drift (.single (some (.fsRead path))) fun
    | .ok _ => .throw .null
    | .error err => .throw err

/-- The worker with the two actions. -/
def carelessWorker : Worker ℕ where
  actions name :=
    if name = "peek" then some fun _ => peekFile "a"
    else if name = "null" then some fun _ => throwNull "a"
    else none
  trySend _ := true

/-- The only request has been answered and nothing is in flight, but a result is still stored. -/
def leavesResult (s : System ℕ Unit) : Bool :=
  s.accepted.length == 1 && s.rt.sent.map Prod.fst == [0] && s.rt.asyncOps.isEmpty &&
    (s.rt.completedDrifts 1).isSome

theorem leaked_of_leavesResult {s : System ℕ Unit} (h : leavesResult s = true) :
    AllAnswered s ∧ s.rt.asyncOps = [] ∧ ¬ BooksEmpty s.rt := by
  simp only [leavesResult, Bool.and_eq_true, beq_iff_eq, List.isEmpty_iff] at h
  obtain ⟨⟨⟨haccepted, hsent⟩, hidle⟩, hresult⟩ := h
  refine ⟨allAnswered_one haccepted hsent, hidle, fun hempty => ?_⟩
  rw [hempty.completedDrifts] at hresult
  cases hresult

end FrameworkBenchmarks.TitanPl
