import FrameworkBenchmarks.TitanPl.NoLoss
import FrameworkBenchmarks.TitanPl.SampleActions

/-!
# Every accepted request is answered once

The accounting of the channels and the ownership of operations in flight, carried over whole runs.
-/

namespace FrameworkBenchmarks.TitanPl

open Common

variable {N D : Type} {w : Worker N}

/-- The invariant of runs in which no request is forgotten. -/
structure Accounted (s : System N D) : Prop where
  channels : ChannelsOk s.accepted.length s.rt
  active : ∀ r, (s.rt.pendingRequests r).isSome → (s.rt.activeRequests r).isSome
  activeNonzero : s.rt.activeRequests 0 = none
  owned : ∀ r, (s.rt.pendingRequests r).isSome → Owned s.rt r

theorem accounted_init : Accounted (System.init : System N D) := by
  refine ⟨⟨?_, ?_, ?_, ?_, ?_⟩, ?_, rfl, ?_⟩ <;>
    simp [System.init, TitanRuntime.init]

/-- Resuming one operation takes nothing from the requests its id is not mapped to. -/
theorem Owned.eraseIdx {rt : TitanRuntime N D} {r i : ℕ} {op : AsyncOpRequest} (h : Owned rt r)
    (hop : rt.asyncOps[i]? = some op) (hne : rt.driftToRequest op.driftId ≠ some r) :
    Owned { rt with asyncOps := rt.asyncOps.eraseIdx i } r := by
  obtain ⟨op', hop', hmap⟩ := h
  refine ⟨op', ?_, hmap⟩
  obtain ⟨j, hj, hget⟩ := List.mem_iff_getElem.mp hop'
  refine List.mem_eraseIdx_iff_getElem?.mpr ⟨j, ?_, by rw [List.getElem?_eq_getElem hj, hget]⟩
  rintro rfl
  rw [List.getElem?_eq_getElem hj, hget, Option.some.injEq] at hop
  exact hne (hop ▸ hmap)

/-- Processing a new request keeps the invariant. -/
theorem Accounted.request (hqueue : ∀ op, w.trySend op = true) {s s' : System N D}
    {task : RequestData} (h : Accounted s) (hok : keepsRequests w s (.request task) = true)
    (hnext : s.next w (.request task) = some s') : Accounted s' := by
  simp only [keepsRequests, freshRequestId, System.execution, Bool.and_eq_true, bne_iff_ne,
    Option.isNone_iff_eq_none] at hok
  obtain ⟨⟨hnonzero, hfree⟩, hexec⟩ := hok
  obtain rfl := Option.some.inj hnext
  set r := u32Succ s.rt.requestCounter with hr
  set rt₀ := admitRequest s.accepted.length s.rt with hrt₀
  have hpending₀ : ∀ r', r' ≠ r → rt₀.pendingRequests r' = s.rt.pendingRequests r' := by
    intro r' hne
    simp [hrt₀, admitRequest, ← hr, hne]
  have hothers : OthersOwned rt₀ r :=
    fun r' hne hpending => h.owned r' (by rwa [← hpending₀ r' hne])
  have howned := owned_execute hqueue hnonzero task hothers
    (fun action hact => by simpa [hact] using hexec)
  have hactive : (executeActionOptimized w r task rt₀).activeRequests = s.rt.activeRequests :=
    (execute_books (w := w) r task rt₀).1
  have hchannels := (h.channels.admitted hfree).execute (w := w) r task
  have hlater : ∀ r', r' ≠ r →
      ((executeActionOptimized w r task rt₀).pendingRequests r').isSome →
        (s.rt.activeRequests r').isSome := by
    intro r' hne hpending
    have := pending_of_execute (w := w) r task rt₀ r' hpending
    exact h.active r' (by rwa [← hpending₀ r' hne])
  have hlength : (s.accepted ++ [(r, task)]).length = s.accepted.length + 1 := by simp
  simp only [handleNewRequest, ← hr, ← hrt₀]
  split
  · rename_i hdone
    refine ⟨?_, ?_, ?_, ?_⟩
    · rw [hlength]
      exact hchannels.congr rfl rfl
    · intro r' hpending
      by_cases hne : r' = r
      · rw [hne] at hpending
        exact absurd hpending (by simpa using hdone)
      · simpa [hactive] using hlater r' hne hpending
    · simpa [hactive] using h.activeNonzero
    · exact howned
  · refine ⟨?_, ?_, ?_, ?_⟩
    · rw [hlength]
      exact hchannels.congr rfl rfl
    · intro r' hpending
      by_cases hne : r' = r
      · simp [hne]
      · simpa [hne, hactive] using hlater r' hne hpending
    · simpa [Ne.symm hnonzero, hactive] using h.activeNonzero
    · exact howned

/-- Processing a resume keeps the invariant. -/
theorem Accounted.resume (hqueue : ∀ op, w.trySend op = true) {s s' : System N D} {i : ℕ}
    {result : Value N} {duration : D} (h : Accounted s)
    (hok : keepsRequests w s (.resume i result duration) = true)
    (hnext : s.next w (.resume i result duration) = some s') : Accounted s' := by
  obtain ⟨op, hop, rfl⟩ := Option.map_eq_some_iff.mp hnext
  set r := (s.rt.driftToRequest op.driftId).getD 0 with hr
  set rt₀ := recordDrift op.driftId r result duration
    { s.rt with asyncOps := s.rt.asyncOps.eraseIdx i } with hrt₀
  have hmapped : ∀ r', r' ≠ r → s.rt.driftToRequest op.driftId ≠ some r' := by
    intro r' hne hmap
    rw [hr, hmap] at hne
    exact hne rfl
  have hothers : OthersOwned rt₀ r := fun r' hne hpending =>
    (h.owned r' hpending).eraseIdx hop (hmapped r' hne)
  have hchannels : ChannelsOk s.accepted.length rt₀ := h.channels.congr rfl rfl
  simp only [handleResume, ← hr, ← hrt₀]
  cases hdata : s.rt.activeRequests r with
  | none =>
    have hactive : rt₀.activeRequests r = none := hdata
    obtain ⟨hpend, hsent, hops, hmap, -⟩ := forgetAnswered_books r rt₀
    simp only [hactive]
    have hnot : ¬ (s.rt.pendingRequests r).isSome := by
      intro hpending
      have := h.active r hpending
      simp [hdata] at this
    refine ⟨hchannels.congr hpend hsent, ?_, ?_, ?_⟩
    · intro r' hpending
      have hpending' : (s.rt.pendingRequests r').isSome := by rwa [hpend] at hpending
      have hne : r' ≠ r := fun heq => hnot (heq ▸ hpending')
      have : (forgetAnswered r rt₀).activeRequests r' = s.rt.activeRequests r' := by
        unfold forgetAnswered
        split
        · simp [hne, hrt₀, recordDrift]
        · rfl
      rw [this]
      exact h.active r' hpending'
    · unfold forgetAnswered
      split
      · rename_i hcond
        simpa [Ne.symm hcond.1, hrt₀, recordDrift] using h.activeNonzero
      · exact h.activeNonzero
    · intro r' hpending
      have hpending' : (s.rt.pendingRequests r').isSome := by rwa [hpend] at hpending
      have hne : r' ≠ r := fun heq => hnot (heq ▸ hpending')
      obtain ⟨op', hop', hmap'⟩ := hothers r' hne hpending'
      exact ⟨op', by rwa [hops], by rwa [hmap]⟩
  | some data =>
    have hactive : rt₀.activeRequests r = some data := hdata
    simp only [hactive]
    have hnonzero : r ≠ 0 := by
      intro hzero
      rw [hzero, h.activeNonzero] at hdata
      cases hdata
    have hexec : ∀ action, w.actions data.actionName = some action →
        driftIdsFree overwritesMapping w r 0 (action data) (rewindCounter r rt₀) = true ∧
          suspendsByText w r (action data) (rewindCounter r rt₀) = false := by
      intro action hact
      simpa [keepsRequests, freshRequestId, System.execution, hop, ← hr, hdata, hact, ← hrt₀]
        using hok
    set rt₁ := executeActionOptimized w r data (rewindCounter r rt₀) with hrt₁
    have howned := owned_execute hqueue hnonzero data
      (show OthersOwned (rewindCounter r rt₀) r from hothers) hexec
    have hbooks := execute_books (w := w) r data (rewindCounter r rt₀)
    have hsub := pending_of_execute (w := w) r data (rewindCounter r rt₀)
    rw [← hrt₁] at howned hbooks hsub
    obtain ⟨hpend, hsent, hops, hmap, -⟩ := forgetAnswered_books r rt₁
    have hrewound : ChannelsOk s.accepted.length (rewindCounter r rt₀) := hchannels.congr rfl rfl
    have hchannels₁ : ChannelsOk s.accepted.length rt₁ := hrewound.execute r data
    refine ⟨hchannels₁.congr hpend hsent, ?_, ?_, ?_⟩
    · intro r' hpending
      have hpending₁ : (rt₁.pendingRequests r').isSome := by rwa [hpend] at hpending
      have hold : (s.rt.activeRequests r').isSome := h.active r' (hsub r' hpending₁)
      unfold forgetAnswered
      split
      · rename_i hcond
        have hne : r' ≠ r := by
          rintro heq
          rw [heq] at hpending₁
          exact absurd hpending₁ (by simpa using hcond.2)
        simpa [hne, hbooks.1, rewindCounter, hrt₀, recordDrift] using hold
      · simpa [hbooks.1, rewindCounter, hrt₀, recordDrift] using hold
    · unfold forgetAnswered
      split
      · simpa [Ne.symm hnonzero, hbooks.1, rewindCounter, hrt₀, recordDrift] using h.activeNonzero
      · simpa [hbooks.1, rewindCounter, hrt₀, recordDrift] using h.activeNonzero
    · intro r' hpending
      obtain ⟨op', hop', hmap'⟩ := howned r' (by rwa [hpend] at hpending)
      exact ⟨op', by rwa [hops], by rwa [hmap]⟩

/-- In a run whose steps all meet the side condition the invariant holds throughout. -/
theorem accounted_of_run (hqueue : ∀ op, w.trySend op = true) {cmds : List (Command N D)}
    {s : System N D}
    (hrun : GuardedRun (System.next w) (fun s cmd => keepsRequests w s cmd = true) .init cmds s) :
    Accounted s := by
  refine hrun.invariant (fun s cmd s' h hok hnext => ?_) accounted_init
  cases cmd with
  | request task => exact h.request hqueue hok hnext
  | resume i result duration => exact h.resume hqueue hok hnext

/-- Once no operation is in flight, nothing is pending and every accepted request has been given
exactly one response. -/
theorem quiescent_allAnswered (w : Worker N) (hqueue : ∀ op, w.trySend op = true)
    (cmds : List (Command N D)) (s : System N D)
    (hrun : GuardedRun (System.next w) (fun s cmd => keepsRequests w s cmd = true) .init cmds s)
    (hidle : s.rt.asyncOps = []) :
    (∀ r, s.rt.pendingRequests r = none) ∧
      ∀ tx < s.accepted.length, (s.rt.sent.map Prod.fst).count tx = 1 := by
  have h := accounted_of_run hqueue hrun
  have hnone : ∀ r, s.rt.pendingRequests r = none := by
    intro r
    by_contra hpending
    obtain ⟨op, hop, -⟩ := h.owned r (Option.isSome_iff_ne_none.mpr hpending)
    rw [hidle] at hop
    cases hop
  exact ⟨hnone, fun tx hlt => h.channels.answered tx hlt fun r => by simp [hnone r]⟩

/-- The commands of a request that suspends once and is then answered. -/
def answeredCommands : List (Command ℕ Unit) :=
  [.request (sampleRequest "one"), .resume 0 (.number 7) ()]

/-- A request that suspends once is answered once. -/
theorem quiescent_allAnswered_sample :
    ∃ s : System ℕ Unit, sampleRun answeredCommands = some s ∧ s.accepted.length = 1 ∧
      (∀ r, s.rt.pendingRequests r = none) ∧
      ∀ tx < s.accepted.length, (s.rt.sent.map Prod.fst).count tx = 1 := by
  have hexec : (execGuarded (System.next sampleWorker) (keepsRequests sampleWorker) System.init
      answeredCommands).isSome = true := by decide
  obtain ⟨s, hs⟩ := Option.isSome_iff_exists.mp hexec
  have hs' : sampleRun answeredCommands = some s := hs
  have hidle : (sampleRun answeredCommands).map (fun s => s.rt.asyncOps.length) = some 0 := by decide
  have hlength : (sampleRun answeredCommands).map (fun s => s.accepted.length) = some 1 := by decide
  rw [hs'] at hidle hlength
  exact ⟨s, hs', Option.some.inj hlength,
    quiescent_allAnswered sampleWorker (fun _ => rfl) answeredCommands s
      (guardedRun_of_execGuarded hs) (List.eq_nil_of_length_eq_zero (Option.some.inj hidle))⟩

/-- A request whose action throws an error of its own that reads `SUSPEND` is never answered, and
neither is a request whose drift id was drawn again by a replay: both stay pending with nothing in
flight. -/
theorem quiescent_forgotten :
    (∃ s : System ℕ Unit,
      Run (System.next sampleWorker) .init [.request (sampleRequest "account")] s ∧
        s.rt.asyncOps = [] ∧ s.rt.pendingRequests 1 = some 0 ∧ s.rt.sent = []) ∧
    ∃ s : System ℕ Unit,
      Run (System.next sampleWorker) .init
        [.request (sampleRequest "two"), .request (sampleRequest "one"), .resume 0 (.number 10) (),
          .resume 0 (.number 20) (), .resume 0 (.number 11) ()] s ∧
        s.rt.asyncOps = [] ∧ s.rt.pendingRequests 2 = some 1 ∧ s.rt.sent.map Prod.fst = [0] :=
  ⟨⟨_, run_of_exec rfl, rfl, rfl, rfl⟩, ⟨_, run_of_exec rfl, rfl, rfl, rfl⟩⟩

end FrameworkBenchmarks.TitanPl
