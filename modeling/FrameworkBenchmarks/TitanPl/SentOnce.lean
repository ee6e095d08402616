import FrameworkBenchmarks.TitanPl.Responses
import FrameworkBenchmarks.TitanPl.SampleActions

/-!
# No request is answered twice

A response channel is taken out of the pending requests when it is answered, and a channel that a
new request displaces there is dropped. So whatever the actions do, and however the ids wrap around,
every channel gets at most one response.
-/

namespace FrameworkBenchmarks.TitanPl

open Common

variable {N D : Type} {w : Worker N} {n r : ℕ} {rt rt' : TitanRuntime N D}

/-- The first `n` channels were handed out; those that are pending are pending under one id each and
were not answered, and none was answered twice. -/
structure SentOnce (n : ℕ) (rt : TitanRuntime N D) : Prop where
  bound : ∀ r tx, rt.pendingRequests r = some tx → tx < n
  unique : ∀ r r' tx, rt.pendingRequests r = some tx → rt.pendingRequests r' = some tx → r = r'
  unsent : ∀ r tx, rt.pendingRequests r = some tx → tx ∉ rt.sent.map Prod.fst
  nodup : (rt.sent.map Prod.fst).Nodup
  old : ∀ tx ∈ rt.sent.map Prod.fst, tx < n

theorem SentOnce.congr (h : SentOnce n rt) (hpending : rt'.pendingRequests = rt.pendingRequests)
    (hsent : rt'.sent = rt.sent) : SentOnce n rt' := by
  constructor
  · rw [hpending]
    exact h.bound
  · rw [hpending]
    exact h.unique
  · rw [hpending, hsent]
    exact h.unsent
  · rw [hsent]
    exact h.nodup
  · rw [hsent]
    exact h.old

/-- Fewer pending channels. -/
theorem SentOnce.erase (h : SentOnce n rt) (r : ℕ) :
    SentOnce n { rt with pendingRequests := rt.pendingRequests.erase r } := by
  have hkeep : ∀ r' tx, rt.pendingRequests.erase r r' = some tx →
      rt.pendingRequests r' = some tx := by
    intro r' tx hr'
    by_cases heq : r' = r
    · simp [heq] at hr'
    · simpa [heq] using hr'
  constructor
  · exact fun r' tx hr' => h.bound r' tx (hkeep r' tx hr')
  · exact fun r₁ r₂ tx h₁ h₂ => h.unique r₁ r₂ tx (hkeep r₁ tx h₁) (hkeep r₂ tx h₂)
  · exact fun r' tx hr' => h.unsent r' tx (hkeep r' tx hr')
  · exact h.nodup
  · exact h.old

theorem SentOnce.respond (h : SentOnce n rt) (r : ℕ) (result : WorkerResult N D) :
    SentOnce n (rt.respond r result) := by
  cases htx : rt.pendingRequests r with
  | none =>
    rw [respond_of_none htx]
    exact h
  | some tx =>
    rw [respond_of_some htx]
    have herase := h.erase r
    constructor
    · exact herase.bound
    · exact herase.unique
    · intro r' tx' hr' hmem
      change rt.pendingRequests.erase r r' = some tx' at hr'
      rw [List.map_append, List.mem_append] at hmem
      cases hmem with
      | inl hold => exact herase.unsent r' tx' hr' hold
      | inr hnew =>
        obtain rfl : tx' = tx := List.mem_singleton.mp hnew
        have hne : r' ≠ r := by
          intro heq
          rw [heq, PartialMap.erase_self] at hr'
          cases hr'
        rw [PartialMap.erase_of_ne _ hne] at hr'
        exact hne (h.unique r' r tx' hr' htx)
    · rw [List.map_append, List.nodup_append]
      refine ⟨h.nodup, List.nodup_singleton tx, ?_⟩
      intro tx' hold tx'' hnew heq
      obtain rfl : tx'' = tx := List.mem_singleton.mp hnew
      exact h.unsent r tx'' htx (heq ▸ hold)
    · intro tx' hmem
      rw [List.map_append, List.mem_append] at hmem
      cases hmem with
      | inl hold => exact h.old tx' hold
      | inr hnew =>
        obtain rfl : tx' = tx := List.mem_singleton.mp hnew
        exact h.bound r tx' htx

theorem SentOnce.execute (h : SentOnce n rt) (r : ℕ) (data : RequestData) :
    SentOnce n (executeActionOptimized w r data rt) := by
  cases hact : w.actions data.actionName with
  | none =>
    rw [executeActionOptimized_missing hact]
    exact h.respond r _
  | some action =>
    rw [executeActionOptimized_eq hact]
    have hrun := sameBooks_runAction (w := w) r (action data) 0 rt
    have hran : SentOnce n (runAction w r 0 (action data) rt).1 :=
      h.congr hrun.pendingRequests hrun.sent
    cases verdict (runAction w r 0 (action data) rt).2 with
    | finish json =>
      have hcleared : SentOnce n (clearDrifts r (runAction w r 0 (action data) rt).1) :=
        hran.congr rfl rfl
      exact hcleared.respond r _
    | escape msg => exact hran.respond r _
    | suspended => exact hran

/-- A new request opens the next channel, whether or not its id is in use. -/
theorem SentOnce.admitted (h : SentOnce n rt) : SentOnce (n + 1) (admitRequest n rt) := by
  have hnew : ∀ r tx, (admitRequest n rt).pendingRequests r = some tx →
      r = u32Succ rt.requestCounter ∧ tx = n ∨ rt.pendingRequests r = some tx := by
    intro r tx hr
    by_cases heq : r = u32Succ rt.requestCounter
    · simp only [admitRequest, heq, PartialMap.insert_self, Option.some.injEq] at hr
      exact .inl ⟨heq, hr.symm⟩
    · exact .inr (by simpa [admitRequest, heq] using hr)
  constructor
  · intro r tx hr
    cases hnew r tx hr with
    | inl hlast => exact hlast.2 ▸ Nat.lt_succ_self n
    | inr hold => exact Nat.lt_succ_of_lt (h.bound r tx hold)
  · intro r r' tx hr hr'
    cases hnew r tx hr with
    | inl hlast =>
      cases hnew r' tx hr' with
      | inl hlast' => rw [hlast.1, hlast'.1]
      | inr hold' => exact absurd (h.bound r' tx hold') (by omega)
    | inr hold =>
      cases hnew r' tx hr' with
      | inl hlast' => exact absurd (h.bound r tx hold) (by omega)
      | inr hold' => exact h.unique r r' tx hold hold'
  · intro r tx hr hmem
    cases hnew r tx hr with
    | inl hlast => exact absurd (h.old tx hmem) (by omega)
    | inr hold => exact h.unsent r tx hold hmem
  · exact h.nodup
  · exact fun tx hmem => Nat.lt_succ_of_lt (h.old tx hmem)

theorem SentOnce.step {s s' : System N D} {cmd : Command N D}
    (h : SentOnce s.accepted.length s.rt) (hnext : s.next w cmd = some s') :
    SentOnce s'.accepted.length s'.rt := by
  cases cmd with
  | request task =>
    cases hnext
    have hexec := h.admitted.execute (w := w) (u32Succ s.rt.requestCounter) task
    rw [List.length_append]
    simp only [handleNewRequest]
    split
    · exact hexec.congr rfl rfl
    · exact hexec.congr rfl rfl
  | resume i result duration =>
    obtain ⟨op, _, rfl⟩ := Option.map_eq_some_iff.mp hnext
    simp only [handleResume]
    split
    · rename_i data _
      have hrecorded : SentOnce s.accepted.length
          (rewindCounter ((s.rt.driftToRequest op.driftId).getD 0)
            (recordDrift op.driftId ((s.rt.driftToRequest op.driftId).getD 0) result duration
              { s.rt with asyncOps := s.rt.asyncOps.eraseIdx i })) := h.congr rfl rfl
      have hforgot := forgetAnswered_books ((s.rt.driftToRequest op.driftId).getD 0)
        (executeActionOptimized w ((s.rt.driftToRequest op.driftId).getD 0) data
          (rewindCounter ((s.rt.driftToRequest op.driftId).getD 0)
            (recordDrift op.driftId ((s.rt.driftToRequest op.driftId).getD 0) result duration
              { s.rt with asyncOps := s.rt.asyncOps.eraseIdx i })))
      exact (hrecorded.execute _ data).congr hforgot.1 hforgot.2.1
    · have hforgot := forgetAnswered_books ((s.rt.driftToRequest op.driftId).getD 0)
        (recordDrift op.driftId ((s.rt.driftToRequest op.driftId).getD 0) result duration
          { s.rt with asyncOps := s.rt.asyncOps.eraseIdx i })
      exact h.congr hforgot.1 hforgot.2.1

/-! ### What is sent stays -/

theorem sent_respond (r : ℕ) (result : WorkerResult N D) (rt : TitanRuntime N D) :
    rt.sent <+: (rt.respond r result).sent := by
  cases htx : rt.pendingRequests r with
  | none => rw [respond_of_none htx]
  | some tx =>
    rw [respond_of_some htx]
    exact List.prefix_append _ _

theorem sent_execute (r : ℕ) (data : RequestData) (rt : TitanRuntime N D) :
    rt.sent <+: (executeActionOptimized w r data rt).sent := by
  cases hact : w.actions data.actionName with
  | none =>
    rw [executeActionOptimized_missing hact]
    exact sent_respond r _ rt
  | some action =>
    rw [executeActionOptimized_eq hact]
    rw [← (sameBooks_runAction (w := w) r (action data) 0 rt).sent]
    cases verdict (runAction w r 0 (action data) rt).2 with
    | finish json => exact sent_respond r _ (clearDrifts r (runAction w r 0 (action data) rt).1)
    | escape msg => exact sent_respond r _ _
    | suspended => exact List.prefix_rfl

theorem sent_next {s s' : System N D} {cmd : Command N D} (hnext : s.next w cmd = some s') :
    s.rt.sent <+: s'.rt.sent := by
  cases cmd with
  | request task =>
    cases hnext
    have hexec := sent_execute (w := w) (u32Succ s.rt.requestCounter) task
      (admitRequest s.accepted.length s.rt)
    simp only [handleNewRequest]
    split
    · exact hexec
    · exact hexec
  | resume i result duration =>
    obtain ⟨op, _, rfl⟩ := Option.map_eq_some_iff.mp hnext
    simp only [handleResume]
    split
    · rw [(forgetAnswered_books _ _).2.1]
      exact sent_execute _ _ (rewindCounter _ (recordDrift op.driftId _ result duration
        { s.rt with asyncOps := s.rt.asyncOps.eraseIdx i }))
    · rw [(forgetAnswered_books _ _).2.1]
      exact List.prefix_rfl

theorem sentOnce_of_run {s : System N D} {cmds : List (Command N D)}
    (hrun : Run (System.next w) .init cmds s) : SentOnce s.accepted.length s.rt := by
  have hinit : SentOnce (System.init : System N D).accepted.length (System.init : System N D).rt := by
    constructor
    · intro r tx hr
      cases hr
    · intro r r' tx hr _
      cases hr
    · intro r tx hr
      cases hr
    · exact List.nodup_nil
    · intro tx hmem
      cases hmem
  exact hrun.invariant (I := fun s => SentOnce s.accepted.length s.rt)
    (fun _ _ _ h _ hnext => h.step hnext) hinit

end FrameworkBenchmarks.TitanPl
