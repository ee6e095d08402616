import FrameworkBenchmarks.Common.GuardedRun
import FrameworkBenchmarks.H2o.ProcessQueries

/-!
# Steps of the pool

What one event does to a pool that is in order, and the event that has to be excluded: a write
callback of the connecting phase that fails on a connection that is established.
-/

namespace FrameworkBenchmarks.H2o

open Common Scripted Handler

/-- The pool between two events: in order, and one message in the thread's queue while the flag is
set. -/
structure PoolOk (s : DbConnPool) : Prop where
  ready : Ready s
  messages : s.localMessages = flagNum s.processQueries

variable {s s' : DbConnPool} {c : ℕ} {conn : DbConn}

/-- `on_database_connect_write_ready` was registered before the connection was established and is
delivered after that. -/
def staleWrite (s : DbConnPool) : Event → Bool
  | .writeReady c _ =>
    (s.conns c).any fun conn =>
      conn.established && conn.writeCb == some .onDatabaseConnectWriteReady
  | _ => false

/-- The socket reports an error, or `PQflush` does. -/
def writeFails : Event × List Reply → Bool
  | (.writeReady _ err, replies) => err.isSome || replies.head? == some (.flush .failed)
  | _ => false

/-- The step is not a stale callback that fails. -/
def noStaleFailure (s : DbConnPool) (label : Event × List Reply) : Bool :=
  !(staleWrite s label.1 && writeFails label)

/-- A handler that was called after something trivial keeps the pool in order. -/
theorem PoolOk.of_handled (h : PoolOk s) {s₁ : DbConnPool} (hcalm : Calm s s₁)
    (hhandled : Handled s₁ s') : PoolOk s' := by
  obtain ⟨hready, hcalm'⟩ := hhandled
  have hmessages := (hcalm.trans hcalm').messages
  rw [h.messages] at hmessages
  exact ⟨hready, by omega⟩

theorem poolOk_initial (config : Config) (preparedStatements : ℕ) :
    PoolOk (.initializeDatabaseConnectionPool config preparedStatements) := by
  have hcount : (PartialMap.empty : PartialMap ℕ DbConn).count 0 = 0 := rfl
  refine ⟨⟨⟨⟨[], fun _ => [], fun _ => .nowhere, represents_empty, rfl, fun c conn hconn => ?_,
    fun _ _ => rfl, List.nodup_nil, fun _ => List.nodup_nil, List.nodup_nil, by simp, by simp, by simp,
    fun _ => rfl⟩, ⟨fun _ _ => rfl, fun c conn hconn => ?_, ?_⟩, [], ?_⟩, ⟨fun _ _ hhead => ?_,
    fun _ hhead => ?_⟩⟩, rfl⟩
  · cases hconn
  · cases hconn
  · rw [DbConnPool.liveNum]
    exact Nat.zero_add _
  · refine ⟨rfl, rfl, List.nodup_nil, .inl rfl, by simp, by simp, by simp, ?_⟩
    rintro _ c _ ⟨conn, hconn, -⟩
    cases hconn
  · exact absurd rfl hhead
  · exact absurd rfl hhead

/-- Submitting a query from a request handler. -/
theorem wlp_submit (h : PoolOk s) (p : ℕ) :
    (handle (.submit p)).wlp (fun _ s' => PoolOk s') s := by
  refine wlp_step (wlp_executeDatabaseQuery p) ?_
  rintro _ s₁ ⟨hsub, hkeeps⟩
  obtain ⟨⟨hq, hc, done, hl⟩, hserved⟩ := h.ready
  refine (wlp_pure _).mpr (h.of_handled hsub.toCalm ⟨⟨⟨(hkeeps none [] hq).1,
    hc.congr hsub.config hsub.conns hsub.nextConn hsub.connNum, done, hsub.listed hl⟩,
    hserved.of_calm hsub.toCalm hsub.conn hsub.connNum⟩, .refl _⟩)

/-- The queued task. -/
theorem wlp_task (h : PoolOk s) : (handle .task).wlp (fun _ s' => PoolOk s') s := by
  simp only [handle, wlp_get_bind]
  split
  · exact wlp_stuck.mpr trivial
  · rename_i hqueued
    have hmessages := h.messages
    have hflag : s.processQueries = true := by
      by_contra hne
      rw [show s.processQueries = false by simpa using hne] at hmessages
      exact hqueued hmessages
    obtain ⟨hq, hc, done, hl⟩ := h.ready.working
    rw [wlp_modify_bind]
    refine wlp_mono (wlp_onProcessQueries ⟨hq.of_same rfl rfl rfl rfl rfl rfl,
      hc.congr rfl rfl rfl rfl, done, hl.congr rfl (fun _ _ => rfl) rfl fun _ _ _ => .rfl⟩ hflag) ?_
    rintro _ s₁ ⟨hready, -, hmessages₁⟩
    refine ⟨hready, ?_⟩
    rw [hflag, show flagNum true = 1 from rfl] at hmessages
    simp only [hmessages] at hmessages₁
    simpa using hmessages₁

/-- A socket that can be read. -/
theorem wlp_readReady (h : PoolOk s) (c : ℕ) (err : Option String) :
    (handle (.readReady c err)).wlp (fun _ s' => PoolOk s') s := by
  simp only [handle, wlp_getConn_bind]
  intro conn hconn
  have hphase := h.ready.working.conns.phases c conn hconn
  have hdone {x : Handler Unit} (hx : x.wlp (fun _ s' => Handled s s') s) :
      x.wlp (fun _ s' => PoolOk s') s :=
    wlp_mono hx fun _ _ => h.of_handled (.refl s)
  split
  · exact wlp_stuck.mpr trivial
  · split
    · exact wlp_stuck.mpr trivial
    · rename_i hread
      refine hdone (wlp_pollDatabaseConnection h.ready hconn (.inl hread) (fun hwrite => ?_) err)
      rw [hphase.pollAlone hwrite] at hread
      cases hread
    · rename_i hread
      exact hdone (wlp_onDatabaseConnectReadReady h.ready hconn hread err)
    · rename_i hread
      exact hdone (wlp_onDatabaseReadReady h.ready hconn (by simp [DbConn.established, hread]) err)

/-- A socket that can be written, apart from the stale callback. -/
theorem wlp_writeReady (h : PoolOk s) (err : Option String)
    (hfresh : staleWrite s (.writeReady c err) = false) :
    (handle (.writeReady c err)).wlp (fun _ s' => PoolOk s') s := by
  simp only [handle, wlp_getConn_bind]
  intro conn hconn
  have hphase := h.ready.working.conns.phases c conn hconn
  have hready : Ready { s with conns := s.conns.insert c { conn with writeCb := none } } :=
    h.ready.modifyConn hconn ⟨fun hpoll => (by cases hpoll), hphase.quota, hphase.timer⟩ rfl rfl rfl
  have hself := PartialMap.insert_self s.conns c { conn with writeCb := none }
  have hdone {x : Handler Unit} (hx : x.wlp (fun _ s' =>
      Handled { s with conns := s.conns.insert c { conn with writeCb := none } } s')
      { s with conns := s.conns.insert c { conn with writeCb := none } }) :
      x.wlp (fun _ s' => PoolOk s')
        { s with conns := s.conns.insert c { conn with writeCb := none } } :=
    wlp_mono hx fun _ _ => h.of_handled (calm_insertConn s c _)
  split
  · exact wlp_stuck.mpr trivial
  · simp only [wlp_modifyConn_bind]
    intro conn₁ hconn₁
    obtain rfl := Option.some.inj (hconn.symm.trans hconn₁)
    split
    · exact wlp_stuck.mpr trivial
    · rename_i hwrite
      exact hdone (wlp_pollDatabaseConnection hready hself (.inr (hphase.pollAlone hwrite)) (by simp) err)
    · rename_i hwrite
      have hest : conn.established = false := by
        simpa [staleWrite, hconn, hwrite] using hfresh
      exact hdone (wlp_onDatabaseConnectWriteReady hready hself hest err)
    · exact hdone (wlp_onDatabaseWriteReady hready hself err)

/-- A timer that has run out. -/
theorem wlp_timer (h : PoolOk s) (c : ℕ) :
    (handle (.timer c)).wlp (fun _ s' => PoolOk s') s := by
  simp only [handle, wlp_getConn_bind, wlp_modifyConn_bind]
  intro conn hconn conn₁ hconn₁
  obtain rfl := Option.some.inj (hconn.symm.trans hconn₁)
  have hphase := h.ready.working.conns.phases c conn hconn
  have hready : Ready { s with conns := s.conns.insert c { conn with timer := none } } :=
    h.ready.modifyConn hconn ⟨hphase.pollAlone, hphase.quota, fun _ => by simp⟩ rfl rfl rfl
  have hself := PartialMap.insert_self s.conns c { conn with timer := none }
  split
  · exact wlp_stuck.mpr trivial
  · rename_i htimer
    have hest : conn.established = false := by
      by_contra hne
      exact hphase.timer (by simpa using hne) htimer
    exact wlp_mono (wlp_onDatabaseConnectError hready hself hest true DB_TIMEOUT_ERROR) fun _ _ =>
      h.of_handled (calm_insertConn s c _)
  · exact wlp_mono (wlp_onDatabaseTimeout hready hself) fun _ _ => h.of_handled (calm_insertConn s c _)

/-- Every event but the stale callback. -/
theorem wlp_handle (h : PoolOk s) (event : Event) (hfresh : staleWrite s event = false) :
    (handle event).wlp (fun _ s' => PoolOk s') s := by
  cases event with
  | submit p => exact wlp_submit h p
  | task => exact wlp_task h
  | readReady c err => exact wlp_readReady h c err
  | writeReady c err => exact wlp_writeReady h err hfresh
  | timer c => exact wlp_timer h c

/-- The stale callback while it does not fail: it only flushes. -/
theorem exec_onDatabaseConnectWriteReady {replies : List Reply}
    (hflush : replies.head? ≠ some (.flush .failed)) :
    (onDatabaseConnectWriteReady c none).exec s replies =
      (do let _ ← flushConnection .onDatabaseConnectWriteReady c : Handler Unit).exec s replies := by
  cases replies with
  | nil => rfl
  | cons reply replies =>
    cases reply with
    | flush status =>
      cases status with
      | failed => exact absurd rfl hflush
      | done => rfl
      | pending =>
        simp only [onDatabaseConnectWriteReady, flushConnection, modifyConn, getConn, pqFlush, expect,
          bind_assoc, exec_ask_bind, exec_need_bind rfl, exec_get_bind]
        cases s.conns c with
        | none => rfl
        | some conn => rfl
    | _ => rfl

/-- The event handler gets there if the callback is registered. -/
theorem exec_handle_writeReady {replies : List Reply} (hconn : s.conns c = some conn)
    (hsock : conn.sockData = true) (hwrite : conn.writeCb = some .onDatabaseConnectWriteReady) :
    (handle (.writeReady c none)).exec s replies =
      (onDatabaseConnectWriteReady c none).exec
        { s with conns := s.conns.insert c { conn with writeCb := none } } replies := by
  simp only [handle, getConn, modifyConn, bind_assoc, exec_get_bind, exec_need_bind hconn, hsock, hwrite,
    Bool.not_true, Bool.false_eq_true, if_false, exec_modify_bind]

/-- A step is a complete execution of a handler. -/
theorem DbConnPool.exec_of_next {label : Event × List Reply} (hnext : s.next label = some s') :
    (handle label.1).exec s label.2 = some (((), s'), []) := by
  rw [DbConnPool.next] at hnext
  split at hnext
  · rename_i hexec
    rw [hexec, Option.some.inj hnext]
  · cases hnext

/-- The stale callback has no effect on the pool if it does not fail. -/
theorem PoolOk.step_stale (h : PoolOk s) {err : Option String} {replies : List Reply}
    (hstale : staleWrite s (.writeReady c err) = true)
    (hflushed : writeFails (.writeReady c err, replies) = false)
    (hnext : s.next (.writeReady c err, replies) = some s') : PoolOk s' := by
  obtain ⟨rfl, hflush⟩ : err = none ∧ replies.head? ≠ some (.flush .failed) := by
    simpa [writeFails] using hflushed
  have hexec := DbConnPool.exec_of_next hnext
  cases hconn : s.conns c with
  | none => simp [staleWrite, hconn] at hstale
  | some conn =>
    obtain ⟨hest, hwrite⟩ : conn.established = true ∧
        conn.writeCb = some .onDatabaseConnectWriteReady := by
      simpa [staleWrite, hconn] using hstale
    cases hsock : conn.sockData with
    | false =>
      simp [handle, getConn, exec_need_bind hconn, hsock] at hexec
    | true =>
      rw [exec_handle_writeReady hconn hsock hwrite, exec_onDatabaseConnectWriteReady hflush] at hexec
      have hphase := h.ready.working.conns.phases c conn hconn
      have hready : Ready { s with conns := s.conns.insert c { conn with writeCb := none } } :=
        h.ready.modifyConn hconn ⟨fun hpoll => (by cases hpoll), hphase.quota, hphase.timer⟩ rfl rfl rfl
      have hwlp := wlp_flushConnection hready (PartialMap.insert_self _ _ _)
        (show WriteCb.onDatabaseConnectWriteReady ≠ .pollDatabaseConnection by simp)
      apply wlp_of_exec (wlp_step (f := fun _ => pure ()) (R := fun _ s' => PoolOk s') hwlp ?_) hexec
      rintro _ s₁ ⟨hready₁, hcalm₁, _⟩
      exact (wlp_pure ()).mpr (h.of_handled (calm_insertConn s c _) ⟨hready₁, hcalm₁⟩)

/-- One event keeps the pool in order, unless the stale callback fails. -/
theorem PoolOk.step (h : PoolOk s) {label : Event × List Reply}
    (hguard : noStaleFailure s label = true) (hnext : s.next label = some s') :
    PoolOk s' := by
  obtain ⟨event, replies⟩ := label
  cases hstale : staleWrite s event with
  | false => exact wlp_of_exec (wlp_handle h event hstale) (DbConnPool.exec_of_next hnext)
  | true =>
    have hflushed : writeFails (event, replies) = false := by
      simpa [noStaleFailure, hstale] using hguard
    cases event with
    | writeReady c err => exact h.step_stale hstale hflushed hnext
    | submit | task | readReady | timer => cases hstale

end FrameworkBenchmarks.H2o
