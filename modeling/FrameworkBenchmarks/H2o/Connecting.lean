import FrameworkBenchmarks.H2o.Failures

/-!
# Connections that are being established

The handlers of the connecting phase: polling, sending the prepared statements, and waiting for their
results. They run on connections that are not established yet, except for a write callback that was
registered in this phase and is delivered after it.
-/

namespace FrameworkBenchmarks.H2o

open Common Scripted Handler

/-- The pool between two event handlers. -/
structure Ready (s : DbConnPool) : Prop where
  working : Working s none [] []
  served : Served s

/-- What a handler does to a pool that is in order. -/
structure Handled (s s' : DbConnPool) : Prop where
  ready : Ready s'
  calm : Calm s s'

variable {s s' s'' : DbConnPool} {c : ℕ} {conn conn' : DbConn}

theorem Handled.of_calm (hcalm : Calm s s') (h : Handled s' s'') : Handled s s'' :=
  ⟨h.ready, hcalm.trans h.calm⟩

theorem Handled.of_failed (hserved : Served s) (h : Failed s s' [] []) : Handled s s' :=
  ⟨⟨h.working, hserved.of_failed h⟩, h.calm⟩

/-- A write to a connection that no list looks at. -/
theorem Ready.modifyConn (h : Ready s) (hconn : s.conns c = some conn)
    (hphase : PhaseOk s.config conn') (hqueries : conn'.queries = conn.queries)
    (hnum : conn'.queryNum = conn.queryNum) (hest : conn'.established = conn.established) :
    Ready { s with conns := s.conns.insert c conn' } :=
  ⟨h.working.insertConn hconn hphase hqueries hnum hest, ⟨h.served.busy, h.served.live⟩⟩

theorem calm_insertConn (s : DbConnPool) (c : ℕ) (conn : DbConn) :
    Calm s { s with conns := s.conns.insert c conn } :=
  .of_same rfl rfl rfl rfl fun _ => id

/-- `flush_connection` may register a write callback. -/
theorem wlp_flushConnection (h : Ready s) (hconn : s.conns c = some conn) {cb : WriteCb}
    (hcb : cb ≠ .pollDatabaseConnection) :
    (flushConnection cb c).wlp (fun _ s' => Ready s' ∧ Calm s s' ∧ ∃ writeCb,
      s'.conns c = some { conn with writeCb := writeCb } ∧
        (writeCb = some .pollDatabaseConnection → conn.writeCb = some .pollDatabaseConnection)) s := by
  refine wlp_mono (h.working.wlp_flushConnection hconn hcb) ?_
  rintro _ _ ⟨hw, writeCb, rfl, hpoll⟩
  exact ⟨⟨hw, ⟨h.served.busy, h.served.live⟩⟩, calm_insertConn _ _ _, writeCb,
    PartialMap.insert_self _ _ _, hpoll⟩

/-- A connection that is not established holds no query. -/
theorem Ready.takeConnecting (h : Ready s) (hconn : s.conns c = some conn)
    (hest : conn.established = false) :
    QueriesOk s (some c) [] ∧ ∃ done, Listed s (some c) [] done [] := by
  obtain ⟨hand, -, hq, -, hcount⟩ := h.working.places.detachFlight hconn
  have hquota := (h.working.conns.phases c conn hconn).quota hest
  obtain rfl : hand = [] := List.length_eq_zero_iff.mp (by omega)
  obtain ⟨done, hl⟩ := h.working.listed
  refine ⟨hq, done, hl.take (fun d hd => (nomatch hd)) (hl.not_mem_of_not_listable ?_) (by simp)⟩
  refine not_listable_of fun conn' hconn' => ?_
  obtain rfl : conn = conn' := Option.some.inj (hconn.symm.trans hconn')
  exact hest

/-- `on_database_connect_error`, on a connection that is not established. -/
theorem wlp_onDatabaseConnectError (h : Ready s) (hconn : s.conns c = some conn)
    (hest : conn.established = false) (timeout : Bool) (errorString : String) :
    (onDatabaseConnectError c timeout errorString).wlp (fun _ s' => Handled s s') s := by
  simp only [onDatabaseConnectError, wlp_getConn_bind]
  intro _ _
  obtain ⟨hq, done, hl⟩ := h.takeConnecting hconn hest
  refine wlp_mono (wlp_giveUp timeout errorString hq h.working.conns hl
    (Option.isSome_iff_exists.mpr ⟨conn, hconn⟩)) ?_
  exact fun _ s' hfailed => .of_failed h.served hfailed

/-- `on_database_connect_write_ready` -/
theorem wlp_onDatabaseConnectWriteReady (h : Ready s) (hconn : s.conns c = some conn)
    (hest : conn.established = false) (err : Option String) :
    (onDatabaseConnectWriteReady c err).wlp (fun _ s' => Handled s s') s := by
  cases err with
  | some err => exact wlp_onDatabaseConnectError h hconn hest false err
  | none =>
    refine wlp_step (wlp_flushConnection h hconn (by simp)) ?_
    rintro failed s₁ ⟨hready, hcalm, writeCb, hconn₁, -⟩
    split
    · exact wlp_mono (wlp_onDatabaseConnectError hready hconn₁ hest false DB_ERROR) fun _ _ h =>
        .of_calm hcalm h
    · exact (wlp_pure _).mpr ⟨hready, hcalm⟩

/-- `pool->conn` with a connection appended; its old end must be allocated. -/
theorem wlp_appendConn {spare done : List ℕ} {skip : Option ℕ} (hl : Listed s skip spare done [])
    (hskip : ∀ d, skip = some d → d = c) (hc : listable s true c) (hout : c ∉ done)
    (hspare : c ∉ spare) :
    (appendConn c).wlp (fun _ s' => (∃ conn connNext, s' = { s with conn := conn, connNext := connNext })
      ∧ ∃ done', Listed s' none spare done' []) s := by
  have happend := hl.append hskip hc hout hspare
  simp only [appendConn, wlp_get_bind]
  cases s.conn.tail with
  | none =>
    rw [wlp_modify]
    exact ⟨⟨_, _, rfl⟩, happend⟩
  | some t =>
    simp only [wlp_getConn_bind, wlp_modify]
    exact fun _ _ => ⟨⟨_, _, rfl⟩, happend⟩

/-- Looking at the wait list leaves it served. -/
theorem Working.wlp_processQueries (h : Working s none [] []) :
    processQueries.wlp (fun _ s' => Ready s' ∧ Calm s s') s := by
  refine wlp_mono H2o.wlp_processQueries ?_
  rintro _ s' ⟨hsub, hqueued, hqueries, hqueryNum, hnext, htrace⟩
  obtain ⟨hq, hc, done, hl⟩ := h
  have hkeeps := KeepsPlaces.of_same hqueries hqueryNum hsub.config hnext htrace hsub.conns
  refine ⟨⟨⟨(hkeeps none [] hq).1, hc.congr hsub.config hsub.conns hsub.nextConn hsub.connNum, done,
    hsub.listed hl⟩, ⟨fun _ hflag hhead => ?_, fun hflag hhead => ?_⟩⟩, hsub.toCalm⟩
  · exact absurd (hqueued hflag) hhead
  · exact absurd (hqueued hflag) hhead

/-- A connection that has just been established joins the list, and the wait list is looked at. -/
theorem wlp_establish (h : Ready s) (hconn : s.conns c = some conn) (hest : conn.established = false)
    (hphase : PhaseOk s.config conn') (hqueries : conn'.queries = conn.queries)
    (hnum : conn'.queryNum = conn.queryNum) (hest' : conn'.established = true) :
    (joinPool c).wlp (fun _ s' => Ready s' ∧ Calm s s')
      { s with conns := s.conns.insert c conn' } := by
  obtain ⟨-, done, hl⟩ := h.takeConnecting hconn hest
  have hquota := (h.working.conns.phases c conn hconn).quota hest
  have hpos := s.config.maxPipelineQueryNum_pos
  have hl₁ : Listed { s with conns := s.conns.insert c conn' } (some c) [] done [] :=
    hl.congr rfl (fun _ _ => rfl) rfl fun d quota hd =>
      listable_congr (PartialMap.insert_of_ne _ _ fun heq => hd (by rw [heq]))
  have hlistable : listable { s with conns := s.conns.insert c conn' } true c :=
    ⟨conn', PartialMap.insert_self _ _ _, hest', by simp; omega⟩
  refine wlp_step (wlp_appendConn hl₁ (fun d hd => (Option.some.inj hd).symm) hlistable
    (by simpa using (hl.skipped c rfl).1) (by simp)) ?_
  rintro _ s₂ ⟨⟨conn₂, connNext₂, rfl⟩, done₂, hl₂⟩
  have hlive : (s.conns c).isSome := Option.isSome_iff_exists.mpr ⟨conn, hconn⟩
  refine wlp_mono (Working.wlp_processQueries ⟨?_, ?_, done₂, hl₂⟩) ?_
  · exact (h.working.places.insertConn hconn hqueries hnum).of_same rfl rfl rfl rfl rfl rfl
  · exact h.working.conns.insert hlive hphase rfl rfl rfl rfl
  · rintro _ s₃ ⟨hready, hcalm⟩
    exact ⟨hready, hcalm.config, hcalm.flag, hcalm.messages, hcalm.waiting, hcalm.defects⟩

/-- `on_database_connect_read_ready` -/
theorem wlp_onDatabaseConnectReadReady (h : Ready s) (hconn : s.conns c = some conn)
    (hread : conn.readCb = some .onDatabaseConnectReadReady) (err : Option String) :
    (onDatabaseConnectReadReady c err).wlp (fun _ s' => Handled s s') s := by
  have hest : conn.established = false := by simp [DbConn.established, hread]
  simp only [onDatabaseConnectReadReady]
  split
  · exact wlp_onDatabaseConnectError h hconn hest false DB_ERROR
  · refine wlp_call_bind fun ok => ?_
    split
    · exact wlp_onDatabaseConnectError h hconn hest false DB_ERROR
    · refine wlp_step (wlp_flushConnection h hconn (by simp)) ?_
      rintro failed s₁ ⟨hready, hcalm, writeCb, hconn₁, -⟩
      split
      · exact wlp_mono (wlp_onDatabaseConnectError hready hconn₁ hest false DB_ERROR) fun _ _ h =>
          .of_calm hcalm h
      · refine wlp_loop (fun _ s' => s' = s₁) ?_ rfl
        rintro _ _ rfl
        refine wlp_pqIsBusy_bind fun busy => ?_
        split
        · exact (wlp_pure _).mpr (⟨hready, hcalm⟩)
        · refine wlp_pqGetResult_bind fun result => ?_
          split
          · exact (wlp_pure _).mpr rfl
          · exact (wlp_pure _).mpr rfl
          · simp only [wlp_modifyConn_bind]
            intro conn₁ hconn₁'
            obtain rfl := Option.some.inj (hconn₁.symm.trans hconn₁')
            have hphase := hready.working.conns.phases c _ hconn₁
            refine wlp_step (wlp_establish hready hconn₁ (by simp [DbConn.established, hread]) ?_ rfl
              rfl rfl) ?_
            · refine ⟨fun hpoll => ?_, fun hest => (nomatch hest), fun _ => by simp⟩
              simpa [hread] using hphase.pollAlone hpoll
            · rintro _ s₂ ⟨hready₂, hcalm₂⟩
              exact (wlp_pure _).mpr (⟨hready₂, hcalm.trans hcalm₂⟩)
          · refine wlp_step (wlp_onDatabaseConnectError hready hconn₁ hest false DB_ERROR) ?_
            exact fun _ _ h => (wlp_pure _).mpr (.of_calm hcalm h)

/-- Sending the prepared statements touches nothing. -/
theorem wlp_sendPrepares (n : ℕ) : (sendPrepares n).wlp (fun _ s' => s' = s) s := by
  induction n with
  | zero => exact (wlp_pure _).mpr rfl
  | succ n ih =>
    refine wlp_call_bind fun ok => ?_
    split
    · exact (wlp_pure _).mpr rfl
    · exact ih

/-- `prepare_statements`, on a connection without callbacks of the polling phase. -/
theorem wlp_prepareStatements (h : Ready s) (hconn : s.conns c = some conn)
    (hread : conn.readCb = none) (hwrite : conn.writeCb ≠ some .pollDatabaseConnection)
    (htimer : conn.timer = none) :
    (prepareStatements c).wlp (fun _ s' => Handled s s') s := by
  have hest : conn.established = false := by simp [DbConn.established, hread]
  have hphase := h.working.conns.phases c conn hconn
  simp only [prepareStatements, wlp_getConn_bind]
  intro conn₁ hconn₁
  obtain rfl := Option.some.inj (hconn.symm.trans hconn₁)
  split
  · refine wlp_step (wlp_sendPrepares _) ?_
    rintro failed s₁ heq
    obtain rfl : s = s₁ := heq.symm
    split
    · exact wlp_onDatabaseConnectError h hconn hest false DB_ERROR
    · refine wlp_call_bind fun ok => ?_
      split
      · exact wlp_onDatabaseConnectError h hconn hest false DB_ERROR
      · simp only [wlp_modifyConn_bind]
        intro conn₁ hconn₁
        obtain rfl := Option.some.inj (hconn.symm.trans hconn₁)
        have hready₁ : Ready { s with
            conns := s.conns.insert c { conn with
              preparedStatement := 0
              timer := some .onDatabaseConnectTimeout
              readCb := some .onDatabaseConnectReadReady } } := by
          refine h.modifyConn hconn ⟨fun hpoll => absurd hpoll hwrite, fun _ => hphase.quota hest,
            fun hest' => (by cases hest')⟩ rfl rfl ?_
          rw [hest]
          rfl
        refine wlp_mono (wlp_onDatabaseConnectWriteReady hready₁ (PartialMap.insert_self _ _ _) rfl none)
          fun _ _ h => .of_calm (calm_insertConn _ _ _) h
  · simp only [wlp_modifyConn_bind]
    intro conn₁ hconn₁
    obtain rfl := Option.some.inj (hconn.symm.trans hconn₁)
    refine wlp_mono (wlp_establish h hconn hest ?_ rfl rfl rfl) fun _ _ h => ⟨h.1, h.2⟩
    exact ⟨fun hpoll => absurd hpoll hwrite, fun hest' => (by cases hest'), fun _ => by simp [htimer]⟩

/-- Moving to another socket leaves the connection without callbacks. -/
theorem wlp_moveSocket (moved : Bool) (h : Ready s) (hconn : s.conns c = some conn)
    (hest : conn.established = false) (hwrite : conn.writeCb ≠ some .pollDatabaseConnection) :
    (moveSocket c moved).wlp (fun _ s' => Ready s' ∧ Calm s s' ∧ ∃ conn', s'.conns c = some conn' ∧
      (conn'.readCb = conn.readCb ∨ conn'.readCb = none) ∧
      conn'.writeCb ≠ some .pollDatabaseConnection ∧ conn'.timer = conn.timer) s := by
  have hphase := h.working.conns.phases c conn hconn
  have hsame : Ready s ∧ Calm s s ∧ ∃ conn', s.conns c = some conn' ∧
      (conn'.readCb = conn.readCb ∨ conn'.readCb = none) ∧
      conn'.writeCb ≠ some .pollDatabaseConnection ∧ conn'.timer = conn.timer :=
    ⟨h, .refl s, conn, hconn, .inl rfl, hwrite, rfl⟩
  simp only [moveSocket]
  split
  · refine wlp_call_bind fun ok => ?_
    split
    · simp only [wlp_modifyConn_bind, wlp_pure]
      intro conn₁ hconn₁
      obtain rfl := Option.some.inj (hconn.symm.trans hconn₁)
      refine ⟨h.modifyConn hconn ⟨fun hpoll => (by cases hpoll), fun _ => hphase.quota hest,
        fun hest' => (by cases hest')⟩ rfl rfl ?_, calm_insertConn _ _ _, _,
        PartialMap.insert_self _ _ _, .inr rfl, by simp, rfl⟩
      rw [hest]
      rfl
    · exact (wlp_pure _).mpr hsame
  · exact (wlp_pure _).mpr hsame

/-- `poll_database_connection`, on a connection that is polled by this callback only. -/
theorem wlp_pollDatabaseConnection (h : Ready s) (hconn : s.conns c = some conn)
    (hread : conn.readCb = some .pollDatabaseConnection ∨ conn.readCb = none)
    (hwrite : conn.writeCb ≠ some .pollDatabaseConnection) (err : Option String) :
    (pollDatabaseConnection c err).wlp (fun _ s' => Handled s s') s := by
  have hest (conn' : DbConn)
      (hread' : conn'.readCb = some .pollDatabaseConnection ∨ conn'.readCb = none) :
      conn'.established = false := by
    rcases hread' with hread' | hread' <;> simp [DbConn.established, hread']
  have hphase := h.working.conns.phases c conn hconn
  simp only [pollDatabaseConnection]
  split
  · exact wlp_onDatabaseConnectError h hconn (hest conn hread) false DB_ERROR
  · refine wlp_pqPoll_bind fun status moved => ?_
    cases status with
    | writing =>
      simp only [wlp_modifyConn_bind]
      intro conn₁ hconn₁
      obtain rfl := Option.some.inj (hconn.symm.trans hconn₁)
      have hready₁ : Ready { s with conns := s.conns.insert c { conn with readCb := none } } :=
        h.modifyConn hconn ⟨fun _ => rfl, fun _ => hphase.quota (hest conn hread),
          fun hest' => (nomatch hest')⟩ rfl rfl (hest conn hread).symm
      refine wlp_step (wlp_moveSocket moved hready₁ (PartialMap.insert_self _ _ _)
        (hest _ (.inr rfl)) hwrite) ?_
      rintro failed s₂ ⟨hready₂, hcalm₂, conn₂, hconn₂, hread₂, -, -⟩
      have hcalm := (calm_insertConn s c { conn with readCb := none }).trans hcalm₂
      have hnone : conn₂.readCb = none := hread₂.elim id id
      have herror := wlp_onDatabaseConnectError hready₂ hconn₂ (hest conn₂ (.inr hnone)) false DB_ERROR
      have hphase₂ := hready₂.working.conns.phases c conn₂ hconn₂
      split
      · exact wlp_mono herror fun _ _ h => .of_calm hcalm h
      · rw [wlp_modifyConn]
        intro conn₃ hconn₃
        obtain rfl := Option.some.inj (hconn₂.symm.trans hconn₃)
        refine ⟨hready₂.modifyConn hconn₂ ?_ ?_ ?_ ?_, hcalm.trans (calm_insertConn _ _ _)⟩
        · split
          · exact ⟨fun _ => hnone, hphase₂.quota, hphase₂.timer⟩
          · exact hphase₂
        all_goals split <;> rfl
    | ok =>
      simp only [wlp_modifyConn_bind]
      intro conn₁ hconn₁
      obtain rfl := Option.some.inj (hconn.symm.trans hconn₁)
      have hready₁ : Ready
          { s with conns := s.conns.insert c { conn with timer := none, readCb := none } } :=
        h.modifyConn hconn ⟨fun _ => rfl, fun _ => hphase.quota (hest conn hread),
          fun hest' => (nomatch hest')⟩ rfl rfl (hest conn hread).symm
      have hcalm₁ := calm_insertConn s c { conn with timer := none, readCb := none }
      have herror := wlp_onDatabaseConnectError hready₁ (PartialMap.insert_self _ _ _)
        (hest _ (.inr rfl)) false DB_ERROR
      refine wlp_call_bind fun nonblocking => ?_
      split
      · exact wlp_mono herror fun _ _ h => .of_calm hcalm₁ h
      · refine wlp_call_bind fun pipeline => ?_
        split
        · exact wlp_mono herror fun _ _ h => .of_calm hcalm₁ h
        · refine wlp_step (wlp_moveSocket moved hready₁ (PartialMap.insert_self _ _ _)
            (hest _ (.inr rfl)) hwrite) ?_
          rintro failed s₂ ⟨hready₂, hcalm₂, conn₂, hconn₂, hread₂, hwrite₂, htimer₂⟩
          have hcalm := hcalm₁.trans hcalm₂
          have hphase₂ := hready₂.working.conns.phases c conn₂ hconn₂
          split
          · exact wlp_mono (wlp_onDatabaseConnectError hready₂ hconn₂
              (hest conn₂ (.inr (hread₂.elim id id))) false DB_ERROR) fun _ _ h => .of_calm hcalm h
          · simp only [wlp_modifyConn_bind]
            intro conn₃ hconn₃
            obtain rfl := Option.some.inj (hconn₂.symm.trans hconn₃)
            have hphase₃ : PhaseOk _ { conn₂ with reset := false } :=
              ⟨hphase₂.pollAlone, hphase₂.quota, hphase₂.timer⟩
            have hready₃ := hready₂.modifyConn hconn₂ hphase₃ rfl rfl rfl
            refine wlp_mono (wlp_prepareStatements hready₃ (PartialMap.insert_self _ _ _)
              (hread₂.elim id id) hwrite₂ htimer₂) fun _ _ h => ?_
            exact .of_calm (hcalm.trans (calm_insertConn _ _ _)) h
    | reading =>
      refine wlp_step (wlp_moveSocket moved h hconn (hest conn hread) hwrite) ?_
      rintro failed s₂ ⟨hready₂, hcalm₂, conn₂, hconn₂, hread₂, hwrite₂, -⟩
      have hest₂ : conn₂.established = false := by
        refine hest conn₂ ?_
        rcases hread₂ with heq | heq
        · rwa [heq]
        · exact .inr heq
      have hphase₂ := hready₂.working.conns.phases c conn₂ hconn₂
      split
      · exact wlp_mono (wlp_onDatabaseConnectError hready₂ hconn₂ hest₂ false DB_ERROR) fun _ _ h =>
          .of_calm hcalm₂ h
      · rw [wlp_modifyConn]
        intro conn₃ hconn₃
        obtain rfl := Option.some.inj (hconn₂.symm.trans hconn₃)
        refine ⟨hready₂.modifyConn hconn₂ ⟨fun hpoll => absurd hpoll hwrite₂,
          fun _ => hphase₂.quota hest₂, fun hest' => (nomatch hest')⟩ rfl rfl ?_,
          hcalm₂.trans (calm_insertConn _ _ _)⟩
        rw [hest₂]
        rfl
    | failed => exact wlp_onDatabaseConnectError h hconn (hest conn hread) false DB_ERROR

end FrameworkBenchmarks.H2o
