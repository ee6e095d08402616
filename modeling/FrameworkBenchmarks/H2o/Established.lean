import FrameworkBenchmarks.H2o.Connecting

/-!
# Established connections

The handlers of connections that carry queries: timeouts, writes and arriving results.
-/

namespace FrameworkBenchmarks.H2o

open Common Scripted Handler

variable {s s' s'' : DbConnPool} {c p : ℕ} {conn conn' : DbConn} {skip : Option ℕ}

/-- Steps that do not touch the list leave the waiting queries served. -/
theorem Served.of_calm (h : Served s) (hcalm : Calm s s') (hconn : s'.conn = s.conn)
    (hnum : s'.connNum = s.connNum) : Served s' := by
  refine ⟨h.busy.of_calm hcalm fun hnone => hconn ▸ hnone, fun hflag hhead => ?_⟩
  rw [hnum, hcalm.config]
  exact h.live (hcalm.flag_false hflag) (hcalm.waiting hflag hhead)

/-- `on_database_error` between two event handlers. -/
theorem Ready.wlp_onDatabaseError (h : Ready s) (hconn : s.conns c = some conn)
    (errorString : String) : (onDatabaseError c errorString).wlp (fun _ s' => Handled s s') s := by
  obtain ⟨hand, hheld⟩ := Working.holds h.working.places hconn
  obtain ⟨done, hl⟩ := h.working.listed
  refine wlp_mono (H2o.wlp_onDatabaseError errorString hheld h.working.conns hl
    (fun d hd => (nomatch hd)) (by simp) (.inl rfl)) ?_
  exact fun _ s' hfailed => .of_failed h.served hfailed

/-- `on_database_timeout` -/
theorem wlp_onDatabaseTimeout (h : Ready s) (hconn : s.conns c = some conn) :
    (onDatabaseTimeout c).wlp (fun _ s' => Handled s s') s := by
  simp only [onDatabaseTimeout, wlp_getConn_bind]
  intro conn₁ hconn₁
  obtain rfl := Option.some.inj (hconn.symm.trans hconn₁)
  cases hhead : conn.queries.head with
  | none => exact h.wlp_onDatabaseError hconn DB_TIMEOUT_ERROR
  | some p =>
    simp only [wlp_get_bind, wlp_modifyConn_bind]
    intro conn₁ hconn₁
    obtain rfl := Option.some.inj (hconn.symm.trans hconn₁)
    obtain ⟨hand, hheld⟩ := Working.holds h.working.places hconn
    refine wlp_step (wlp_popAndNotify .onTimeout hconn hhead hheld) ?_
    rintro _ s₁ ⟨honly, hand₁, hheld₁⟩
    obtain ⟨done, hl⟩ := h.working.listed
    refine wlp_mono (H2o.wlp_onDatabaseError DB_TIMEOUT_ERROR hheld₁
      (h.working.conns.of_onlyQueries honly) (hl.of_onlyQueries honly) (fun d hd => (by cases hd))
      (by simp) (.inl rfl)) ?_
    exact fun _ s' hfailed => .of_calm honly.toCalm (.of_failed
      (h.served.of_calm honly.toCalm honly.conn honly.connNum) hfailed)

/-- `on_database_write_ready` -/
theorem wlp_onDatabaseWriteReady (h : Ready s) (hconn : s.conns c = some conn) (err : Option String) :
    (onDatabaseWriteReady c err).wlp (fun _ s' => Handled s s') s := by
  cases err with
  | some err => exact h.wlp_onDatabaseError hconn err
  | none =>
    refine wlp_step (wlp_flushConnection h hconn (by simp)) ?_
    rintro failed s₁ ⟨hready, hcalm, writeCb, hconn₁, -⟩
    split
    · exact wlp_mono (hready.wlp_onDatabaseError hconn₁ DB_ERROR) fun _ _ h => .of_calm hcalm h
    · exact (wlp_pure _).mpr ⟨hready, hcalm⟩

/-- The pool while the results of connection `c` are read; `removed` tells that it had no quota left
when the handler began, so that it is not in the list. -/
structure Reading (s : DbConnPool) (c : ℕ) (removed : Bool) : Prop where
  working : Working s (if removed then some c else none) [] []
  served : Served s
  conn : ∃ conn, s.conns c = some conn ∧ conn.established = true ∧
    (removed = false → conn.queryNum ≠ 0)

/-- The first query in flight is outstanding. -/
theorem QueriesOk.outstanding_head (h : QueriesOk s none []) (hconn : s.conns c = some conn)
    (hhead : conn.queries.head = some p) : s.outstanding p = true := by
  obtain ⟨waiting, flight, place, hp⟩ := h
  have hchain := (hp.flightList c conn hconn (by simp)).1.chain
  rw [hhead] at hchain
  obtain ⟨rest, hflight, -⟩ := hchain.exists_cons
  have hmem : p ∈ flight c := by rw [hflight]; exact List.mem_cons_self
  rw [hp.outstanding_iff, (hp.memFlight c p).mp hmem]
  simp

/-- A write to the connection being read that keeps its quota from running out. -/
theorem Reading.insert {removed : Bool} (h : Reading s c removed) (hq : QueriesOk s' none [])
    (hconn : s.conns c = some conn) (hest : conn'.established = true)
    (hquota : conn.queryNum ≠ 0 → conn'.queryNum ≠ 0) (hphase : PhaseOk s.config conn')
    (hconns : s'.conns = s.conns.insert c conn') (hcalm : Calm s s') (hlist : s'.conn = s.conn)
    (hnum : s'.connNum = s.connNum) (hlinks : s'.connNext = s.connNext)
    (hnext : s'.nextConn = s.nextConn) (hdefects : s'.defects = s.defects) :
    Reading s' c removed := by
  obtain ⟨conn₁, hconn₁, hest₁, hquota₁⟩ := h.conn
  obtain rfl : conn = conn₁ := Option.some.inj (hconn.symm.trans hconn₁)
  obtain ⟨done, hl⟩ := h.working.listed
  have hself : s'.conns c = some conn' := by rw [hconns, PartialMap.insert_self]
  refine ⟨⟨hq, h.working.conns.insert (Option.isSome_iff_exists.mpr ⟨conn, hconn⟩) hphase
    hcalm.config hconns hnext hnum, done, hl.congr hlist (fun _ _ => by rw [hlinks]) hdefects
      fun d quota hd => ?_⟩, h.served.of_calm hcalm hlist hnum, conn', hself, hest,
      fun hremoved => hquota (hquota₁ hremoved)⟩
  by_cases heq : d = c
  · subst heq
    cases removed with
    | true => exact absurd rfl hd
    | false =>
      rw [listable_iff hself, listable_iff hconn, hest, hest₁]
      simp [hquota (hquota₁ rfl), hquota₁ rfl]
  · exact listable_congr (by rw [hconns, PartialMap.insert_of_ne _ _ heq])

/-- A callback that is not terminal, or anything else that only submits queries. -/
theorem Reading.submitted {removed : Bool} (h : Reading s c removed) (hsub : Submitted s s')
    (hq : QueriesOk s' none []) : Reading s' c removed := by
  obtain ⟨conn, hconn, hest, hquota⟩ := h.conn
  refine h.insert hq hconn hest id (h.working.conns.phases c conn hconn) ?_ hsub.toCalm hsub.conn
    hsub.connNum hsub.connNext hsub.nextConn hsub.sameDefects
  rw [hsub.conns, PartialMap.insert_eq_self hconn]

/-- What the callback of the first query in flight makes of a result. -/
theorem wlp_onResult {removed : Bool} (h : Reading s c removed) (hconn : s.conns c = some conn)
    (hhead : conn.queries.head = some p) (nonnullResult : Bool) :
    (onResult c p nonnullResult).wlp (fun _ s' => Reading s' c removed ∧ Calm s s') s := by
  simp only [onResult, wlp_get_bind]
  refine wlp_callback_bind fun submits ret => ?_
  cases ret with
  | success =>
    simp only [record, wlp_modify_bind]
    have hq := h.working.places.result (h.working.places.outstanding_head hconn hhead)
    refine wlp_mono (wlp_submitAll submits) ?_
    rintro _ s' ⟨hsub, hkeeps⟩
    have hsub' : Submitted s s' := submitted_of_trace hsub
    exact ⟨h.submitted hsub' (hkeeps none [] hq).1, hsub'.toCalm⟩
  | done =>
    simp only [record, wlp_modify_bind]
    obtain ⟨hand, hchain, hq, htail, hcount⟩ := h.working.places.detachFlight hconn
    rw [hhead] at hchain
    obtain ⟨rest, rfl, hrest⟩ := hchain.exists_cons
    refine wlp_step (wlp_terminal p .done submits) ?_
    rintro _ s₁ ⟨hsub, hnotified⟩
    obtain ⟨hq₁, hlinks⟩ := hnotified (some c) rest hq
    rw [wlp_modifyConn]
    intro conn₁ hconn₁
    obtain rfl : conn = conn₁ := by
      rw [hsub.conns, hconn] at hconn₁
      exact Option.some.inj hconn₁
    obtain ⟨conn₂, hconn₂, hest, -⟩ := h.conn
    obtain rfl : conn = conn₂ := Option.some.inj (hconn.symm.trans hconn₂)
    have hphase := h.working.conns.phases c conn hconn
    have hends : (if (s.paramNext p).isNone then none else conn.queries.tail) = rest.getLast? := by
      cases rest with
      | nil => simp [show s.paramNext p = none from hrest]
      | cons q rest =>
        rw [hrest.1, htail, List.getLast?_cons_cons]
        simp
    set conn' : DbConn :=
      { conn with
        queryNum := conn.queryNum + 1
        timer := some .onDatabaseTimeout
        expectSync := true
        queries := ⟨s.paramNext p, if (s.paramNext p).isNone then none else conn.queries.tail⟩
        ignoreResult := conn.ignoreResult || nonnullResult } with hconn'
    have hquota : conn'.queryNum + rest.length = s₁.config.maxPipelineQueryNum := by
      have hone : conn'.queryNum = conn.queryNum + 1 := rfl
      rw [hsub.config, ← hcount, List.length_cons, hone]
      omega
    have hq₂ : QueriesOk { s₁ with conns := s₁.conns.insert c conn' } none [] :=
      hq₁.attachFlight (hrest.congr hlinks) (by rw [← hends]) hquota
    have hcalm : Calm s { s₁ with conns := s₁.conns.insert c conn' } :=
      hsub.toCalm.trans (calm_insertConn s₁ c conn')
    have hphase' : PhaseOk s.config conn' := by
      refine ⟨hphase.pollAlone, fun hno => ?_, fun _ => by simp [hconn']⟩
      rw [show conn'.established = conn.established from rfl, hest] at hno
      cases hno
    exact ⟨h.insert hq₂ hconn (show conn'.established = true from hest)
      (fun _ => Nat.succ_ne_zero _) hphase'
      (by rw [hsub.conns]) hcalm hsub.conn hsub.connNum hsub.connNext hsub.nextConn
      hsub.sameDefects, hcalm⟩

/-- `on_database_error` while results are read. -/
theorem Reading.wlp_onDatabaseError {removed : Bool} (h : Reading s c removed) (errorString : String) :
    (onDatabaseError c errorString).wlp (fun _ s' => Handled s s') s := by
  obtain ⟨conn, hconn, -⟩ := h.conn
  obtain ⟨hand, hheld⟩ := Working.holds h.working.places hconn
  obtain ⟨done, hl⟩ := h.working.listed
  refine wlp_mono (H2o.wlp_onDatabaseError errorString hheld h.working.conns hl (fun d hd => ?_)
    (by simp) (.inl rfl)) ?_
  · cases removed with
    | true => exact (Option.some.inj hd).symm
    | false => cases hd
  · exact fun _ s' hfailed => .of_failed h.served hfailed

/-- A write to a flag or the timer of the connection being read. -/
theorem Reading.wlp_modifyConn {removed : Bool} (h : Reading s c removed) {g : DbConn → DbConn}
    (hg : ∀ conn, (g conn).queries = conn.queries ∧ (g conn).queryNum = conn.queryNum ∧
      (g conn).readCb = conn.readCb ∧ (g conn).writeCb = conn.writeCb ∧
      ((g conn).timer = conn.timer ∨ (g conn).timer = none)) :
    (modifyConn c g).wlp (fun _ s' => Reading s' c removed ∧ Calm s s') s := by
  rw [H2o.wlp_modifyConn]
  intro conn hconn
  obtain ⟨hqueries, hnum, hread, hwrite, htimer⟩ := hg conn
  obtain ⟨conn₁, hconn₁, hest, -⟩ := h.conn
  obtain rfl : conn = conn₁ := Option.some.inj (hconn.symm.trans hconn₁)
  have hest' : (g conn).established = conn.established := by
    rw [DbConn.established, hread, DbConn.established]
  have hphase := h.working.conns.phases c conn hconn
  have hphase' : PhaseOk s.config (g conn) := by
    refine ⟨hwrite ▸ hread ▸ hphase.pollAlone, ?_, fun _ => ?_⟩
    · rw [hest', hnum]
      exact hphase.quota
    · rcases htimer with htimer | htimer
      · rw [htimer]
        exact hphase.timer hest
      · simp [htimer]
  have hq := h.working.places.insertConn hconn hqueries hnum
  have hcalm := calm_insertConn s c (g conn)
  exact ⟨h.insert hq hconn (hest'.trans hest) (fun hne => hnum ▸ hne) hphase' rfl hcalm rfl rfl rfl rfl
    rfl, hcalm⟩

/-- One round of the result loop. -/
theorem wlp_readResult {removed : Bool} (h : Reading s c removed) :
    (readResult c).wlp (fun r s' =>
      if r = .inr true then Handled s s' else Reading s' c removed ∧ Calm s s') s := by
  have hstay : Reading s c removed ∧ Calm s s := ⟨h, .refl s⟩
  refine wlp_pqIsBusy_bind fun busy => ?_
  split
  · exact (wlp_pure _).mpr (by simpa using hstay)
  · refine wlp_pqGetResult_bind fun result => ?_
    simp only [wlp_getConn_bind]
    intro conn hconn
    split
    · split
      · refine wlp_step (h.wlp_modifyConn fun _ => ⟨rfl, rfl, rfl, rfl, .inl rfl⟩) ?_
        exact fun _ s' hs' => (wlp_pure _).mpr (by simpa using hs')
      · exact (wlp_pure _).mpr (by simpa using hstay)
    · split
      · split
        · refine wlp_step (h.wlp_modifyConn fun _ => ⟨rfl, rfl, rfl, rfl, .inl rfl⟩) ?_
          exact fun _ s' hs' => (wlp_pure _).mpr (by simpa using hs')
        · refine wlp_step (h.wlp_onDatabaseError DB_ERROR) ?_
          exact fun _ s' hs' => (wlp_pure _).mpr (by simpa using hs')
      · split
        · rename_i p hhead
          refine wlp_step (wlp_onResult h hconn hhead result.isSome) ?_
          exact fun _ s' hs' => (wlp_pure _).mpr (by simpa using hs')
        · refine wlp_step (h.wlp_modifyConn fun _ => ⟨rfl, rfl, rfl, rfl, .inr rfl⟩) ?_
          exact fun _ s' hs' => (wlp_pure _).mpr (by simpa using hs')

/-- A connection without quota is not in the list. -/
theorem Ready.reading (h : Ready s) (hconn : s.conns c = some conn) (hest : conn.established = true) :
    Reading s c (decide (conn.queryNum = 0)) := by
  refine ⟨?_, h.served, conn, hconn, hest, by simp⟩
  by_cases hzero : conn.queryNum = 0
  · obtain ⟨hq, hc, done, hl⟩ := h.working
    have hnot : ¬ listable s true c := by
      rw [listable_iff hconn]
      simp [hzero]
    simp only [hzero, decide_true, if_true]
    exact ⟨hq, hc, done, hl.take (fun d hd => (nomatch hd)) (hl.not_mem_of_not_listable hnot) (by simp)⟩
  · simpa [hzero] using h.working

/-- Unless its quota has come back, the connection stays out of the list. -/
theorem Reading.settle {removed : Bool} (h : Reading s c removed) (hconn : s.conns c = some conn)
    (hstays : ¬ (removed = true ∧ conn.queryNum ≠ 0)) : Working s none [] [] := by
  obtain ⟨hq, hc, done, hl⟩ := h.working
  cases removed with
  | false => exact ⟨hq, hc, done, hl⟩
  | true =>
    have hzero : conn.queryNum = 0 := by simpa using hstays
    refine ⟨hq, hc, done, Listed.drop hl ?_⟩
    rw [listable_iff hconn]
    simp [hzero]

/-- Otherwise it is appended again. -/
theorem Reading.wlp_appendConn {removed : Bool} (h : Reading s c removed)
    (hconn : s.conns c = some conn) (hback : removed = true ∧ conn.queryNum ≠ 0) :
    (appendConn c).wlp (fun _ s' => Working s' none [] [] ∧ Calm s s') s := by
  obtain ⟨rfl, hquota⟩ := hback
  obtain ⟨conn₁, hconn₁, hest, -⟩ := h.conn
  obtain rfl : conn = conn₁ := Option.some.inj (hconn.symm.trans hconn₁)
  obtain ⟨hq, hc, done, hl⟩ := h.working
  have hlistable : listable s true c := (listable_iff hconn).mpr ⟨hest, by simp [hquota]⟩
  refine wlp_mono (H2o.wlp_appendConn hl (fun d hd => (Option.some.inj hd).symm) hlistable
    (by simpa using (hl.skipped c rfl).1) (by simp)) ?_
  rintro _ s' ⟨⟨_, _, rfl⟩, hlisted⟩
  exact ⟨⟨hq.of_same rfl rfl rfl rfl rfl rfl, hc.congr rfl rfl rfl rfl, hlisted⟩,
    .of_same rfl rfl rfl rfl fun _ => id⟩

/-- `on_database_read_ready` -/
theorem wlp_onDatabaseReadReady (h : Ready s) (hconn : s.conns c = some conn)
    (hest : conn.established = true) (err : Option String) :
    (onDatabaseReadReady c err).wlp (fun _ s' => Handled s s') s := by
  cases err with
  | some err => exact h.wlp_onDatabaseError hconn err
  | none =>
    refine wlp_call_bind fun ok => ?_
    split
    · exact h.wlp_onDatabaseError hconn DB_ERROR
    · refine wlp_step (wlp_flushConnection h hconn (by simp)) ?_
      rintro failed s₁ ⟨hready, hcalm, writeCb, hconn₁, -⟩
      split
      · exact wlp_mono (hready.wlp_onDatabaseError hconn₁ DB_ERROR) fun _ _ h => .of_calm hcalm h
      · simp only [wlp_getConn_bind]
        intro conn₂ hconn₂
        obtain rfl := Option.some.inj (hconn₁.symm.trans hconn₂)
        have hreading := hready.reading hconn₁ hest
        refine wlp_step (wlp_loop (R := fun r s' => if r = true then Handled s₁ s' else
          Reading s' c (decide (conn.queryNum = 0)) ∧ Calm s₁ s') (fun _ s' =>
          Reading s' c (decide (conn.queryNum = 0)) ∧ Calm s₁ s') ?_ ⟨hreading, .refl s₁⟩) ?_
        · rintro _ s₂ ⟨hreading₂, hcalm₂⟩
          refine wlp_mono (wlp_readResult hreading₂) ?_
          rintro (_ | ended) s₃ hs₃
          · simp only [reduceCtorEq, if_false] at hs₃
            exact ⟨hs₃.1, hcalm₂.trans hs₃.2⟩
          · cases ended with
            | true => exact .of_calm hcalm₂ (by simpa using hs₃)
            | false =>
              simp only [Sum.inr.injEq, Bool.false_eq_true, if_false] at hs₃ ⊢
              exact ⟨hs₃.1, hcalm₂.trans hs₃.2⟩
        · rintro ended s₂ hs₂
          cases ended with
          | true => exact (wlp_pure _).mpr (.of_calm hcalm (by simpa using hs₂))
          | false =>
            simp only [Bool.false_eq_true, if_false] at hs₂
            obtain ⟨hreading₂, hcalm₂⟩ := hs₂
            have hsofar := hcalm.trans hcalm₂
            simp only [Bool.false_eq_true, if_false, wlp_getConn_bind]
            intro conn₃ hconn₃
            split
            · rename_i hback
              refine wlp_step (hreading₂.wlp_appendConn hconn₃ (by simpa using hback)) ?_
              rintro _ s₃ ⟨hw, hcalm₃⟩
              refine wlp_mono hw.wlp_processQueries ?_
              rintro _ s₄ ⟨hready₄, hcalm₄⟩
              exact ⟨hready₄, hsofar.trans (hcalm₃.trans hcalm₄)⟩
            · rename_i hstays
              refine wlp_mono (hreading₂.settle hconn₃ (by simpa using hstays)).wlp_processQueries ?_
              rintro _ s₄ ⟨hready₄, hcalm₄⟩
              exact ⟨hready₄, hsofar.trans hcalm₄⟩

end FrameworkBenchmarks.H2o
