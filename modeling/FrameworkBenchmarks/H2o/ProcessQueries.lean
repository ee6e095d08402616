import FrameworkBenchmarks.H2o.Established

/-!
# The task that hands queries to connections

`on_process_queries` in its four parts: sending, flushing the connections that took their last query,
flushing the others while the end of the list is found anew, and connecting more.
-/

namespace FrameworkBenchmarks.H2o

open Common Scripted Handler

variable {s s' s'' : DbConnPool} {c p : ℕ} {conn conn' : DbConn} {spare done rest : List ℕ}

/-- While the flag is set nothing that happens to the wait list matters. -/
theorem Calm.of_flag (hconfig : s'.config = s.config) (hflag : s'.processQueries = true)
    (hflag' : s.processQueries = true) (hmessages : s'.localMessages = s.localMessages)
    (hdefects : ∀ d ∈ s.defects, d ∈ s'.defects) : Calm s s' where
  config := hconfig
  flag _ := hflag
  messages := by rw [hflag, hflag', hmessages]
  waiting hno := by rw [hflag] at hno; cases hno
  defects := hdefects

/-- What `do_execute_query` does if it does not fail. -/
structure Sent (s s' : DbConnPool) (c p : ℕ) (conn : DbConn) (timer : Option TimerCb) : Prop where
  allocated : s.conns c = some conn
  timed : timer = some .onDatabaseTimeout ∨ timer = conn.timer
  state : s' = { s with
    paramNext := (conn.queries.clearPush s.paramNext p).2
    conns := s.conns.insert c { conn with
      timer := timer
      queries := (conn.queries.clearPush s.paramNext p).1
      queryNum := conn.queryNum - 1 } }

/-- `do_execute_query`: if it fails, nothing has happened. -/
theorem wlp_doExecuteQuery :
    (doExecuteQuery c p).wlp (fun failed s' =>
      (failed = true → s' = s) ∧ (failed = false → ∃ conn timer, Sent s s' c p conn timer)) s := by
  refine wlp_call_bind fun sent => ?_
  split
  · exact (wlp_pure _).mpr ⟨fun _ => rfl, fun h => (by cases h)⟩
  · refine wlp_call_bind fun synced => ?_
    split
    · exact (wlp_pure _).mpr ⟨fun _ => rfl, fun h => (by cases h)⟩
    · simp only [wlp_getConn_bind, wlp_get_bind, wlp_modify_bind, wlp_pure]
      intro conn hconn
      refine ⟨fun h => (by cases h), fun _ => ⟨conn, _, hconn, ?_, rfl⟩⟩
      split
      · exact .inl rfl
      · exact .inr rfl

/-- The pool while the task sends; `iter` chains the connections that took their last query. -/
structure Sending (s : DbConnPool) (iter : Option ℕ) : Prop where
  flag : s.processQueries = true
  working : ∃ spare, iter = spare.head? ∧ Working s none spare []

/-- A query and a connection that the task has taken off their lists. -/
structure Taken (s : DbConnPool) (spare : List ℕ) (c p : ℕ) : Prop where
  flag : s.processQueries = true
  places : QueriesOk s none [p]
  conns : ConnsOk s
  listed : ∃ done, Listed s (some c) spare done []
  tail : s.conn.tail ≠ some c
  listable : listable s true c

/-- The first query and the first connection are taken off their lists. -/
theorem Working.takeFirst (h : Working s none spare []) (hflag : s.processQueries = true)
    (hquery : s.queries.head = some p) (hhead : s.conn.head = some c) :
    Taken { s with
      conn := ⟨s.connNext c, if (s.connNext c).isNone then none else s.conn.tail⟩
      queries :=
        ⟨s.paramNext p, if s.queryNum + 1 = s.config.maxQueryNum then none else s.queries.tail⟩
      queryNum := s.queryNum + 1 } spare c p := by
  obtain ⟨hq, hc, done, hl⟩ := h
  obtain ⟨done', hl', -, htail⟩ := hl.pop hhead
  have hchain := hl.chain
  rw [hhead] at hchain
  obtain ⟨rest, hsplit, -⟩ := hchain.exists_cons
  have hlistable : H2o.listable s true c := hl.members c (by rw [hsplit]; exact List.mem_cons_self)
  exact ⟨hflag, (hq.dequeue hquery).of_same rfl rfl rfl rfl rfl rfl, hc.congr rfl rfl rfl rfl,
    ⟨done', hl'.congr rfl (fun _ _ => rfl) rfl fun _ _ _ => .rfl⟩, htail, hlistable⟩

/-- A query that could not be sent fails together with its connection. -/
theorem Taken.wlp_fail {α : Type} (h : Taken s spare c p) (r : α) :
    (do notify p (.onError DB_ERROR); onDatabaseError c DB_ERROR; pure r : Handler α).wlp
      (fun r' s' => r' = r ∧ Calm s s' ∧ Sending s' spare.head?) s := by
  obtain ⟨conn, hconn, -⟩ := h.listable
  obtain ⟨done, hl⟩ := h.listed
  refine wlp_step (wlp_notify p (.onError DB_ERROR)) ?_
  rintro _ s₁ ⟨hsub, hnotified⟩
  have hq : QueriesOk s₁ none [] := (hnotified none [] h.places).1
  have hconn₁ : s₁.conns c = some conn := hsub.conns ▸ hconn
  obtain ⟨hand, hheld⟩ := Working.holds hq hconn₁
  have hconns : ConnsOk s₁ := h.conns.congr hsub.config hsub.conns hsub.nextConn hsub.connNum
  refine wlp_step (wlp_onDatabaseError DB_ERROR hheld hconns (hsub.listed hl)
    (fun d hd => (Option.some.inj hd).symm) (hl.skipped c rfl).2 (.inl rfl)) ?_
  rintro _ s₂ hfailed
  have hcalm : Calm s s₂ := hsub.toCalm.trans hfailed.calm
  exact (wlp_pure r).mpr ⟨rfl, hcalm, hcalm.flag h.flag, spare, rfl, hfailed.working⟩

/-- A query that has been sent is in flight on its connection. -/
theorem Taken.sent {timer : Option TimerCb} (h : Taken s spare c p)
    (hsent : Sent s s' c p conn timer) :
    s'.processQueries = true ∧ Calm s s' ∧ QueriesOk s' none [] ∧ ConnsOk s' ∧
      (∃ done, Listed s' (some c) spare done []) ∧ s'.conn.tail ≠ some c ∧
      ∃ conn', s'.conns c = some conn' ∧ conn'.established = true := by
  obtain ⟨hconn, htimer, rfl⟩ := hsent
  obtain ⟨done, hl⟩ := h.listed
  obtain ⟨hest, hquota⟩ := (listable_iff hconn).mp h.listable
  have hphase := h.conns.phases c conn hconn
  refine ⟨h.flag, .of_flag rfl h.flag h.flag rfl fun _ => id,
    h.places.send hconn (by simpa using hquota) rfl rfl,
    h.conns.insert (Option.isSome_iff_exists.mpr ⟨conn, hconn⟩) ?_ rfl rfl rfl rfl,
    ⟨done, hl.congr rfl (fun _ _ => rfl) rfl fun d quota hd =>
      listable_congr (PartialMap.insert_of_ne _ _ fun heq => hd (by rw [heq]))⟩,
    h.tail, _, PartialMap.insert_self _ _ _, hest⟩
  refine ⟨hphase.pollAlone, fun hno => ?_, fun _ => ?_⟩
  · exact absurd (hest.symm.trans hno) (by simp)
  · rcases htimer with rfl | rfl
    · simp
    · exact hphase.timer hest

/-- The connection in hand takes its place again, or is chained with those that took their last
query. -/
theorem wlp_placeSent {n : ℕ} (hflag : s.processQueries = true) (hq : QueriesOk s none [])
    (hc : ConnsOk s) (hl : Listed s (some c) spare done []) (htail : s.conn.tail ≠ some c)
    (hconn : s.conns c = some conn) (hest : conn.established = true) :
    (do
      let conn ← getConn c
      if conn.queryNum ≠ 0 then
        appendConn c
        pure (.inl (spare.head?, n))
      else
        modify fun s => { s with connNext := Function.update s.connNext c spare.head? }
        pure (.inl (some c, n)) : Handler ((Option ℕ × ℕ) ⊕ (Option ℕ × ℕ))).wlp
      (fun r s' => Calm s s' ∧ Sending s' (Sum.elim Prod.fst Prod.fst r)) s := by
  obtain ⟨hout, hspare⟩ := hl.skipped c rfl
  simp only [wlp_getConn_bind]
  intro conn₁ hconn₁
  obtain rfl := Option.some.inj (hconn.symm.trans hconn₁)
  split
  · rename_i hquota
    have hlistable : listable s true c := (listable_iff hconn).mpr ⟨hest, by simpa using hquota⟩
    refine wlp_step (wlp_appendConn hl (fun d hd => (Option.some.inj hd).symm) hlistable
      (by simpa using hout) hspare) ?_
    rintro _ _ ⟨⟨_, _, rfl⟩, hlisted⟩
    exact (wlp_pure _).mpr ⟨.of_same rfl rfl rfl rfl fun _ => id, hflag, spare, rfl,
      hq.of_same rfl rfl rfl rfl rfl rfl, hc.congr rfl rfl rfl rfl, hlisted⟩
  · rename_i hquota
    have hlistable : listable s false c := (listable_iff hconn).mpr ⟨hest, by simpa using hquota⟩
    simp only [wlp_modify_bind, wlp_pure]
    exact ⟨.of_same rfl rfl rfl rfl fun _ => id, hflag, c :: spare, rfl,
      hq.of_same rfl rfl rfl rfl rfl rfl, hc.congr rfl rfl rfl rfl, done, hl.pushSpare hlistable htail⟩

/-- One round of the first loop. -/
theorem wlp_sendQuery {iter : Option ℕ} (h : Sending s iter) (n : ℕ) :
    (sendQuery iter n).wlp
      (fun r s' => Calm s s' ∧ Sending s' (Sum.elim Prod.fst Prod.fst r)) s := by
  obtain ⟨hflag, spare, rfl, hw⟩ := h
  simp only [sendQuery, wlp_get_bind]
  split
  · rename_i p c hquery hhead
    simp only [wlp_getConn_bind, wlp_modify_bind]
    intro _ _
    obtain ⟨s₁, hs₁⟩ : ∃ s₁, s₁ = ({ s with
        conn := ⟨s.connNext c, if (s.connNext c).isNone then none else s.conn.tail⟩
        queries :=
          ⟨s.paramNext p, if s.queryNum + 1 = s.config.maxQueryNum then none else s.queries.tail⟩
        queryNum := s.queryNum + 1 } : DbConnPool) := ⟨_, rfl⟩
    have htaken : Taken s₁ spare c p := hs₁ ▸ hw.takeFirst hflag hquery hhead
    have hcalm₁ : Calm s s₁ := hs₁ ▸ .of_flag rfl hflag hflag rfl fun _ => id
    rw [← hs₁]
    refine wlp_step wlp_doExecuteQuery ?_
    rintro failed s₂ ⟨hfailed, hsent⟩
    cases failed with
    | true =>
      obtain rfl : s₁ = s₂ := (hfailed rfl).symm
      refine wlp_mono (htaken.wlp_fail _) ?_
      rintro _ s₃ ⟨rfl, hcalm₃, hsending₃⟩
      exact ⟨hcalm₁.trans hcalm₃, hsending₃⟩
    | false =>
      obtain ⟨conn, timer, hsent⟩ := hsent rfl
      obtain ⟨hflag₂, hcalm₂, hq₂, hc₂, ⟨done₂, hl₂⟩, htail₂, conn₂, hconn₂, hest₂⟩ :=
        htaken.sent hsent
      refine wlp_mono (wlp_placeSent hflag₂ hq₂ hc₂ hl₂ htail₂ hconn₂ hest₂) ?_
      rintro r s₃ ⟨hcalm₃, hsending₃⟩
      exact ⟨hcalm₁.trans (hcalm₂.trans hcalm₃), hsending₃⟩
  · exact (wlp_pure _).mpr ⟨.refl s, hflag, spare, rfl, hw⟩

/-- `on_database_error` on a connection that the task has just failed to flush. -/
theorem Working.wlp_onDatabaseError (h : Working s none spare []) (hconn : s.conns c = some conn)
    (hspare : c ∉ spare) :
    (onDatabaseError c DB_ERROR).wlp (fun _ s' => Failed s s' spare []) s := by
  obtain ⟨hand, hheld⟩ := Working.holds h.places hconn
  obtain ⟨done, hl⟩ := h.listed
  exact H2o.wlp_onDatabaseError DB_ERROR hheld h.conns hl (fun d hd => (nomatch hd)) hspare (.inl rfl)

/-- The second loop. -/
theorem wlp_flushSpent {iter : Option ℕ} (h : Sending s iter) :
    (flushSpent iter).wlp (fun _ s' => Calm s s' ∧ Sending s' none) s := by
  refine wlp_loop (fun iter' s' => Calm s s' ∧ Sending s' iter') ?_ ⟨.refl s, h⟩
  rintro iter' s₁ ⟨hcalm, hsending⟩
  cases iter' with
  | none => exact (wlp_pure _).mpr ⟨hcalm, hsending⟩
  | some c =>
    obtain ⟨hflag, spare, hspare, hq, hc, done, hl⟩ := hsending
    obtain ⟨spare, rfl⟩ := List.head?_eq_some_iff.mp hspare.symm
    obtain ⟨hl', hnext, ⟨conn, hconn, -⟩, hout⟩ := hl.popSpare
    simp only [wlp_getConn_bind, wlp_get_bind]
    intro _ _
    refine wlp_step (Working.wlp_flushConnection ⟨hq, hc, done, hl'⟩ hconn (by simp)) ?_
    rintro failed _ ⟨hw, writeCb, rfl, -⟩
    have hcalm₂ := hcalm.trans (calm_insertConn s₁ c { conn with writeCb := writeCb })
    split
    · refine wlp_step (hw.wlp_onDatabaseError (PartialMap.insert_self _ _ _) hout) ?_
      rintro _ s₃ hfailed
      exact (wlp_pure _).mpr ⟨hcalm₂.trans hfailed.calm, hfailed.calm.flag hflag, spare, hnext,
        hfailed.working⟩
    · exact (wlp_pure _).mpr ⟨hcalm₂, hflag, spare, hnext, hw⟩

/-- Before a connection that could not be flushed is dropped in the third loop. -/
theorem wlp_storeConnTail (hl : Listed s none spare done (c :: rest)) :
    (storeConnTail (s.connNext c)).wlp (fun _ s' =>
      (∃ conn connNext, s' = { s with conn := conn, connNext := connNext }) ∧
        Listed s' (some c) spare done rest) s := by
  simp only [storeConnTail, wlp_get_bind]
  split
  · rename_i htail
    rw [wlp_modify]
    exact ⟨⟨_, _, rfl⟩, hl.cut (.inl ⟨htail, by rw [htail], rfl⟩)⟩
  · rename_i t htail
    simp only [wlp_getConn_bind, wlp_modify]
    exact fun _ _ => ⟨⟨_, _, rfl⟩, hl.cut (.inr ⟨t, htail, rfl, rfl⟩)⟩

/-- A connection that the third loop could not flush. -/
theorem Working.wlp_dropListed {α : Type} (hw : Working s none [] (c :: rest))
    (hconn : s.conns c = some conn) (r : α) :
    (do storeConnTail (s.connNext c); onDatabaseError c DB_ERROR; pure r : Handler α).wlp
      (fun r' s' => r' = r ∧ Calm s s' ∧ Working s' none [] rest) s := by
  obtain ⟨hq, hc, done, hl⟩ := hw
  refine wlp_step (wlp_storeConnTail hl) ?_
  rintro _ s₁ ⟨⟨conn₁, connNext₁, hs₁⟩, hl₁⟩
  have hq₁ : QueriesOk s₁ none [] := hs₁ ▸ hq.of_same rfl rfl rfl rfl rfl rfl
  have hc₁ : ConnsOk s₁ := hs₁ ▸ hc.congr rfl rfl rfl rfl
  have hconn₁ : s₁.conns c = some conn := hs₁ ▸ hconn
  have hcalm₁ : Calm s s₁ := hs₁ ▸ .of_same rfl rfl rfl rfl fun _ => id
  obtain ⟨hand, hheld⟩ := Working.holds hq₁ hconn₁
  refine wlp_step (H2o.wlp_onDatabaseError DB_ERROR hheld hc₁ hl₁
    (fun d hd => (Option.some.inj hd).symm) (by simp) (.inr (hl₁.skipped c rfl).1)) ?_
  exact fun _ s₂ hfailed => (wlp_pure r).mpr ⟨rfl, hcalm₁.trans hfailed.calm, hfailed.working⟩

/-- The third loop. -/
theorem wlp_flushListed (hw : Working s none [] rest) (hbusy : AllBusy s) :
    (flushListed rest.head?).wlp
      (fun _ s' => Calm s s' ∧ AllBusy s' ∧ Working s' none [] []) s := by
  refine wlp_loop (fun iter' s' => Calm s s' ∧ AllBusy s' ∧ ∃ rest', iter' = rest'.head? ∧
    Working s' none [] rest') ?_ ⟨.refl s, hbusy, rest, rfl, hw⟩
  rintro iter' s₁ ⟨hcalm, hbusy₁, rest₁, rfl, hw₁⟩
  cases rest₁ with
  | nil => exact (wlp_pure _).mpr ⟨hcalm, hbusy₁, hw₁⟩
  | cons c rest₁ =>
    obtain ⟨done, hl⟩ := hw₁.listed
    obtain ⟨conn, hconn, -⟩ := hl.members c (by simp)
    have hnext : s₁.connNext c = rest₁.head? := hl.chain.drop.start_eq
    -- the list is not empty, so no query waits unless the task is queued again
    have hlisted : s₁.conn.head ≠ none := fun hnone => by simpa using hl.eq_nil_iff.mpr hnone
    simp only [List.head?_cons, wlp_getConn_bind, wlp_get_bind]
    intro _ _
    refine wlp_step (hw₁.wlp_flushConnection hconn (by simp)) ?_
    rintro failed s₂ ⟨hw₂, writeCb, rfl, -⟩
    have hcalm₂ := calm_insertConn s₁ c { conn with writeCb := writeCb }
    split
    · refine wlp_mono (hw₂.wlp_dropListed (PartialMap.insert_self _ _ _) _) ?_
      rintro _ s₃ ⟨rfl, hcalm₃, hw₃⟩
      have hcalm₄ : Calm s₁ s₃ := hcalm₂.trans hcalm₃
      exact ⟨hcalm.trans hcalm₄, hbusy₁.of_calm hcalm₄ fun hnone => absurd hnone hlisted, rest₁, hnext,
        hw₃⟩
    · simp only [wlp_modify_bind, wlp_pure]
      have hcalm₃ : Calm s₁ { s₁ with
          conns := s₁.conns.insert c { conn with writeCb := writeCb }
          conn := ⟨s₁.conn.head, some c⟩ } :=
        hcalm₂.trans (.of_same rfl rfl rfl rfl fun _ => id)
      obtain ⟨done₂, hl₂⟩ := hw₂.listed
      exact ⟨hcalm.trans hcalm₃, hbusy₁.of_calm hcalm₃ id, rest₁, hnext,
        hw₂.places.of_same rfl rfl rfl rfl rfl rfl, hw₂.conns.congr rfl rfl rfl rfl, _, hl₂.advance⟩

/-- The last loop; one round is enough for a connection to be allocated. -/
theorem wlp_connectMore {n : ℕ} (hw : Working s none [] []) (hbusy : AllBusy s)
    (hlive : n = 0 → s.processQueries = false → s.queries.head ≠ none →
      s.connNum ≠ s.config.maxDbConnNum) :
    (connectMore n).wlp (fun _ s' => Handled s s') s := by
  induction n generalizing s with
  | zero => exact (wlp_pure _).mpr ⟨⟨hw, hbusy, hlive rfl⟩, .refl s⟩
  | succ n ih =>
    simp only [connectMore, wlp_get_bind]
    split
    · rename_i hzero
      have hpos := s.config.maxDbConnNum_pos
      exact (wlp_pure _).mpr ⟨⟨hw, hbusy, fun _ _ => by omega⟩, .refl s⟩
    · rename_i hnum
      refine wlp_step (wlp_newDatabaseConnect hw hnum) ?_
      rintro _ s₁ hfailed
      refine wlp_mono (ih hfailed.working (hbusy.of_calm hfailed.calm hfailed.empty)
        fun _ => hfailed.live) ?_
      exact fun _ s₂ hhandled => .of_calm hfailed.calm hhandled

/-- While a query waits, the pool's counter is below its limit. -/
theorem QueriesOk.queryNum_lt (h : QueriesOk s none []) (hhead : s.queries.head ≠ none) :
    s.queryNum < s.config.maxQueryNum := by
  obtain ⟨waiting, flight, place, hp⟩ := h
  have hpos : 0 < waiting.length :=
    List.length_pos_iff.mpr fun hnil => hhead (hp.waiting_eq_nil_iff.mp hnil)
  have hcount := hp.poolCount
  omega

/-- What the task does to a pool that is in order: the flag tells whether it is queued again. -/
structure Processed (s s' : DbConnPool) : Prop where
  ready : Ready s'
  config : s'.config = s.config
  messages : s'.localMessages = s.localMessages + flagNum s'.processQueries

/-- The last two loops of the task. -/
theorem wlp_flushAndConnect (hw : Working s none [] rest) (hbusy : AllBusy s) (sent : ℕ) :
    (do
      flushListed rest.head?
      let s' ← get
      connectMore (sent + (s.config.maxQueryNum - s.queryNum) -
        (s'.config.maxDbConnNum - s'.connNum)) : Handler Unit).wlp
      (fun _ s' => Handled s s') s := by
  refine wlp_step (wlp_flushListed hw hbusy) ?_
  rintro _ s₁ ⟨hcalm, hbusy₁, hw₁⟩
  rw [wlp_get_bind]
  refine wlp_mono (wlp_connectMore hw₁ hbusy₁ fun hzero hflag hhead hnone => ?_) fun _ s₂ hhandled =>
    .of_calm hcalm hhandled
  have hlt := hw.places.queryNum_lt (hcalm.waiting hflag hhead)
  omega

/-- The task from where it has cleared its flag. -/
theorem wlp_afterClear (hw : Working s none [] rest) (hhead : s.conn.head = rest.head?) (sent : ℕ) :
    (do
      let s ← get
      noteIf (s.queries.head.isSome && s.conn.head.isSome) .strandedQueries
      let queryNum := sent + (s.config.maxQueryNum - s.queryNum)
      flushListed s.conn.head
      let s ← get
      connectMore (queryNum - (s.config.maxDbConnNum - s.connNum)) : Handler Unit).wlp
      (fun _ s' => Handled s s') s := by
  simp only [wlp_get_bind, noteIf, wlp_modify_bind, hhead]
  split
  · -- the branch is on record, so nothing is said about it
    obtain ⟨hq, hc, done, hl⟩ := hw
    have hcalm : Calm s { s with defects := .strandedQueries :: s.defects } :=
      .of_same rfl rfl rfl rfl fun d hd => List.mem_cons_of_mem _ hd
    have hw' : Working { s with defects := .strandedQueries :: s.defects } none [] rest :=
      ⟨hq.of_same rfl rfl rfl rfl rfl rfl, hc.congr rfl rfl rfl rfl, done, hl.note _⟩
    have hbusy : AllBusy { s with defects := .strandedQueries :: s.defects } :=
      fun hstranded => absurd List.mem_cons_self hstranded
    exact wlp_mono (wlp_flushAndConnect hw' hbusy sent) fun _ _ h => .of_calm hcalm h
  · rename_i hcond
    have hbusy : AllBusy s := by
      intro _ _ hwaits
      by_contra hlisted
      refine hcond ?_
      simp [Option.isSome_iff_ne_none, ← hhead, hlisted, hwaits]
    exact wlp_flushAndConnect hw hbusy sent

/-- `on_process_queries` -/
theorem wlp_onProcessQueries (hw : Working s none [] []) (hflag : s.processQueries = true) :
    onProcessQueries.wlp (fun _ s' => Processed s s') s := by
  refine wlp_step (wlp_loop (R := fun r s' => Calm s s' ∧ Sending s' r.1)
    (fun r s' => Calm s s' ∧ Sending s' r.1) ?_ ⟨.refl s, hflag, [], rfl, hw⟩) ?_
  · rintro ⟨iter, n⟩ s₁ ⟨hcalm, hsending⟩
    refine wlp_mono (wlp_sendQuery hsending n) ?_
    rintro (r | r) s₂ ⟨hcalm₂, hsending₂⟩
    · exact ⟨hcalm.trans hcalm₂, hsending₂⟩
    · exact ⟨hcalm.trans hcalm₂, hsending₂⟩
  · rintro ⟨iter, sent⟩ s₁ ⟨hcalm₁, hsending₁⟩
    refine wlp_step (wlp_flushSpent hsending₁) ?_
    rintro _ s₂ ⟨hcalm₂, hflag₂, spare, hspare, hq₂, hc₂, done, hl₂⟩
    obtain rfl : spare = [] := List.head?_eq_none_iff.mp hspare.symm
    have hcalm := hcalm₁.trans hcalm₂
    have hhead : s₂.conn.head = done.head? := by simpa using hl₂.chain.start_eq
    have hw₃ : Working { s₂ with conn := ⟨s₂.conn.head, none⟩, processQueries := false } none [] done :=
      ⟨hq₂.of_same rfl rfl rfl rfl rfl rfl, hc₂.congr rfl rfl rfl rfl, [],
        hl₂.restart rfl rfl (fun _ => id) rfl⟩
    rw [wlp_modify_bind]
    refine wlp_mono (wlp_afterClear hw₃ hhead sent) ?_
    rintro _ s₃ ⟨hready, hcalm₃⟩
    refine ⟨hready, hcalm₃.config.trans hcalm.config, ?_⟩
    have hmessages : s₃.localMessages + flagNum false = s₂.localMessages + flagNum s₃.processQueries :=
      hcalm₃.messages
    have hbefore := hcalm.messages
    rw [hflag, hflag₂] at hbefore
    rw [show flagNum false = 0 from rfl] at hmessages
    omega

end FrameworkBenchmarks.H2o
