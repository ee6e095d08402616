import FrameworkBenchmarks.H2o.Callbacks

/-!
# Connections that fail

What `on_database_error` and `on_database_connect_error` do to the pool: the queries of the
connection are called back, and the connection is connecting again or gone.
-/

namespace FrameworkBenchmarks.H2o

open Common Scripted Handler

/-- What the callbacks of a connection's socket and timer can be. -/
structure PhaseOk (config : Config) (conn : DbConn) : Prop where
  pollAlone : conn.writeCb = some .pollDatabaseConnection → conn.readCb = none
  quota : conn.established = false → conn.queryNum = config.maxPipelineQueryNum
  timer : conn.established = true → conn.timer ≠ some .onDatabaseConnectTimeout

/-- The allocated connections are accounted for. -/
structure ConnsOk (s : DbConnPool) : Prop where
  fresh : ∀ c, s.nextConn ≤ c → s.conns c = none
  phases : ∀ c conn, s.conns c = some conn → PhaseOk s.config conn
  live : s.liveNum + s.connNum = s.config.maxDbConnNum

/-- The pool between two operations of a handler that has the connection `skip` in hand. -/
structure Working (s : DbConnPool) (skip : Option ℕ) (spare rest : List ℕ) : Prop where
  places : QueriesOk s none []
  conns : ConnsOk s
  listed : ∃ done, Listed s skip spare done rest

/-- If a query waits without a queued task, no connection has quota left. -/
def AllBusy (s : DbConnPool) : Prop :=
  .strandedQueries ∉ s.defects → s.processQueries = false → s.queries.head ≠ none →
    s.conn.head = none

/-- If a query waits without a queued task, no connection has quota left, and some connection is
allocated. -/
structure Served (s : DbConnPool) : Prop where
  busy : AllBusy s
  live : s.processQueries = false → s.queries.head ≠ none → s.connNum ≠ s.config.maxDbConnNum

/-- What is left of a failed connection. -/
structure Failed (s s' : DbConnPool) (spare rest : List ℕ) : Prop where
  working : Working s' none spare rest
  calm : Calm s s'
  empty : s.conn.head = none → s'.conn.head = none
  live : s'.processQueries = false → s'.queries.head ≠ none → s'.connNum ≠ s'.config.maxDbConnNum

variable {s s' : DbConnPool} {skip : Option ℕ} {spare done rest : List ℕ} {c : ℕ} {conn : DbConn}

theorem ConnsOk.congr (h : ConnsOk s) (hconfig : s'.config = s.config) (hconns : s'.conns = s.conns)
    (hnext : s'.nextConn = s.nextConn) (hnum : s'.connNum = s.connNum) : ConnsOk s' where
  fresh := by rw [hconns, hnext]; exact h.fresh
  phases := by rw [hconns, hconfig]; exact h.phases
  live := by rw [DbConnPool.liveNum, hconns, hnext, hnum, hconfig]; exact h.live

/-- An allocated connection has been given an address. -/
theorem ConnsOk.lt_next (h : ConnsOk s) (hconn : s.conns c = some conn) : c < s.nextConn := by
  by_contra hle
  rw [h.fresh c (Nat.le_of_not_lt hle)] at hconn
  cases hconn

/-- As long as a connection is allocated, not all of them are to be had. -/
theorem ConnsOk.connNum_ne (h : ConnsOk s) (hlive : (s.conns c).isSome) :
    s.connNum ≠ s.config.maxDbConnNum := by
  obtain ⟨conn, hconn⟩ := Option.isSome_iff_exists.mp hlive
  have hpos := PartialMap.count_pos (h.lt_next hconn) hlive
  have hcount := h.live
  rw [DbConnPool.liveNum] at hcount
  omega

/-- Writing to an allocated connection. -/
theorem ConnsOk.insert (h : ConnsOk s) (hlive : (s.conns c).isSome) {conn' : DbConn}
    (hphase : PhaseOk s.config conn') (hconfig : s'.config = s.config)
    (hconns : s'.conns = s.conns.insert c conn') (hnext : s'.nextConn = s.nextConn)
    (hnum : s'.connNum = s.connNum) : ConnsOk s' where
  fresh d hd := by
    obtain ⟨conn, hconn⟩ := Option.isSome_iff_exists.mp hlive
    rw [hnext] at hd
    have hne : d ≠ c := fun heq => absurd (h.lt_next hconn) (by omega)
    rw [hconns, PartialMap.insert_of_ne _ _ hne]
    exact h.fresh d hd
  phases d conn hd := by
    rw [hconns] at hd
    rw [hconfig]
    by_cases heq : d = c
    · rw [heq, PartialMap.insert_self] at hd
      exact Option.some.inj hd ▸ hphase
    · rw [PartialMap.insert_of_ne _ _ heq] at hd
      exact h.phases d conn hd
  live := by
    rw [DbConnPool.liveNum, hconns, hnext, hnum, hconfig, PartialMap.count_insert_of_isSome hlive]
    exact h.live

/-- A connection whose attempt has just been started is in order. -/
theorem phaseOk_starting (s : DbConnPool) (reset : Bool) :
    PhaseOk s.config (DbConn.starting s reset) :=
  ⟨fun _ => rfl, fun _ => rfl, fun h => nomatch h⟩

/-- A connection that is gone or not established cannot be in the list. -/
theorem not_listable_of {quota : Bool}
    (h : ∀ conn, s.conns c = some conn → conn.established = false) : ¬ listable s quota c := by
  rintro ⟨conn, hconn, hest, _⟩
  rw [h conn hconn] at hest
  cases hest

/-- A write to a connection that no list looks at. -/
theorem Working.insertConn (h : Working s skip spare rest) (hconn : s.conns c = some conn)
    {conn' : DbConn} (hphase : PhaseOk s.config conn') (hqueries : conn'.queries = conn.queries)
    (hnum : conn'.queryNum = conn.queryNum) (hest : conn'.established = conn.established) :
    Working { s with conns := s.conns.insert c conn' } skip spare rest := by
  obtain ⟨hq, hc, done, hl⟩ := h
  refine ⟨hq.insertConn hconn hqueries hnum,
    hc.insert (Option.isSome_iff_exists.mpr ⟨conn, hconn⟩) hphase rfl rfl rfl rfl, done,
    hl.congr rfl (fun _ _ => rfl) rfl fun d quota _ => ?_⟩
  by_cases heq : d = c
  · subst heq
    rw [listable_iff (PartialMap.insert_self _ _ _), listable_iff hconn, hest, hnum]
  · exact listable_congr (PartialMap.insert_of_ne _ _ heq)

/-- `flush_connection` may register a write callback. -/
theorem Working.wlp_flushConnection (h : Working s skip spare rest) (hconn : s.conns c = some conn)
    {cb : WriteCb} (hcb : cb ≠ .pollDatabaseConnection) :
    (flushConnection cb c).wlp (fun _ s' => Working s' skip spare rest ∧ ∃ writeCb,
      s' = { s with conns := s.conns.insert c { conn with writeCb := writeCb } } ∧
        (writeCb = some .pollDatabaseConnection → conn.writeCb = some .pollDatabaseConnection)) s := by
  have hsame : s.conns.insert c { conn with writeCb := conn.writeCb } = s.conns :=
    PartialMap.insert_eq_self hconn
  refine wlp_pqFlush_bind fun status => ?_
  cases status with
  | failed => exact (wlp_pure _).mpr ⟨h, conn.writeCb, by rw [hsame], id⟩
  | done => exact (wlp_pure _).mpr ⟨h, conn.writeCb, by rw [hsame], id⟩
  | pending =>
    simp only [wlp_modifyConn_bind, wlp_pure]
    intro conn₁ hconn₁
    obtain rfl : conn = conn₁ := Option.some.inj (hconn.symm.trans hconn₁)
    have hphase := h.conns.phases c conn hconn
    split
    · have hcb' : some cb ≠ some .pollDatabaseConnection := fun heq => hcb (Option.some.inj heq)
      have hphase' : PhaseOk s.config { conn with writeCb := some cb } :=
        ⟨fun heq => absurd heq hcb', hphase.quota, hphase.timer⟩
      exact ⟨h.insertConn hconn hphase' rfl rfl rfl, some cb, rfl, fun heq => absurd heq hcb'⟩
    · exact ⟨h.insertConn hconn hphase rfl rfl rfl, conn.writeCb, rfl, id⟩

/-- Freeing the connection in hand and reporting it. -/
theorem wlp_giveUp (timeout : Bool) (errorString : String) (hq : QueriesOk s (some c) [])
    (hc : ConnsOk s) (hl : Listed s (some c) spare done rest) (hlive : (s.conns c).isSome) :
    (do freeConn c; errorNotification timeout errorString : Handler Unit).wlp
      (fun _ s' => Failed s s' spare rest) s := by
  simp only [freeConn, wlp_modify_bind]
  refine wlp_mono (wlp_errorNotification timeout errorString) ?_
  rintro _ s' hback
  have hcalm : Calm s s' :=
    ⟨hback.config, hback.flag, hback.messages, hback.waiting, hback.defects⟩
  have hq' : QueriesOk { s with conns := s.conns.erase c } none [] := by
    refine hq.release (c := c) (fun d hd => (Option.some.inj hd).symm)
      (fun d hd => PartialMap.erase_of_ne _ hd) (fun conn hconn => ?_) (.inl rfl)
      ⟨rfl, rfl, rfl, rfl, rfl⟩
    simp at hconn
  have hconns : s'.conns = s.conns.erase c := hback.conns
  have hnext : s'.nextConn = s.nextConn := hback.nextConn
  have hnum : s'.connNum = s.connNum + 1 := hback.connNum
  have hconfig : s'.config = s.config := hback.config
  refine ⟨⟨hback.places hq', ⟨fun d hd => ?_, fun d conn' hd => ?_, ?_⟩, done, ?_⟩, hcalm,
    fun hnone => hback.conn ▸ hnone, hback.served⟩
  · rw [hnext] at hd
    rw [hconns, PartialMap.erase_apply]
    split
    · rfl
    · exact hc.fresh d hd
  · rw [hconns, PartialMap.erase_apply] at hd
    rw [hconfig]
    split at hd
    · cases hd
    · exact hc.phases d conn' hd
  · obtain ⟨conn, hconn⟩ := Option.isSome_iff_exists.mp hlive
    have hcount := PartialMap.count_erase (hc.lt_next hconn) hlive
    have hold := hc.live
    rw [DbConnPool.liveNum] at hold
    rw [DbConnPool.liveNum, hconns, hnext, hnum, hconfig]
    omega
  · refine hl.putDown hback.conn (fun d _ => by rw [hback.connNext]) hback.sameDefects
      (fun d hd => by rw [hconns, PartialMap.erase_of_ne _ hd]) (not_listable_of ?_)
    rw [hconns]
    intro conn hconn
    simp at hconn

/-- `remove_connection` takes the connection in hand. -/
theorem wlp_removeConnection (hl : Listed s skip spare done rest) (hskip : ∀ d, skip = some d → d = c)
    (hspare : c ∉ spare) (hrest : rest = [] ∨ c ∉ done ++ rest) :
    (removeConnection c).wlp (fun _ s' => ∃ conn connNext defects,
      s' = { s with conn := conn, connNext := connNext, defects := defects } ∧
        (∀ d ∈ s.defects, d ∈ defects) ∧ (s.conn.head = none → conn = s.conn) ∧
        ∃ done', Listed s' (some c) spare done' rest) s := by
  simp only [removeConnection, wlp_get_bind, wlp_need_bind]
  intro found hfind
  rcases findPrev_spec hl.chain hfind with ⟨rfl, hout⟩ | ⟨l₁, l₂, hsplit, rfl⟩
  · simp only [wlp_pure]
    exact ⟨s.conn, s.connNext, s.defects, rfl, fun _ => id, fun _ => rfl, done,
      hl.take hskip hout hspare⟩
  · obtain rfl : rest = [] := hrest.resolve_right fun hout => hout (by simp [hsplit])
    rw [List.append_nil] at hsplit
    subst hsplit
    have hnonempty : s.conn.head ≠ none := fun hnone => by
      have := hl.eq_nil_iff.mpr hnone
      simp at this
    have hunlinked := hl.unlink hskip hspare
    simp only [Option.or_none, noteIf, wlp_modify_bind, wlp_get_bind, wlp_modify]
    obtain ⟨conn, connNext, hform⟩ := unlink_eq s c l₁.getLast?
    rw [hform] at hunlinked ⊢
    dsimp only at hunlinked ⊢
    split
    · rename_i hcond
      rw [if_pos hcond] at hunlinked
      exact ⟨conn, connNext, .tornTail :: s.defects, rfl, fun d hd => List.mem_cons_of_mem _ hd,
        fun hnone => absurd hnone hnonempty, l₁ ++ l₂, hunlinked⟩
    · rename_i hcond
      rw [if_neg hcond] at hunlinked
      exact ⟨conn, connNext, s.defects, rfl, fun _ => id, fun hnone => absurd hnone hnonempty,
        l₁ ++ l₂, hunlinked⟩

/-- A socket for a connection whose attempt has been started, or none. -/
theorem wlp_startPolling (reset : Bool) (hq : QueriesOk s (some c) []) (hc : ConnsOk s)
    (hl : Listed s (some c) spare done rest) (hlive : (s.conns c).isSome) :
    (startPolling c reset).wlp (fun _ s' => Failed s s' spare rest) s := by
  refine wlp_call_bind fun ok => ?_
  split
  · rw [wlp_modify]
    refine ⟨⟨hq.release (c := c) (fun d hd => (Option.some.inj hd).symm)
      (fun d hd => PartialMap.insert_of_ne _ _ hd) (fun conn hconn => ?_) (.inl rfl)
      ⟨rfl, rfl, rfl, rfl, rfl⟩, hc.insert hlive (phaseOk_starting s reset) rfl rfl rfl rfl, done,
      hl.putDown rfl (fun _ _ => rfl) rfl (fun d hd => PartialMap.insert_of_ne _ _ hd)
        (not_listable_of fun conn hconn => ?_)⟩, .of_same rfl rfl rfl rfl fun _ => id, id,
      fun _ _ => hc.connNum_ne hlive⟩
    all_goals
      obtain rfl : DbConn.starting s reset = conn := by simpa using hconn
    · exact ⟨rfl, rfl⟩
    · rfl
  · exact wlp_giveUp false DB_ERROR hq hc hl hlive

/-- `start_database_connect` on a connection that has failed. -/
theorem wlp_resetDatabaseConnect (hq : QueriesOk s (some c) []) (hc : ConnsOk s)
    (hl : Listed s (some c) spare done rest) (hlive : (s.conns c).isSome) :
    (resetDatabaseConnect c).wlp (fun _ s' => Failed s s' spare rest) s := by
  refine wlp_call_bind fun ok => ?_
  split
  · rw [wlp_modify_bind]
    obtain ⟨hout, hspare⟩ := hl.skipped c rfl
    have hl' : Listed { s with connNext := Function.update s.connNext c none } (some c) spare done
        rest := by
      refine hl.congr rfl (fun d hd => Function.update_of_ne ?_ _ _) rfl fun _ _ _ => .rfl
      rintro rfl
      exact (List.mem_append.mp hd).elim hout hspare
    have hq' : QueriesOk { s with connNext := Function.update s.connNext c none } (some c) [] :=
      hq.of_same rfl rfl rfl rfl rfl rfl
    refine wlp_mono (wlp_startPolling true hq' (hc.congr rfl rfl rfl rfl) hl' hlive) ?_
    rintro _ s' ⟨hw, hcalm, hempty, hserved⟩
    exact ⟨hw, ⟨hcalm.config, hcalm.flag, hcalm.messages, hcalm.waiting, hcalm.defects⟩, hempty,
      hserved⟩
  · exact wlp_giveUp false DB_ERROR hq hc hl hlive

/-- `start_database_connect` for a new connection. -/
theorem wlp_newDatabaseConnect (hw : Working s none spare rest) (hnum : s.connNum ≠ 0) :
    newDatabaseConnect.wlp (fun _ s' => Failed s s' spare rest) s := by
  simp only [newDatabaseConnect, wlp_get_bind, wlp_modify_bind]
  obtain ⟨hq, hc, done, hl⟩ := hw
  set c := s.nextConn with hcdef
  set s₁ : DbConnPool :=
    { s with
      connNum := s.connNum - 1
      nextConn := c + 1
      conns := s.conns.insert c (DbConn.starting s false)
      connNext := Function.update s.connNext c none } with hs₁
  have hfresh : s.conns c = none := hc.fresh c (Nat.le_refl c)
  have hout : c ∉ done ++ rest ∧ c ∉ spare := by
    constructor
    · intro hmem
      obtain ⟨conn, hconn, -⟩ := hl.members c hmem
      simp [hfresh] at hconn
    · intro hmem
      obtain ⟨conn, hconn, -⟩ := hl.spareMembers c hmem
      simp [hfresh] at hconn
  have hlive : (s₁.conns c).isSome := by simp [hs₁]
  have hq₁ : QueriesOk s₁ (some c) [] := by
    have hreleased : QueriesOk s₁ none [] := by
      refine hq.release (c := c) (fun d hd => (by cases hd)) (fun d hd => PartialMap.insert_of_ne _ _ hd)
        (fun conn hconn => ?_) (.inr (.inl hfresh)) ⟨rfl, rfl, rfl, rfl, rfl⟩
      obtain rfl : DbConn.starting s false = conn := by simpa [hs₁] using hconn
      exact ⟨rfl, rfl⟩
    have hself : s₁.conns c = some (DbConn.starting s false) := PartialMap.insert_self _ _ _
    obtain ⟨hand, hchain, hq', -, -⟩ := hreleased.detachFlight hself
    obtain rfl := hchain.eq_nil_iff.mpr rfl
    exact hq'
  have hc₁ : ConnsOk s₁ := by
    refine ⟨fun d hd => ?_, fun d conn hd => ?_, ?_⟩
    · have hne : d ≠ c := fun heq => by
        have : c + 1 ≤ d := hd
        omega
      exact (PartialMap.insert_of_ne _ _ hne).trans (hc.fresh d (Nat.le_of_succ_le hd))
    · by_cases heq : d = c
      · obtain rfl : DbConn.starting s false = conn := by simpa [hs₁, heq] using hd
        exact phaseOk_starting s false
      · exact hc.phases d conn ((PartialMap.insert_of_ne _ _ heq).symm.trans hd)
    · have hcount : s₁.liveNum = s.liveNum + 1 := PartialMap.count_insert_next
      have hold := hc.live
      have hnum₁ : s₁.connNum = s.connNum - 1 := rfl
      have hconfig : s₁.config = s.config := rfl
      rw [hcount, hnum₁, hconfig]
      omega
  have hl₁ : Listed s₁ (some c) spare done rest := by
    refine (hl.take (fun d hd => (by cases hd)) hout.1 hout.2).congr rfl
      (fun d hd => Function.update_of_ne ?_ _ _) rfl fun d quota hd =>
        listable_congr (PartialMap.insert_of_ne _ _ fun heq => hd (by rw [heq]))
    rintro rfl
    exact (List.mem_append.mp hd).elim hout.1 hout.2
  have hback : ∀ s', Failed s₁ s' spare rest → Failed s s' spare rest := by
    rintro s' ⟨hw, hcalm, hempty, hserved⟩
    exact ⟨hw, ⟨hcalm.config, hcalm.flag, hcalm.messages, hcalm.waiting, hcalm.defects⟩, hempty,
      hserved⟩
  refine wlp_call_bind fun started => ?_
  split
  · exact wlp_mono (wlp_giveUp false DB_ERROR hq₁ hc₁ hl₁ hlive) fun _ s' => hback s'
  · refine wlp_call_bind fun good => ?_
    split
    · exact wlp_mono (wlp_giveUp false DB_ERROR hq₁ hc₁ hl₁ hlive) fun _ s' => hback s'
    · exact wlp_mono (wlp_startPolling false hq₁ hc₁ hl₁ hlive) fun _ s' => hback s'

/-- Only the list of the connection in hand and what callbacks reach have changed. -/
structure OnlyQueries (c : ℕ) (s s' : DbConnPool) : Prop extends Calm s s' where
  conn : s'.conn = s.conn
  connNum : s'.connNum = s.connNum
  connNext : s'.connNext = s.connNext
  nextConn : s'.nextConn = s.nextConn
  sameDefects : s'.defects = s.defects
  conns : ∃ conn queries, s.conns c = some conn ∧
    s'.conns = s.conns.insert c { conn with queries := queries }

/-- The queries of the connection in hand are those in hand. -/
def Holds (s : DbConnPool) (c : ℕ) (hand : List ℕ) : Prop :=
  ∃ conn, s.conns c = some conn ∧ Chain s.paramNext conn.queries.head hand ∧
    QueriesOk s (some c) hand

/-- One query off the list of the connection in hand, and its callback. -/
theorem wlp_popAndNotify {p : ℕ} (how : Terminal) (hconn : s.conns c = some conn)
    (hhead : conn.queries.head = some p) {hand : List ℕ} (hheld : Holds s c hand) :
    (notify p how).wlp (fun _ s' => OnlyQueries c s s' ∧ ∃ hand', Holds s' c hand')
      { s with
        conns := s.conns.insert c { conn with queries := ⟨s.paramNext p, conn.queries.tail⟩ } } := by
  refine wlp_mono (wlp_notify p how) ?_
  rintro _ s' ⟨hsub, hnotified⟩
  obtain ⟨conn', hconn', hchain, hq⟩ := hheld
  obtain rfl : conn = conn' := Option.some.inj (hconn.symm.trans hconn')
  rw [hhead] at hchain
  obtain ⟨rest, rfl, hrest⟩ := hchain.exists_cons
  have hcalm := hsub.toCalm
  refine ⟨⟨⟨hcalm.config, hcalm.flag, hcalm.messages, hcalm.waiting, hcalm.defects⟩, hsub.conn,
    hsub.connNum, hsub.connNext, hsub.nextConn, hsub.sameDefects, conn, _, hconn, hsub.conns⟩, rest, ?_⟩
  have hq' : QueriesOk
      { s with
        conns := s.conns.insert c { conn with queries := ⟨s.paramNext p, conn.queries.tail⟩ } }
      (some c) (p :: rest) := by
    refine hq.congr rfl rfl rfl rfl rfl (fun d conn' hd => ?_) fun d hd => ?_
    · by_cases heq : d = c
      · exact ⟨conn, heq ▸ hconn, fun hskip => absurd (by rw [heq]) hskip⟩
      · exact ⟨conn', (PartialMap.insert_of_ne _ _ heq).symm.trans hd, fun _ => ⟨rfl, rfl⟩⟩
    · by_cases heq : d = c
      · exact .inr (by rw [heq])
      · exact .inl ((PartialMap.insert_of_ne _ _ heq).symm.trans hd)
  obtain ⟨hq'', hlinks⟩ := hnotified (some c) rest hq'
  refine ⟨{ conn with queries := ⟨s.paramNext p, conn.queries.tail⟩ }, ?_, hrest.congr hlinks, hq''⟩
  rw [hsub.conns]
  exact PartialMap.insert_self _ _ _

theorem OnlyQueries.trans {s'' : DbConnPool} (h : OnlyQueries c s s') (h' : OnlyQueries c s' s'') :
    OnlyQueries c s s'' where
  toCalm := h.toCalm.trans h'.toCalm
  conn := h'.conn.trans h.conn
  connNum := h'.connNum.trans h.connNum
  connNext := h'.connNext.trans h.connNext
  nextConn := h'.nextConn.trans h.nextConn
  sameDefects := h'.sameDefects.trans h.sameDefects
  conns := by
    obtain ⟨conn, queries, hconn, hconns⟩ := h.conns
    obtain ⟨conn', queries', hconn', hconns'⟩ := h'.conns
    rw [hconns, PartialMap.insert_self, Option.some.injEq] at hconn'
    subst hconn'
    exact ⟨conn, queries', hconn, by rw [hconns', hconns, PartialMap.insert_insert]⟩

theorem OnlyQueries.refl (hconn : s.conns c = some conn) : OnlyQueries c s s :=
  ⟨.refl s, rfl, rfl, rfl, rfl, rfl, conn, conn.queries, hconn, (PartialMap.insert_eq_self hconn).symm⟩

/-- The loop of `on_database_error` leaves no query in hand. -/
theorem wlp_failQueries (errorString : String) {hand : List ℕ} (hheld : Holds s c hand) :
    (failQueries c errorString).wlp (fun _ s' => OnlyQueries c s s' ∧ QueriesOk s' (some c) []) s := by
  obtain ⟨conn, hconn, -, -⟩ := id hheld
  refine wlp_loop (fun _ s' => OnlyQueries c s s' ∧ ∃ hand', Holds s' c hand') ?_
    ⟨.refl hconn, hand, hheld⟩
  rintro _ s₁ ⟨honly, hand₁, hheld₁⟩
  simp only [wlp_getConn_bind]
  intro conn₁ hconn₁
  cases hhead : conn₁.queries.head with
  | none =>
    rw [wlp_pure]
    obtain ⟨conn', hconn', hchain, hq⟩ := hheld₁
    obtain rfl : conn₁ = conn' := Option.some.inj (hconn₁.symm.trans hconn')
    rw [hhead] at hchain
    obtain rfl := hchain.eq_nil_iff.mpr rfl
    exact ⟨honly, hq⟩
  | some p =>
    simp only [wlp_get_bind, wlp_modifyConn_bind]
    intro conn' hconn'
    obtain rfl : conn₁ = conn' := Option.some.inj (hconn₁.symm.trans hconn')
    refine wlp_step (wlp_popAndNotify (.onError errorString) hconn₁ hhead hheld₁) ?_
    rintro _ s₂ ⟨honly', hheld₂⟩
    rw [wlp_pure]
    exact ⟨honly.trans honly', hheld₂⟩

/-- A connection in order holds the queries in flight on it. -/
theorem Working.holds (h : QueriesOk s none []) (hconn : s.conns c = some conn) :
    ∃ hand, Holds s c hand := by
  obtain ⟨hand, hchain, hq, -, -⟩ := h.detachFlight hconn
  exact ⟨hand, conn, hconn, hchain, hq⟩

/-- The connection in hand keeps its phase. -/
theorem ConnsOk.of_onlyQueries (hc : ConnsOk s) (h : OnlyQueries c s s') : ConnsOk s' := by
  obtain ⟨conn, queries, hconn, hconns⟩ := h.conns
  have hphase := hc.phases c conn hconn
  have hphase' : PhaseOk s.config { conn with queries := queries } :=
    ⟨hphase.pollAlone, hphase.quota, hphase.timer⟩
  exact hc.insert (Option.isSome_iff_exists.mpr ⟨conn, hconn⟩) hphase' h.config hconns h.nextConn
    h.connNum

/-- So does the list, as it does not look at queries. -/
theorem Listed.of_onlyQueries (hl : Listed s skip spare done rest) (h : OnlyQueries c s s') :
    Listed s' skip spare done rest := by
  obtain ⟨conn, queries, hconn, hconns⟩ := h.conns
  refine hl.congr h.conn (fun _ _ => by rw [h.connNext]) h.sameDefects fun d quota _ => ?_
  by_cases heq : d = c
  · subst heq
    have hself : s'.conns d = some { conn with queries := queries } := by
      rw [hconns, PartialMap.insert_self]
    rw [listable_iff hself, listable_iff hconn]
    exact .rfl
  · exact listable_congr (by rw [hconns, PartialMap.insert_of_ne _ _ heq])

/-- `on_database_error` -/
theorem wlp_onDatabaseError (errorString : String) {hand : List ℕ} (hheld : Holds s c hand)
    (hc : ConnsOk s) (hl : Listed s skip spare done rest) (hskip : ∀ d, skip = some d → d = c)
    (hspare : c ∉ spare) (hrest : rest = [] ∨ c ∉ done ++ rest) :
    (onDatabaseError c errorString).wlp (fun _ s' => Failed s s' spare rest) s := by
  refine wlp_step (wlp_removeConnection hl hskip hspare hrest) ?_
  rintro _ s₁ ⟨conn₁, connNext₁, defects₁, hs₁, hdefects, hsame, done₁, hl₁⟩
  have hheld₁ : Holds s₁ c hand := by
    obtain ⟨conn, hconn, hchain, hq⟩ := hheld
    subst hs₁
    exact ⟨conn, hconn, hchain, hq.of_same rfl rfl rfl rfl rfl rfl⟩
  have hc₁ : ConnsOk s₁ := hs₁ ▸ hc.congr rfl rfl rfl rfl
  have hcalm₁ : Calm s s₁ := hs₁ ▸ .of_same rfl rfl rfl rfl hdefects
  have hempty₁ : s.conn.head = none → s₁.conn.head = none := fun hnone => by
    rw [hs₁, hsame hnone, hnone]
  refine wlp_step (wlp_failQueries errorString hheld₁) ?_
  rintro _ s₂ ⟨honly, hq₂⟩
  have hlive : (s₂.conns c).isSome := by
    obtain ⟨conn, queries, -, hconns⟩ := honly.conns
    rw [hconns, PartialMap.insert_self]
    rfl
  refine wlp_mono (wlp_resetDatabaseConnect hq₂ (hc₁.of_onlyQueries honly) (hl₁.of_onlyQueries honly)
    hlive) ?_
  rintro _ s₃ ⟨hw, hcalm, hempty, hserved⟩
  exact ⟨hw, hcalm₁.trans (honly.toCalm.trans hcalm),
    fun hnone => hempty (honly.conn ▸ hempty₁ hnone), hserved⟩

/-- The waiting queries stay behind busy connections as long as none is appended. -/
theorem AllBusy.of_calm (h : AllBusy s) (hcalm : Calm s s')
    (hempty : s.conn.head = none → s'.conn.head = none) : AllBusy s' := by
  intro hstranded hflag hhead
  exact hempty (h (fun hmem => hstranded (hcalm.defects _ hmem)) (hcalm.flag_false hflag)
    (hcalm.waiting hflag hhead))

/-- A failed connection leaves the waiting queries served. -/
theorem Served.of_failed (h : Served s) (hfailed : Failed s s' spare rest) : Served s' where
  busy := h.busy.of_calm hfailed.calm hfailed.empty
  live := hfailed.live

end FrameworkBenchmarks.H2o
