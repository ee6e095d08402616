import FrameworkBenchmarks.H2o.PoolSteps
import Mathlib.Data.List.Nodup

/-!
# Runs of the pool

What holds between any two events of a run: where the queries are, what the list of connections is,
and who will pick up a waiting query; and for each of them the run that breaks it.
-/

namespace FrameworkBenchmarks.H2o

open Common

/-- The runs of a new pool in which the write callback of the connecting phase never fails on an
established connection. -/
abbrev PoolRun (config : Config) (preparedStatements : ℕ) :
    List (Event × List Reply) → DbConnPool → Prop :=
  GuardedRun DbConnPool.next (fun s label => noStaleFailure s label = true)
    (.initializeDatabaseConnectionPool config preparedStatements)

variable {config : Config} {preparedStatements : ℕ} {labels : List (Event × List Reply)}
  {s : DbConnPool}

theorem PoolRun.poolOk (hrun : PoolRun config preparedStatements labels s) : PoolOk s :=
  hrun.invariant (fun _ _ _ hok hguard hnext => hok.step hguard hnext)
    (poolOk_initial config preparedStatements)

section Conservation

/-- The query is once in one of the lists, and nowhere else. -/
def InOnePlace (waiting : List ℕ) (flight : ℕ → List ℕ) (p : ℕ) : Prop :=
  (waiting.count p = 1 ∧ ∀ c, p ∉ flight c) ∨
    (p ∉ waiting ∧ ∃ c, (flight c).count p = 1 ∧ ∀ d, d ≠ c → p ∉ flight d)

/-- The lists of queries that are in memory are the given ones, and between them they hold the
outstanding queries. -/
structure Conserved (s : DbConnPool) (waiting : List ℕ) (flight : ℕ → List ℕ) : Prop where
  waitingList : Represents s.paramNext s.queries waiting
  flightList : ∀ c conn, s.conns c = some conn → Represents s.paramNext conn.queries (flight c)
  noFlight : ∀ c, s.conns c = none → flight c = []
  outstanding : ∀ p, s.outstanding p = true → InOnePlace waiting flight p
  settled : ∀ p, s.outstanding p = false → p ∉ waiting ∧ ∀ c, p ∉ flight c
  poolCount : s.queryNum + waiting.length = s.config.maxQueryNum
  connCount : ∀ c conn, s.conns c = some conn →
    conn.queryNum + (flight c).length = s.config.maxPipelineQueryNum
  /-- no query is called back unless it is outstanding -/
  history : ∀ p, lifecycle s.trace p ≠ none

/-- The queries of a pool that is in order. -/
theorem Placed.conserved {waiting : List ℕ} {flight : ℕ → List ℕ} {place : ℕ → Place}
    (h : Placed s none [] waiting flight place) : Conserved s waiting flight where
  waitingList := h.waitingList
  flightList c conn hconn := (h.flightList c conn hconn (by simp)).1
  noFlight c hnone := h.noFlight c (.inl hnone)
  outstanding p hout := by
    have hsome := (h.outstanding_iff p).mp hout
    cases hplace : place p with
    | nowhere => exact absurd hplace hsome
    | waiting =>
      refine .inl ⟨List.count_eq_one_of_mem h.nodupWaiting ((h.memWaiting p).mpr hplace), fun c hc => ?_⟩
      rw [h.memFlight, hplace] at hc
      cases hc
    | inFlight c =>
      refine .inr ⟨fun hp => ?_, c,
        List.count_eq_one_of_mem (h.nodupFlight c) ((h.memFlight c p).mpr hplace), fun d hd hp => ?_⟩
      · rw [h.memWaiting, hplace] at hp
        cases hp
      · rw [h.memFlight, hplace, Place.inFlight.injEq] at hp
        exact hd hp.symm
    | detached =>
      have hp := (h.memHand p).mpr hplace
      cases hp
  settled p hout := by
    have hnowhere : place p = .nowhere := by
      by_contra hne
      rw [(h.outstanding_iff p).mpr hne] at hout
      cases hout
    refine ⟨fun hp => ?_, fun c hp => ?_⟩
    · rw [h.memWaiting, hnowhere] at hp
      cases hp
    · rw [h.memFlight, hnowhere] at hp
      cases hp
  poolCount := h.poolCount
  connCount c conn hconn := (h.flightList c conn hconn (by simp)).2
  history p := by simp [h.traced p]

/-- Between two events every outstanding query is in exactly one list, the counters count them, and
no query got a callback while it was not outstanding. -/
theorem queries_conserved (hrun : PoolRun config preparedStatements labels s) :
    ∃ waiting flight, Conserved s waiting flight := by
  obtain ⟨waiting, flight, place, hp⟩ := hrun.poolOk.ready.working.places
  exact ⟨waiting, flight, hp.conserved⟩

/-- One connection that takes two queries at a time. -/
def oneConnection : Config where
  maxDbConnNum := 1
  maxPipelineQueryNum := 2
  maxQueryNum := 2
  maxDbConnNum_pos := by decide
  maxPipelineQueryNum_pos := by decide
  maxQueryNum_pos := by decide

/-- A query is submitted, a connection is made for it, and the query is sent; the write callback that
was registered for the prepared statements is still pending then. -/
def sendOnFreshConnection : List (Event × List Reply) :=
  [(.submit 7, []),
    (.task, [.call true, .call true, .call true]),
    (.writeReady 0 none, [.poll .ok false, .call true, .call true, .call true, .call true,
      .flush .pending]),
    (.readReady 0 none, [.call true, .flush .done, .isBusy false, .result (some .commandOk),
      .isBusy true]),
    (.readReady 0 none, [.call true, .flush .done, .isBusy false, .result none, .isBusy false,
      .result (some .pipelineSync)]),
    (.task, [.call true, .call true, .flush .pending])]

/-- The query is then in flight on the connection. -/
theorem queries_conserved_sent : ∃ s, PoolRun oneConnection 1 sendOnFreshConnection s ∧
    s.outstanding 7 = true ∧ s.queries.head = none ∧ ∃ waiting flight, Conserved s waiting flight := by
  obtain ⟨s, hrun, hout, hhead⟩ : ∃ s, PoolRun oneConnection 1 sendOnFreshConnection s ∧
      s.outstanding 7 = true ∧ s.queries.head = none :=
    exists_guardedRun_of_exec (by decide +kernel)
  exact ⟨s, hrun, hout, hhead, queries_conserved hrun⟩

/-- If the pending write fails, the connection is freed without a callback of its query: the query is
outstanding for ever, and in no list. -/
theorem query_lost : ∃ s,
    Run DbConnPool.next (.initializeDatabaseConnectionPool oneConnection 1)
      (sendOnFreshConnection ++ [(.writeReady 0 none, [.flush .failed])]) s ∧
    s.outstanding 7 = true ∧ s.queries.head = none ∧ (∀ c, s.conns c = none) ∧
    ¬ ∃ waiting flight, Conserved s waiting flight := by
  obtain ⟨s, hs⟩ : ∃ s, exec DbConnPool.next (.initializeDatabaseConnectionPool oneConnection 1)
      (sendOnFreshConnection ++ [(.writeReady 0 none, [.flush .failed])]) = some s := ⟨_, rfl⟩
  have hout : s.outstanding 7 = true := by
    rw [← Option.some.inj hs]
    rfl
  have hhead : s.queries.head = none := by
    rw [← Option.some.inj hs]
    rfl
  have hgone : ∀ c, s.conns c = none := by
    rw [← Option.some.inj hs]
    intro c
    cases c <;> rfl
  refine ⟨s, run_of_exec hs, hout, hhead, hgone, ?_⟩
  rintro ⟨waiting, flight, h⟩
  rcases h.outstanding 7 hout with ⟨hcount, -⟩ | ⟨-, c, hcount, -⟩
  · rw [h.waitingList.chain.eq_nil_iff.mpr hhead] at hcount
    cases hcount
  · rw [h.noFlight c (hgone c)] at hcount
    cases hcount

end Conservation

section ConnectionList

/-- The list of the pool is the given one, ended by its tail, and holds the established connections
with quota left. -/
structure ListsConns (s : DbConnPool) (l : List ℕ) : Prop where
  represents : Represents s.connNext s.conn l
  nodup : l.Nodup
  members : ∀ c, c ∈ l ↔ ∃ conn, s.conns c = some conn ∧ conn.established = true ∧ 0 < conn.queryNum

/-- The connections that are connecting or established and those that may still be made add up. -/
def CountsConns (s : DbConnPool) : Prop :=
  ∃ live : Finset ℕ, (∀ c, c ∈ live ↔ (s.conns c).isSome) ∧
    live.card + s.connNum = s.config.maxDbConnNum

/-- As long as `remove_connection` has never unlinked the last of several nodes, the list holds the
connections that can take a query, each once, and its tail is at its end. -/
theorem connections_listed (hrun : PoolRun config preparedStatements labels s)
    (htorn : .tornTail ∉ s.defects) : (∃ l, ListsConns s l) ∧ CountsConns s := by
  obtain ⟨-, hc, done, hl⟩ := hrun.poolOk.ready.working
  constructor
  · have htail := hl.tail.resolve_right fun hlost => htorn hlost.2.1
    have hquota (conn : DbConn) : decide (conn.queryNum ≠ 0) = true ↔ 0 < conn.queryNum := by
      simp [Nat.pos_iff_ne_zero]
    have hmembers := hl.members
    have hcomplete := hl.complete htorn
    have hchain := hl.chain
    have hnodup := hl.nodup
    simp only [List.append_nil] at hmembers hcomplete hchain hnodup
    refine ⟨done, ⟨hchain, htail⟩, hnodup, fun c => ⟨fun hmem => ?_, ?_⟩⟩
    · obtain ⟨conn, hconn, hest, hnum⟩ := hmembers c hmem
      exact ⟨conn, hconn, hest, (hquota conn).mp hnum⟩
    · rintro ⟨conn, hconn, hest, hnum⟩
      exact hcomplete c (by simp) ⟨conn, hconn, hest, (hquota conn).mpr hnum⟩
  · obtain ⟨live, hlive, hcard⟩ := PartialMap.exists_finset hc.fresh
    exact ⟨live, hlive, hcard ▸ hc.live⟩

/-- Two connections that take one query at a time. -/
def twoConnections : Config where
  maxDbConnNum := 2
  maxPipelineQueryNum := 1
  maxQueryNum := 2
  maxDbConnNum_pos := by decide
  maxPipelineQueryNum_pos := by decide
  maxQueryNum_pos := by decide

/-- What the environment answers when a connection without prepared statements is established. -/
def connected : List Reply := [.poll .ok false, .call true, .call true]

/-- Two queries are submitted, and two connections are made for them. -/
def establishTwo : List (Event × List Reply) :=
  [(.submit 1, []), (.submit 2, []),
    (.task, [.call true, .call true, .call true, .call true, .call true, .call true]),
    (.writeReady 0 none, connected), (.writeReady 1 none, connected)]

/-- Both connections are then in the list. -/
theorem connections_listed_two : ∃ s, PoolRun twoConnections 0 establishTwo s ∧
    s.conn.head = some 0 ∧ s.conn.tail = some 1 ∧ (∃ l, ListsConns s l) ∧ CountsConns s := by
  obtain ⟨s, hrun, hhead, htail, hdefects⟩ : ∃ s, PoolRun twoConnections 0 establishTwo s ∧
      s.conn.head = some 0 ∧ s.conn.tail = some 1 ∧ s.defects = [] :=
    exists_guardedRun_of_exec (by decide +kernel)
  exact ⟨s, hrun, hhead, htail, connections_listed hrun (by simp [hdefects])⟩

/-- If the second of them fails, it is unlinked, and the tail still names it. -/
theorem tail_torn : ∃ s,
    Run DbConnPool.next (.initializeDatabaseConnectionPool twoConnections 0)
      (establishTwo ++ [(.readReady 1 (some "reset"), [.call true, .call true])]) s ∧
    s.conn.head = some 0 ∧ s.connNext 0 = none ∧ s.conn.tail = some 1 ∧ ¬ ∃ l, ListsConns s l := by
  obtain ⟨s, hrun, hhead, hnext, htail⟩ : ∃ s, Run DbConnPool.next (.initializeDatabaseConnectionPool twoConnections 0)
      (establishTwo ++ [(.readReady 1 (some "reset"), [.call true, .call true])]) s ∧
      s.conn.head = some 0 ∧ s.connNext 0 = none ∧ s.conn.tail = some 1 :=
    exists_run_of_exec (by decide +kernel)
  refine ⟨s, hrun, hhead, hnext, htail, ?_⟩
  rintro ⟨l, hl⟩
  have hchain : Chain s.connNext s.conn.head [0] := ⟨hhead, hnext⟩
  have hlast := hl.represents.tail
  rw [hl.represents.chain.unique hchain, htail] at hlast
  cases hlast

end ConnectionList

section Progress

/-- Something will pick up the waiting queries: the task is queued, a connection is being made, or one
has queries in flight. -/
def InProgress (s : DbConnPool) : Prop :=
  (s.processQueries = true ∧ 0 < s.localMessages) ∨
    (∃ c conn, s.conns c = some conn ∧ conn.established = false) ∨
    ∃ c conn, s.conns c = some conn ∧ conn.queries.head ≠ none

/-- As long as the task has not cleared its flag over a waiting query and a listed connection, and
the list has not lost its tail, no query is left waiting for nothing. -/
theorem waiting_inProgress (hrun : PoolRun config preparedStatements labels s)
    (htorn : .tornTail ∉ s.defects) (hstranded : .strandedQueries ∉ s.defects)
    (hwaits : s.queries.head ≠ none) : InProgress s := by
  obtain ⟨⟨⟨hq, hc, done, hl⟩, hserved⟩, hmessages⟩ := hrun.poolOk
  cases hflag : s.processQueries with
  | true =>
    rw [hflag] at hmessages
    exact .inl ⟨hflag, by rw [hmessages]; exact Nat.one_pos⟩
  | false =>
    have hempty := hl.eq_nil_iff.mpr (hserved.busy hstranded hflag hwaits)
    have hsome := hserved.live hflag hwaits
    have hpos : 0 < s.conns.count s.nextConn := by
      have hlive := hc.live
      rw [DbConnPool.liveNum] at hlive
      omega
    obtain ⟨c, -, hsome⟩ := PartialMap.exists_of_count_pos hpos
    obtain ⟨conn, hconn⟩ := Option.isSome_iff_exists.mp hsome
    cases hest : conn.established with
    | false => exact .inr (.inl ⟨c, conn, hconn, hest⟩)
    | true =>
      refine .inr (.inr ⟨c, conn, hconn, fun hnone => ?_⟩)
      -- an established connection that is not listed has its whole quota in flight
      have hzero : conn.queryNum = 0 := by
        by_contra hnum
        have hmem := hl.complete htorn c (by simp) ⟨conn, hconn, hest, by simpa using hnum⟩
        rw [hempty] at hmem
        cases hmem
      obtain ⟨hand, hchain, -, -, hcount⟩ := hq.detachFlight hconn
      rw [hchain.eq_nil_iff.mpr hnone, hzero] at hcount
      exact absurd hcount.symm (Nat.pos_iff_ne_zero.mp s.config.maxPipelineQueryNum_pos)

/-- What the environment answers when the only query in flight gets its result. -/
def answered : List Reply :=
  [.call true, .flush .done, .isBusy false, .result (some .other), .callback [] .done,
    .isBusy false, .result none, .isBusy false, .result (some .pipelineSync), .isBusy false,
    .result none]

/-- Both connections have answered a query, and another one is submitted. -/
def submitToIdle : List (Event × List Reply) :=
  establishTwo ++
    [(.task, [.call true, .call true, .call true, .call true, .flush .done, .flush .done]),
      (.readReady 0 none, answered), (.readReady 1 none, answered), (.submit 3, [])]

/-- The task is queued for it. -/
theorem waiting_inProgress_submitted : ∃ s, PoolRun twoConnections 0 submitToIdle s ∧
    s.queries.head = some 3 ∧ InProgress s := by
  obtain ⟨s, hrun, hhead, hdefects⟩ : ∃ s, PoolRun twoConnections 0 submitToIdle s ∧
      s.queries.head = some 3 ∧ s.defects = [] :=
    exists_guardedRun_of_exec (by decide +kernel)
  exact ⟨s, hrun, hhead,
    waiting_inProgress hrun (by simp [hdefects]) (by simp [hdefects]) (by simp [hhead])⟩

/-- The connection is established and has no query in flight. -/
def DbConn.idle (conn : DbConn) : Bool := conn.established && conn.queries.head.isNone

/-- If the connection it was sent on cannot be flushed and its callback submits another query, that
query finds the flag set, and once the flag is cleared it waits beside an idle connection. -/
theorem query_stalled : ∃ s,
    PoolRun twoConnections 0
      (submitToIdle ++ [(.task, [.call true, .call true, .flush .failed, .callback [4] .done,
        .call false, .flush .done, .call false])]) s ∧
    s.queries.head = some 4 ∧ s.processQueries = false ∧ .tornTail ∉ s.defects ∧ ¬ InProgress s := by
  obtain ⟨s, hrun, hhead, hflag, htorn, hidle⟩ : ∃ s, PoolRun twoConnections 0
      (submitToIdle ++ [(.task, [.call true, .call true, .flush .failed, .callback [4] .done,
        .call false, .flush .done, .call false])]) s ∧
      s.queries.head = some 4 ∧ s.processQueries = false ∧ .tornTail ∉ s.defects ∧
      ∀ c < s.nextConn, (s.conns c).all DbConn.idle = true :=
    exists_guardedRun_of_exec (by decide +kernel)
  have hallIdle {c : ℕ} {conn : DbConn} (hconn : s.conns c = some conn) :
      conn.established = true ∧ conn.queries.head = none := by
    have hall := hidle c (hrun.poolOk.ready.working.conns.lt_next hconn)
    simpa [hconn, DbConn.idle] using hall
  refine ⟨s, hrun, hhead, hflag, htorn, ?_⟩
  rintro (⟨hset, -⟩ | ⟨c, conn, hconn, hest⟩ | ⟨c, conn, hconn, hsome⟩)
  · rw [hflag] at hset
    cases hset
  · rw [(hallIdle hconn).1] at hest
    cases hest
  · exact hsome (hallIdle hconn).2

end Progress

end FrameworkBenchmarks.H2o
