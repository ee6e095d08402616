import FrameworkBenchmarks.H2o.Database

/-!
# Where the queries of a pool are

Every query that is outstanding is in the pool's list, in the list of one connection, or in the hands
of a handler that is about to notify it. The lists are given as the chains that the links spell out.
-/

namespace FrameworkBenchmarks.H2o

open Common

/-- The place of a query. -/
inductive Place where
  | nowhere
  | waiting
  | inFlight (c : ℕ)
  /-- taken off its list by a handler that has not called it back yet -/
  | detached
deriving DecidableEq

/-- The lists of the pool and the place of every query. A connection in the hands of a handler
(`skip`) has no list of its own for the time being. -/
structure Placed (s : DbConnPool) (skip : Option ℕ) (hand waiting : List ℕ) (flight : ℕ → List ℕ)
    (place : ℕ → Place) : Prop where
  waitingList : Represents s.paramNext s.queries waiting
  poolCount : s.queryNum + waiting.length = s.config.maxQueryNum
  flightList : ∀ c conn, s.conns c = some conn → skip ≠ some c →
    Represents s.paramNext conn.queries (flight c) ∧
      conn.queryNum + (flight c).length = s.config.maxPipelineQueryNum
  noFlight : ∀ c, s.conns c = none ∨ skip = some c → flight c = []
  nodupWaiting : waiting.Nodup
  nodupFlight : ∀ c, (flight c).Nodup
  nodupHand : hand.Nodup
  memWaiting : ∀ p, p ∈ waiting ↔ place p = .waiting
  memFlight : ∀ c p, p ∈ flight c ↔ place p = .inFlight c
  memHand : ∀ p, p ∈ hand ↔ place p = .detached
  traced : ∀ p, lifecycle s.trace p = some (decide (place p ≠ .nowhere))

/-- Every outstanding query is in one place, and those in hand are the given ones. -/
def QueriesOk (s : DbConnPool) (skip : Option ℕ) (hand : List ℕ) : Prop :=
  ∃ waiting flight place, Placed s skip hand waiting flight place

variable {s s' : DbConnPool} {skip : Option ℕ} {hand waiting : List ℕ} {flight : ℕ → List ℕ}
  {place : ℕ → Place}

/-- The places only depend on the queues, their counters, the links and the trace. -/
theorem QueriesOk.congr (h : QueriesOk s skip hand) (hqueries : s'.queries = s.queries)
    (hnum : s'.queryNum = s.queryNum) (hconfig : s'.config = s.config)
    (hnext : s'.paramNext = s.paramNext) (htrace : s'.trace = s.trace)
    (hconns : ∀ c conn', s'.conns c = some conn' → ∃ conn, s.conns c = some conn ∧
      (skip ≠ some c → conn'.queries = conn.queries ∧ conn'.queryNum = conn.queryNum))
    (hlive : ∀ c, s'.conns c = none → s.conns c = none ∨ skip = some c) :
    QueriesOk s' skip hand := by
  obtain ⟨waiting, flight, place, hp⟩ := h
  refine ⟨waiting, flight, place, ?_⟩
  refine ⟨?_, ?_, ?_, ?_, hp.nodupWaiting, hp.nodupFlight, hp.nodupHand, hp.memWaiting, hp.memFlight,
    hp.memHand, ?_⟩
  · rw [hnext, hqueries]
    exact hp.waitingList
  · rw [hnum, hconfig]
    exact hp.poolCount
  · intro c conn' hconn' hskip
    obtain ⟨conn, hconn, hsame⟩ := hconns c conn' hconn'
    rw [hnext, hconfig, (hsame hskip).1, (hsame hskip).2]
    exact hp.flightList c conn hconn hskip
  · rintro c (hnone | hskip)
    · exact hp.noFlight c (hlive c hnone)
    · exact hp.noFlight c (.inr hskip)
  · rw [htrace]
    exact hp.traced

/-- The same queues in the same memory. -/
theorem QueriesOk.of_same (h : QueriesOk s skip hand) (hqueries : s'.queries = s.queries)
    (hnum : s'.queryNum = s.queryNum) (hconfig : s'.config = s.config)
    (hnext : s'.paramNext = s.paramNext) (htrace : s'.trace = s.trace)
    (hconns : s'.conns = s.conns) : QueriesOk s' skip hand :=
  h.congr hqueries hnum hconfig hnext htrace
    (fun _ conn hc => ⟨conn, hconns ▸ hc, fun _ => ⟨rfl, rfl⟩⟩) fun _ hc => .inl (hconns ▸ hc)

/-- A write to a connection that leaves its queue and its quota alone. -/
theorem QueriesOk.insertConn (h : QueriesOk s skip hand) {c : ℕ} {conn conn' : DbConn}
    (hconn : s.conns c = some conn) (hqueries : conn'.queries = conn.queries)
    (hnum : conn'.queryNum = conn.queryNum) :
    QueriesOk { s with conns := s.conns.insert c conn' } skip hand := by
  refine h.congr rfl rfl rfl rfl rfl (fun d conn'' hd => ?_) fun d hd => ?_
  · by_cases heq : d = c
    · obtain rfl : conn' = conn'' := by simpa [heq] using hd
      exact ⟨conn, heq ▸ hconn, fun _ => ⟨hqueries, hnum⟩⟩
    · exact ⟨conn'', (PartialMap.insert_of_ne _ _ heq).symm.trans hd, fun _ => ⟨rfl, rfl⟩⟩
  · by_cases heq : d = c
    · simp [heq] at hd
    · exact .inl ((PartialMap.insert_of_ne _ _ heq).symm.trans hd)

/-- A query that is nowhere is not outstanding, and the other way round. -/
theorem Placed.outstanding_iff (h : Placed s skip hand waiting flight place) (p : ℕ) :
    s.outstanding p = true ↔ place p ≠ .nowhere := by
  simp [DbConnPool.outstanding, h.traced]

/-- The pool's list is empty exactly if its head is null. -/
theorem Placed.waiting_eq_nil_iff (h : Placed s skip hand waiting flight place) :
    waiting = [] ↔ s.queries.head = none :=
  h.waitingList.chain.eq_nil_iff

/-- Accepting a query puts it at the end of the pool's list and leaves the links of those in hand
alone. -/
theorem QueriesOk.accept (h : QueriesOk s skip hand) {p : ℕ} (hnew : s.outstanding p = false)
    (hnum : s.queryNum ≠ 0) :
    QueriesOk { s.enqueue p with queryNum := s.queryNum - 1, trace := .accepted p :: s.trace }
      skip hand ∧ ∀ q ∈ hand, (s.enqueue p).paramNext q = s.paramNext q := by
  obtain ⟨waiting, flight, place, hp⟩ := h
  have hnowhere : place p = .nowhere := by
    by_contra hne
    rw [(hp.outstanding_iff p).mpr hne] at hnew
    cases hnew
  have hnotMem {l : List ℕ} {here : Place} (hmem : ∀ q, q ∈ l ↔ place q = here)
      (hne : here ≠ .nowhere) : p ∉ l := by
    rw [hmem, hnowhere]
    exact hne.symm
  have htail {l : List ℕ} {here : Place} (hmem : ∀ q, q ∈ l ↔ place q = here)
      (hne : here ≠ .waiting) {q : ℕ} (hq : q ∈ l) : s.queries.tail ≠ some q := by
    intro heq
    have hlast := List.mem_of_getLast? (hp.waitingList.tail.symm.trans heq)
    rw [hp.memWaiting] at hlast
    rw [hmem, hlast] at hq
    exact hne hq.symm
  have hkeep {l : List ℕ} {here : Place} (hmem : ∀ q, q ∈ l ↔ place q = here)
      (hne : here ≠ .waiting) (hne' : here ≠ .nowhere) :
      ∀ q ∈ l, (s.enqueue p).paramNext q = s.paramNext q := fun q hq =>
    Queue.clearPush_next (fun heq => hnotMem hmem hne' (heq ▸ hq)) (htail hmem hne hq)
  have hplace : ∀ q, Function.update place p .waiting q = if q = p then .waiting else place q :=
    fun q => Function.update_apply _ _ _ _
  refine ⟨⟨waiting ++ [p], flight, Function.update place p .waiting, ?_⟩,
    hkeep hp.memHand (by simp) (by simp)⟩
  refine ⟨?_, ?_, ?_, hp.noFlight, ?_, hp.nodupFlight, hp.nodupHand, ?_, ?_, ?_, ?_⟩
  · exact hp.waitingList.clearPush hp.nodupWaiting (hnotMem hp.memWaiting (by simp))
  · have := hp.poolCount
    simp only [List.length_append, List.length_singleton, DbConnPool.enqueue]
    omega
  · intro c conn hconn hskip
    obtain ⟨hrep, hcount⟩ := hp.flightList c conn hconn hskip
    exact ⟨hrep.congr (hkeep (hp.memFlight c) (by simp) (by simp)), hcount⟩
  · exact List.nodup_append.mpr ⟨hp.nodupWaiting, List.pairwise_singleton _ p, fun q hq r hr heq =>
      hnotMem hp.memWaiting (by simp) (by rwa [← List.mem_singleton.mp hr, ← heq])⟩
  · intro q
    rw [hplace]
    split
    · rename_i heq
      simp [heq]
    · rename_i hne
      simp [hne, hp.memWaiting]
  · intro c q
    rw [hplace]
    split
    · rename_i heq
      rw [heq]
      exact iff_of_false (hnotMem (hp.memFlight c) (by simp)) (by simp)
    · exact hp.memFlight c q
  · intro q
    rw [hplace]
    split
    · rename_i heq
      rw [heq]
      exact iff_of_false (hnotMem hp.memHand (by simp)) (by simp)
    · exact hp.memHand q
  · intro q
    rw [hplace]
    simp only [lifecycle]
    split
    · rename_i heq
      simp [heq, hp.traced, hnowhere]
    · exact hp.traced q

/-- The callback of the first query in hand: it is not outstanding any more. -/
theorem QueriesOk.terminate {p : ℕ} (h : QueriesOk s skip (p :: hand)) (how : Terminal) :
    QueriesOk { s with trace := .terminal p how :: s.trace } skip hand := by
  obtain ⟨waiting, flight, place, hp⟩ := h
  have hdetached : place p = .detached := (hp.memHand p).mp List.mem_cons_self
  have hplace : ∀ q, Function.update place p .nowhere q = if q = p then .nowhere else place q :=
    fun q => Function.update_apply _ _ _ _
  obtain ⟨hnotMem, hnodup⟩ := List.nodup_cons.mp hp.nodupHand
  refine ⟨waiting, flight, Function.update place p .nowhere, hp.waitingList, hp.poolCount,
    hp.flightList, hp.noFlight, hp.nodupWaiting, hp.nodupFlight, hnodup, ?_, ?_, ?_, ?_⟩
  · intro q
    rw [hplace]
    split
    · rename_i heq
      simp [heq, hp.memWaiting, hdetached]
    · exact hp.memWaiting q
  · intro c q
    rw [hplace]
    split
    · rename_i heq
      simp [heq, hp.memFlight, hdetached]
    · exact hp.memFlight c q
  · intro q
    rw [hplace]
    split
    · rename_i heq
      simp [heq, hnotMem]
    · rename_i hne
      rw [← hp.memHand]
      simp [hne]
  · intro q
    rw [hplace]
    simp only [lifecycle]
    split
    · rename_i heq
      simp [heq, hp.traced, hdetached]
    · exact hp.traced q

/-- A callback that is not terminal. -/
theorem QueriesOk.result {p : ℕ} (h : QueriesOk s skip hand) (hout : s.outstanding p = true) :
    QueriesOk { s with trace := .result p :: s.trace } skip hand := by
  obtain ⟨waiting, flight, place, hp⟩ := h
  refine ⟨waiting, flight, place, hp.waitingList, hp.poolCount, hp.flightList, hp.noFlight,
    hp.nodupWaiting, hp.nodupFlight, hp.nodupHand, hp.memWaiting, hp.memFlight, hp.memHand, ?_⟩
  intro q
  have hout' : lifecycle s.trace p = some true := by simpa [DbConnPool.outstanding] using hout
  simp only [lifecycle]
  split
  · rename_i heq
    rw [heq, if_pos hout', ← hp.traced, hout']
  · exact hp.traced q

/-- Detaching the whole list of the pool. -/
theorem QueriesOk.detachWaiting (h : QueriesOk s skip []) :
    ∃ hand, Chain s.paramNext s.queries.head hand ∧
      QueriesOk { s with queries := .empty, queryNum := s.config.maxQueryNum } skip hand := by
  obtain ⟨waiting, flight, place, hp⟩ := h
  refine ⟨waiting, hp.waitingList.chain, [], flight,
    fun q => if place q = .waiting then .detached else place q, represents_empty, by simp,
    hp.flightList, hp.noFlight, List.nodup_nil, hp.nodupFlight, hp.nodupWaiting, ?_, ?_, ?_, ?_⟩
  · intro q
    split <;> simp_all
  · intro c q
    rw [hp.memFlight]
    split <;> simp_all
  · intro q
    rw [hp.memWaiting]
    have hnot : place q ≠ .detached := fun heq => by simpa using (hp.memHand q).mpr heq
    split <;> simp_all
  · intro q
    rw [hp.traced]
    split <;> simp_all

/-- Taking a connection in hand detaches its list. -/
theorem QueriesOk.detachFlight (h : QueriesOk s none []) {c : ℕ} {conn : DbConn}
    (hconn : s.conns c = some conn) :
    ∃ hand, Chain s.paramNext conn.queries.head hand ∧ QueriesOk s (some c) hand ∧
      conn.queries.tail = hand.getLast? ∧
      conn.queryNum + hand.length = s.config.maxPipelineQueryNum := by
  obtain ⟨waiting, flight, place, hp⟩ := h
  obtain ⟨hrep, hcount⟩ := hp.flightList c conn hconn (by simp)
  refine ⟨flight c, hrep.chain, ⟨waiting, Function.update flight c [],
    fun q => if place q = .inFlight c then .detached else place q, hp.waitingList, hp.poolCount,
    ?_, ?_, hp.nodupWaiting, ?_, hp.nodupFlight c, ?_, ?_, ?_, ?_⟩, hrep.tail, hcount⟩
  · intro d conn' hconn' hskip
    have hne : d ≠ c := fun heq => hskip (by rw [heq])
    rw [Function.update_of_ne hne]
    exact hp.flightList d conn' hconn' (by simp)
  · intro d hd
    by_cases heq : d = c
    · rw [heq, Function.update_self]
    · rw [Function.update_of_ne heq]
      exact hp.noFlight d (.inl (hd.resolve_right fun h => heq (Option.some.inj h).symm))
  · intro d
    by_cases heq : d = c
    · rw [heq, Function.update_self]
      exact List.nodup_nil
    · rw [Function.update_of_ne heq]
      exact hp.nodupFlight d
  · intro q
    rw [hp.memWaiting]
    split <;> simp_all
  · intro d q
    by_cases heq : d = c
    · rw [heq, Function.update_self]
      split <;> simp_all
    · rw [Function.update_of_ne heq, hp.memFlight]
      split
      · rename_i hq
        simp [hq, Ne.symm heq]
      · exact .rfl
  · intro q
    rw [hp.memFlight]
    have hnot : place q ≠ .detached := fun heq => by simpa using (hp.memHand q).mpr heq
    split <;> simp_all
  · intro q
    rw [hp.traced]
    split <;> simp_all

/-- A connection in hand that is gone, or idle with its full quota, needs no list. -/
theorem QueriesOk.release (h : QueriesOk s skip []) {c : ℕ} (hskip : ∀ d, skip = some d → d = c)
    (hother : ∀ d, d ≠ c → s'.conns d = s.conns d)
    (hself : ∀ conn, s'.conns c = some conn →
      conn.queries = .empty ∧ conn.queryNum = s.config.maxPipelineQueryNum)
    (hfree : skip = some c ∨ s.conns c = none ∨ ∃ conn, s.conns c = some conn ∧
      conn.queryNum = s.config.maxPipelineQueryNum)
    (hsame : s'.queries = s.queries ∧ s'.queryNum = s.queryNum ∧ s'.config = s.config ∧
      s'.paramNext = s.paramNext ∧ s'.trace = s.trace) : QueriesOk s' none [] := by
  obtain ⟨waiting, flight, place, hp⟩ := h
  obtain ⟨hqueries, hnum, hconfig, hnext, htrace⟩ := hsame
  have hempty : flight c = [] := by
    rcases hfree with hskip | hnone | ⟨conn, hconn, hquota⟩
    · exact hp.noFlight c (.inr hskip)
    · exact hp.noFlight c (.inl hnone)
    · by_cases heq : skip = some c
      · exact hp.noFlight c (.inr heq)
      · have hcount := (hp.flightList c conn hconn heq).2
        exact List.length_eq_zero_iff.mp (by omega)
  refine ⟨waiting, flight, place, ?_, ?_, ?_, ?_, hp.nodupWaiting, hp.nodupFlight, hp.nodupHand,
    hp.memWaiting, hp.memFlight, hp.memHand, ?_⟩
  · rw [hnext, hqueries]
    exact hp.waitingList
  · rw [hnum, hconfig]
    exact hp.poolCount
  · intro d conn hconn _
    by_cases heq : d = c
    · subst heq
      obtain ⟨hq, hn⟩ := hself conn hconn
      rw [hempty, hq, hn, hconfig]
      exact ⟨represents_empty, rfl⟩
    · rw [hother d heq] at hconn
      rw [hnext, hconfig]
      exact hp.flightList d conn hconn fun hs => heq (hskip d hs)
  · rintro d (hnone | hskip')
    · by_cases heq : d = c
      · rw [heq, hempty]
      · rw [hother d heq] at hnone
        exact hp.noFlight d (.inl hnone)
    · cases hskip'
  · rw [htrace]
    exact hp.traced

/-- Taking the first waiting query in hand. -/
theorem QueriesOk.dequeue (h : QueriesOk s skip []) {p : ℕ} (hhead : s.queries.head = some p) :
    QueriesOk { s with
      queries :=
        ⟨s.paramNext p, if s.queryNum + 1 = s.config.maxQueryNum then none else s.queries.tail⟩
      queryNum := s.queryNum + 1 } skip [p] := by
  obtain ⟨waiting, flight, place, hp⟩ := h
  have hchain := hp.waitingList.chain
  rw [hhead] at hchain
  obtain ⟨rest, rfl, hrest⟩ := hchain.exists_cons
  have hcount := hp.poolCount
  rw [List.length_cons] at hcount
  -- the counter tells that the list has become empty exactly when its head does
  have hlast : (s.queryNum + 1 = s.config.maxQueryNum) ↔ s.paramNext p = none := by
    rw [← hrest.eq_nil_iff, ← List.length_eq_zero_iff]
    omega
  have hwaits : place p = .waiting := (hp.memWaiting p).mp List.mem_cons_self
  have hplace : ∀ q, Function.update place p .detached q = if q = p then .detached else place q :=
    fun q => Function.update_apply _ _ _ _
  obtain ⟨hnotMem, hnodup⟩ := List.nodup_cons.mp hp.nodupWaiting
  refine ⟨rest, flight, Function.update place p .detached, ?_, ?_, hp.flightList, hp.noFlight,
    hnodup, hp.nodupFlight, List.pairwise_singleton _ p, ?_, ?_, ?_, ?_⟩
  · simp only [hlast]
    exact hp.waitingList.pop
  · simp only
    omega
  · intro q
    rw [hplace]
    split
    · rename_i heq
      simp [heq, hnotMem]
    · rename_i hne
      rw [← hp.memWaiting]
      simp [hne]
  · intro c q
    rw [hplace]
    split
    · rename_i heq
      simp [heq, hp.memFlight, hwaits]
    · exact hp.memFlight c q
  · intro q
    rw [hplace]
    split
    · rename_i heq
      simp [heq]
    · rename_i hne
      rw [← hp.memHand]
      simp [hne]
  · intro q
    rw [hplace, hp.traced]
    split
    · rename_i heq
      simp [heq, hwaits]
    · rfl

/-- Sending the query in hand puts it at the end of the connection's list. -/
theorem QueriesOk.send {p c : ℕ} {conn conn' : DbConn} (h : QueriesOk s none [p])
    (hconn : s.conns c = some conn) (hquota : conn.queryNum ≠ 0)
    (hqueries : conn'.queries = (conn.queries.clearPush s.paramNext p).1)
    (hnum : conn'.queryNum = conn.queryNum - 1) :
    QueriesOk { s with
      paramNext := (conn.queries.clearPush s.paramNext p).2
      conns := s.conns.insert c conn' } none [] := by
  obtain ⟨waiting, flight, place, hp⟩ := h
  obtain ⟨hrep, hcount⟩ := hp.flightList c conn hconn (by simp)
  have hdetached : place p = .detached := (hp.memHand p).mp List.mem_cons_self
  have hnotMem {l : List ℕ} {here : Place} (hmem : ∀ q, q ∈ l ↔ place q = here)
      (hne : here ≠ .detached) : p ∉ l := by
    rw [hmem, hdetached]
    exact hne.symm
  have hkeep {l : List ℕ} {here : Place} (hmem : ∀ q, q ∈ l ↔ place q = here)
      (hne : here ≠ .inFlight c) (hne' : here ≠ .detached) :
      ∀ q ∈ l, (conn.queries.clearPush s.paramNext p).2 q = s.paramNext q := by
    intro q hq
    refine Queue.clearPush_next (fun heq => hnotMem hmem hne' (heq ▸ hq)) fun heq => ?_
    have hlast := List.mem_of_getLast? (hrep.tail.symm.trans heq)
    rw [hp.memFlight] at hlast
    rw [hmem, hlast] at hq
    exact hne hq.symm
  have hplace : ∀ q,
      Function.update place p (.inFlight c) q = if q = p then .inFlight c else place q :=
    fun q => Function.update_apply _ _ _ _
  refine ⟨waiting, Function.update flight c (flight c ++ [p]), Function.update place p (.inFlight c),
    ?_, hp.poolCount, ?_, ?_, hp.nodupWaiting, ?_, List.nodup_nil, ?_, ?_, ?_, ?_⟩
  · exact hp.waitingList.congr (hkeep hp.memWaiting (by simp) (by simp))
  · intro d conn'' hconn'' hskip
    by_cases heq : d = c
    · subst heq
      obtain rfl : conn' = conn'' := by simpa using hconn''
      rw [Function.update_self, hqueries, hnum, List.length_append, List.length_singleton]
      refine ⟨hrep.clearPush (hp.nodupFlight d) (hnotMem (hp.memFlight d) (by simp)), ?_⟩
      simp only
      omega
    · replace hconn'' := (PartialMap.insert_of_ne s.conns conn' heq).symm.trans hconn''
      rw [Function.update_of_ne heq]
      obtain ⟨hrep', hcount'⟩ := hp.flightList d conn'' hconn'' hskip
      exact ⟨hrep'.congr (hkeep (hp.memFlight d) (by simp [heq]) (by simp)), hcount'⟩
  · rintro d (hnone | hskip)
    · by_cases heq : d = c
      · simp [heq] at hnone
      · replace hnone := (PartialMap.insert_of_ne s.conns conn' heq).symm.trans hnone
        rw [Function.update_of_ne heq]
        exact hp.noFlight d (.inl hnone)
    · cases hskip
  · intro d
    by_cases heq : d = c
    · rw [heq, Function.update_self]
      exact List.nodup_append.mpr ⟨hp.nodupFlight c, List.pairwise_singleton _ p,
        fun q hq r hr hqr => hnotMem (hp.memFlight c) (by simp)
          (by rwa [← List.mem_singleton.mp hr, ← hqr])⟩
    · rw [Function.update_of_ne heq]
      exact hp.nodupFlight d
  · intro q
    rw [hplace, hp.memWaiting]
    split
    · rename_i heq
      simp [heq, hdetached]
    · exact .rfl
  · intro d q
    rw [hplace]
    by_cases heq : d = c
    · rw [heq, Function.update_self, List.mem_append, List.mem_singleton, hp.memFlight]
      split <;> simp_all
    · rw [Function.update_of_ne heq, hp.memFlight]
      split
      · rename_i hqp
        simp [hqp, hdetached, Ne.symm heq]
      · exact .rfl
  · intro q
    rw [hplace]
    have hmem := hp.memHand q
    rw [List.mem_singleton] at hmem
    split <;> simp_all
  · intro q
    rw [hplace]
    refine (hp.traced q).trans ?_
    split
    · rename_i heq
      simp [heq, hdetached]
    · rfl

/-- Giving the connection in hand its list back. -/
theorem QueriesOk.attachFlight {c : ℕ} {conn : DbConn} {start : Option ℕ}
    (h : QueriesOk s (some c) hand) (hchain : Chain s.paramNext start hand)
    (hqueries : conn.queries = ⟨start, hand.getLast?⟩)
    (hnum : conn.queryNum + hand.length = s.config.maxPipelineQueryNum) :
    QueriesOk { s with conns := s.conns.insert c conn } none [] := by
  obtain ⟨waiting, flight, place, hp⟩ := h
  have hnone : flight c = [] := hp.noFlight c (.inr rfl)
  refine ⟨waiting, Function.update flight c hand,
    fun q => if place q = .detached then .inFlight c else place q, hp.waitingList, hp.poolCount, ?_,
    ?_, hp.nodupWaiting, ?_, List.nodup_nil, ?_, ?_, ?_, ?_⟩
  · intro d conn' hconn' _
    by_cases heq : d = c
    · subst heq
      obtain rfl : conn = conn' := by simpa using hconn'
      rw [Function.update_self, hqueries]
      exact ⟨⟨hchain, rfl⟩, hnum⟩
    · replace hconn' := (PartialMap.insert_of_ne s.conns conn heq).symm.trans hconn'
      rw [Function.update_of_ne heq]
      exact hp.flightList d conn' hconn' fun hs => heq (Option.some.inj hs).symm
  · rintro d (hfree | hskip)
    · by_cases heq : d = c
      · simp [heq] at hfree
      · replace hfree := (PartialMap.insert_of_ne s.conns conn heq).symm.trans hfree
        rw [Function.update_of_ne heq]
        exact hp.noFlight d (.inl hfree)
    · cases hskip
  · intro d
    by_cases heq : d = c
    · rw [heq, Function.update_self]
      exact hp.nodupHand
    · rw [Function.update_of_ne heq]
      exact hp.nodupFlight d
  · intro q
    rw [hp.memWaiting]
    split <;> simp_all
  · intro d q
    by_cases heq : d = c
    · have hnot : place q ≠ .inFlight c := fun hq => by
        have := (hp.memFlight c q).mpr hq
        rw [hnone] at this
        cases this
      rw [heq, Function.update_self, hp.memHand]
      split <;> simp_all
    · rw [Function.update_of_ne heq, hp.memFlight]
      split
      · rename_i hq
        simp [hq, Ne.symm heq]
      · exact .rfl
  · intro q
    split <;> simp_all
  · intro q
    refine (hp.traced q).trans ?_
    split <;> simp_all

end FrameworkBenchmarks.H2o
