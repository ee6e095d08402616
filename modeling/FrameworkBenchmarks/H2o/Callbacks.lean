import FrameworkBenchmarks.H2o.ConnList
import FrameworkBenchmarks.H2o.QueryPlaces

/-!
# What the callbacks of queries do to the pool

A callback may submit queries; it reaches nothing but the pool's list, its counter and the task flag.
The functions that only call back are specified here, in any state.
-/

namespace FrameworkBenchmarks.H2o

open Common Scripted Handler

variable {s s' s'' : DbConnPool}

section Replies

variable {α : Type} {Q : α → DbConnPool → Prop}

/-- The environment answers in any way. -/
theorem wlp_call_bind {f : Bool → Handler α} (h : ∀ ok, (f ok).wlp Q s) : (call >>= f).wlp Q s :=
  wlp_expect_bind fun ok _ _ => h ok

theorem wlp_pqFlush_bind {f : Flush → Handler α} (h : ∀ status, (f status).wlp Q s) :
    (pqFlush >>= f).wlp Q s :=
  wlp_expect_bind fun status _ _ => h status

theorem wlp_pqIsBusy_bind {f : Bool → Handler α} (h : ∀ busy, (f busy).wlp Q s) :
    (pqIsBusy >>= f).wlp Q s :=
  wlp_expect_bind fun busy _ _ => h busy

theorem wlp_pqGetResult_bind {f : Option ResultStatus → Handler α}
    (h : ∀ status, (f status).wlp Q s) : (pqGetResult >>= f).wlp Q s :=
  wlp_expect_bind fun status _ _ => h status

theorem wlp_pqPoll_bind {f : PollStatus × Bool → Handler α}
    (h : ∀ status moved, (f (status, moved)).wlp Q s) : (pqPoll >>= f).wlp Q s :=
  wlp_expect_bind fun answer _ _ => h answer.1 answer.2

theorem wlp_callback_bind {f : List ℕ × ResultReturn → Handler α}
    (h : ∀ submits ret, (f (submits, ret)).wlp Q s) : (callback >>= f).wlp Q s :=
  wlp_expect_bind fun answer _ _ => h answer.1 answer.2

/-- Reading a connection. -/
@[simp] theorem wlp_getConn_bind {c : ℕ} {f : DbConn → Handler α} :
    (getConn c >>= f).wlp Q s ↔ ∀ conn, s.conns c = some conn → (f conn).wlp Q s := by
  simp only [getConn, bind_assoc, wlp_get_bind, wlp_need_bind]

/-- Writing to a connection. -/
@[simp] theorem wlp_modifyConn_bind {c : ℕ} {g : DbConn → DbConn} {f : Unit → Handler α} :
    (modifyConn c g >>= f).wlp Q s ↔ ∀ conn, s.conns c = some conn →
      (f ()).wlp Q { s with conns := s.conns.insert c (g conn) } := by
  simp only [modifyConn, bind_assoc, wlp_getConn_bind, wlp_modify_bind]

@[simp] theorem wlp_modifyConn {c : ℕ} {g : DbConn → DbConn} {Q : Unit → DbConnPool → Prop} :
    (modifyConn c g).wlp Q s ↔ ∀ conn, s.conns c = some conn →
      Q () { s with conns := s.conns.insert c (g conn) } := by
  simp only [modifyConn, wlp_getConn_bind, wlp_modify]

end Replies

/-- One if the flag is set. -/
def flagNum (b : Bool) : ℕ := if b then 1 else 0

/-- What every part of a handler keeps, apart from the task clearing its flag: the flag, its message,
the defects on record; and unless a task is queued afterwards, no query has begun to wait. -/
structure Calm (s s' : DbConnPool) : Prop where
  config : s'.config = s.config
  flag : s.processQueries = true → s'.processQueries = true
  messages : s'.localMessages + flagNum s.processQueries = s.localMessages + flagNum s'.processQueries
  waiting : s'.processQueries = false → s'.queries.head ≠ none → s.queries.head ≠ none
  defects : ∀ d ∈ s.defects, d ∈ s'.defects

theorem Calm.refl (s : DbConnPool) : Calm s s :=
  ⟨rfl, id, rfl, fun _ => id, fun _ => id⟩

/-- A flag that is not set afterwards was not set before. -/
theorem Calm.flag_false (h : Calm s s') (hflag : s'.processQueries = false) :
    s.processQueries = false := by
  by_contra hne
  rw [h.flag (by simpa using hne)] at hflag
  cases hflag

theorem Calm.trans (h : Calm s s') (h' : Calm s' s'') : Calm s s'' where
  config := h'.config.trans h.config
  flag := h'.flag ∘ h.flag
  messages := by
    have h₁ := h.messages
    have h₂ := h'.messages
    omega
  waiting hflag hhead := h.waiting (h'.flag_false hflag) (h'.waiting hflag hhead)
  defects d hd := h'.defects d (h.defects d hd)

/-- Steps that touch neither the wait list nor the task. -/
theorem Calm.of_same (hconfig : s'.config = s.config) (hflag : s'.processQueries = s.processQueries)
    (hmessages : s'.localMessages = s.localMessages) (hqueries : s'.queries.head = s.queries.head)
    (hdefects : ∀ d ∈ s.defects, d ∈ s'.defects) : Calm s s' where
  config := hconfig
  flag h := hflag.trans h
  messages := by rw [hflag, hmessages]
  waiting _ hhead := hqueries ▸ hhead
  defects := hdefects

/-- What callbacks leave alone. -/
structure Submitted (s s' : DbConnPool) : Prop extends Calm s s' where
  conn : s'.conn = s.conn
  connNum : s'.connNum = s.connNum
  conns : s'.conns = s.conns
  connNext : s'.connNext = s.connNext
  nextConn : s'.nextConn = s.nextConn
  preparedStatements : s'.preparedStatements = s.preparedStatements
  sameDefects : s'.defects = s.defects

theorem Submitted.refl (s : DbConnPool) : Submitted s s :=
  ⟨.refl s, rfl, rfl, rfl, rfl, rfl, rfl, rfl⟩

theorem Submitted.trans (h : Submitted s s') (h' : Submitted s' s'') : Submitted s s'' where
  toCalm := h.toCalm.trans h'.toCalm
  conn := h'.conn.trans h.conn
  connNum := h'.connNum.trans h.connNum
  conns := h'.conns.trans h.conns
  connNext := h'.connNext.trans h.connNext
  nextConn := h'.nextConn.trans h.nextConn
  preparedStatements := h'.preparedStatements.trans h.preparedStatements
  sameDefects := h'.sameDefects.trans h.sameDefects

theorem Submitted.listed (h : Submitted s s') {skip : Option ℕ} {spare done rest : List ℕ}
    (hl : Listed s skip spare done rest) : Listed s' skip spare done rest :=
  hl.congr h.conn (fun _ _ => by rw [h.connNext]) h.sameDefects fun _ _ _ =>
    listable_congr (by rw [h.conns])

/-- The task is queued afterwards unless nothing waits. -/
theorem wlp_processQueries :
    processQueries.wlp (fun _ s' => Submitted s s' ∧
      (s'.processQueries = false → s'.queries.head = none) ∧ s'.queries = s.queries ∧
      s'.queryNum = s.queryNum ∧ s'.paramNext = s.paramNext ∧ s'.trace = s.trace) s := by
  simp only [processQueries, wlp_modify]
  split
  · rename_i hcond
    simp only [Bool.and_eq_true, Bool.not_eq_true'] at hcond
    refine ⟨⟨⟨rfl, fun _ => rfl, ?_, fun h => (by cases h), fun _ => id⟩, rfl, rfl, rfl, rfl, rfl, rfl,
      rfl⟩, fun h => (by cases h), rfl, rfl, rfl, rfl⟩
    rw [hcond.1]
    rfl
  · rename_i hcond
    refine ⟨.refl s, fun hflag => ?_, rfl, rfl, rfl, rfl⟩
    simpa [hflag] using hcond

/-- The places of the queries survive, and so do the links of those in hand. -/
def KeepsPlaces (s s' : DbConnPool) : Prop :=
  ∀ skip hand, QueriesOk s skip hand →
    QueriesOk s' skip hand ∧ ∀ q ∈ hand, s'.paramNext q = s.paramNext q

theorem KeepsPlaces.refl (s : DbConnPool) : KeepsPlaces s s :=
  fun _ _ h => ⟨h, fun _ _ => rfl⟩

theorem KeepsPlaces.trans (h : KeepsPlaces s s') (h' : KeepsPlaces s' s'') : KeepsPlaces s s'' := by
  intro skip hand hq
  obtain ⟨hq', hlinks⟩ := h skip hand hq
  obtain ⟨hq'', hlinks'⟩ := h' skip hand hq'
  exact ⟨hq'', fun q hmem => (hlinks' q hmem).trans (hlinks q hmem)⟩

/-- Where the same fields are read, the places are the same. -/
theorem KeepsPlaces.of_same (hqueries : s'.queries = s.queries) (hnum : s'.queryNum = s.queryNum)
    (hconfig : s'.config = s.config) (hnext : s'.paramNext = s.paramNext)
    (htrace : s'.trace = s.trace) (hconns : s'.conns = s.conns) : KeepsPlaces s s' :=
  fun _ _ h => ⟨h.of_same hqueries hnum hconfig hnext htrace hconns, fun q _ => by rw [hnext]⟩

/-- `execute_database_query` -/
theorem wlp_executeDatabaseQuery (p : ℕ) :
    (executeDatabaseQuery p).wlp (fun _ s' => Submitted s s' ∧ KeepsPlaces s s') s := by
  simp only [executeDatabaseQuery, wlp_get_bind]
  split
  · simp
  · rename_i hout
    split
    · rename_i hnum
      simp only [record, wlp_modify_bind]
      refine wlp_step wlp_processQueries ?_
      rintro _ s' ⟨hsub, hqueued, hqueries, hqueryNum, hnext, htrace⟩
      rw [wlp_pure]
      have hflag := hsub.flag
      have hmessages := hsub.messages
      refine ⟨⟨⟨hsub.config, hflag, hmessages, fun hno hhead => absurd (hqueued hno) hhead,
        hsub.defects⟩, hsub.conn, hsub.connNum, hsub.conns, hsub.connNext, hsub.nextConn,
        hsub.preparedStatements, hsub.sameDefects⟩, fun skip hand hq => ?_⟩
      obtain ⟨hq', hlinks⟩ := hq.accept (by simpa using hout) hnum
      exact (KeepsPlaces.of_same hqueries hqueryNum hsub.config hnext htrace hsub.conns skip hand
        hq').imp_right fun hsame q hmem => (hsame q hmem).trans (hlinks q hmem)
    · rw [wlp_pure]
      exact ⟨.refl s, .refl s⟩

/-- The queries that a callback submits. -/
theorem wlp_submitAll (params : List ℕ) :
    (submitAll params).wlp (fun _ s' => Submitted s s' ∧ KeepsPlaces s s') s := by
  induction params generalizing s with
  | nil => exact (wlp_pure ()).mpr ⟨.refl s, .refl s⟩
  | cons p params ih =>
    refine wlp_step (wlp_executeDatabaseQuery p) ?_
    rintro _ s' ⟨hsub, hkeeps⟩
    refine wlp_mono ih ?_
    rintro _ s'' ⟨hsub', hkeeps'⟩
    exact ⟨hsub.trans hsub', hkeeps.trans hkeeps'⟩

/-- A terminal callback takes the query out of the hands of the handler. -/
def Notified (p : ℕ) (s s' : DbConnPool) : Prop :=
  ∀ skip hand, QueriesOk s skip (p :: hand) →
    QueriesOk s' skip hand ∧ ∀ q ∈ hand, s'.paramNext q = s.paramNext q

/-- A callback after its entry in the trace. -/
theorem submitted_of_trace {event : QueryEvent}
    (h : Submitted { s with trace := event :: s.trace } s') : Submitted s s' :=
  ⟨⟨h.config, h.flag, h.messages, h.waiting, h.defects⟩, h.conn, h.connNum, h.conns, h.connNext,
    h.nextConn, h.preparedStatements, h.sameDefects⟩

/-- The terminal entry and what the callback submits. -/
theorem wlp_terminal (p : ℕ) (how : Terminal) (submits : List ℕ) :
    (submitAll submits).wlp (fun _ s' => Submitted s s' ∧ Notified p s s')
      { s with trace := .terminal p how :: s.trace } := by
  refine wlp_mono (wlp_submitAll submits) ?_
  rintro _ s' ⟨hsub, hkeeps⟩
  exact ⟨submitted_of_trace hsub, fun skip hand hq => hkeeps skip hand (hq.terminate how)⟩

/-- Calling `on_error` or `on_timeout` of a query. -/
theorem wlp_notify (p : ℕ) (how : Terminal) :
    (notify p how).wlp (fun _ s' => Submitted s s' ∧ Notified p s s') s := by
  refine wlp_callback_bind fun submits ret => ?_
  simp only [record, wlp_modify_bind]
  exact wlp_terminal p how submits

/-- Calling back all the queries in hand. -/
theorem wlp_notifyAll (how : Terminal) (iter : Option ℕ) :
    (notifyAll how iter).wlp (fun _ s' => Submitted s s' ∧ ∀ skip hand,
      Chain s.paramNext iter hand → QueriesOk s skip hand → QueriesOk s' skip []) s := by
  refine wlp_loop (fun iter' s' => Submitted s s' ∧ ∀ skip hand, Chain s.paramNext iter hand →
    QueriesOk s skip hand → ∃ hand', Chain s'.paramNext iter' hand' ∧ QueriesOk s' skip hand') ?_
    ⟨.refl s, fun skip hand hchain hq => ⟨hand, hchain, hq⟩⟩
  rintro iter' s₁ ⟨hsub, hleft⟩
  cases iter' with
  | none =>
    rw [wlp_pure]
    refine ⟨hsub, fun skip hand hchain hq => ?_⟩
    obtain ⟨hand', hchain', hq'⟩ := hleft skip hand hchain hq
    obtain rfl := hchain'.eq_nil_iff.mpr rfl
    exact hq'
  | some p =>
    simp only [wlp_get_bind]
    refine wlp_step (wlp_notify p how) ?_
    rintro _ s₂ ⟨hsub', hnotified⟩
    rw [wlp_pure]
    refine ⟨hsub.trans hsub', fun skip hand hchain hq => ?_⟩
    obtain ⟨hand', hchain', hq'⟩ := hleft skip hand hchain hq
    obtain ⟨rest, rfl, hrest⟩ := hchain'.exists_cons
    obtain ⟨hq'', hlinks⟩ := hnotified skip rest hq'
    exact ⟨rest, hrest.congr hlinks, hq''⟩

/-- What a failed connection leaves behind: one more may be attempted, and if none is left nothing
waits, unless it was submitted just now. -/
structure GaveBack (s s' : DbConnPool) : Prop extends Calm s s' where
  conn : s'.conn = s.conn
  connNum : s'.connNum = s.connNum + 1
  conns : s'.conns = s.conns
  connNext : s'.connNext = s.connNext
  nextConn : s'.nextConn = s.nextConn
  sameDefects : s'.defects = s.defects
  places : QueriesOk s none [] → QueriesOk s' none []
  served : s'.processQueries = false → s'.queries.head ≠ none → s'.connNum ≠ s'.config.maxDbConnNum

/-- `error_notification` -/
theorem wlp_errorNotification (timeout : Bool) (errorString : String) :
    (errorNotification timeout errorString).wlp (fun _ s' => GaveBack s s') s := by
  simp only [errorNotification, wlp_modify_bind, wlp_get_bind]
  split
  · refine wlp_mono (wlp_notifyAll _ _) ?_
    rintro _ s' ⟨hsub, hplaces⟩
    have hcalm : Calm s s' := by
      refine ⟨hsub.config, hsub.flag, hsub.messages, fun hflag hhead => ?_, hsub.defects⟩
      exact absurd rfl (hsub.waiting hflag hhead)
    refine ⟨hcalm, hsub.conn, hsub.connNum, hsub.conns, hsub.connNext, hsub.nextConn,
      hsub.sameDefects, fun hq => ?_, fun hflag hhead => absurd rfl (hsub.waiting hflag hhead)⟩
    have hq' : QueriesOk { s with connNum := s.connNum + 1 } none [] :=
      hq.of_same rfl rfl rfl rfl rfl rfl
    obtain ⟨hand, hchain, hdetached⟩ := hq'.detachWaiting
    exact hplaces none hand hchain hdetached
  · rename_i hne
    rw [wlp_pure]
    refine ⟨.of_same rfl rfl rfl rfl fun _ => id, rfl, rfl, rfl, rfl, rfl, rfl, fun hq => ?_,
      fun _ _ => hne⟩
    exact hq.of_same rfl rfl rfl rfl rfl rfl

end FrameworkBenchmarks.H2o
