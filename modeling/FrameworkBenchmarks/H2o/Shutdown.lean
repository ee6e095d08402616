import FrameworkBenchmarks.H2o.EventLoop
import Mathlib.Data.Bool.Basic

/-!
# Shutdown of the h2o server

What holds in every interleaving of the threads, before and after the signal. Once the signal was
read, every thread has either closed its listeners or has a message that makes it do so, and a
thread that has closed them only loses connections; so the whole server can always come to its end.
-/

namespace FrameworkBenchmarks.H2o.EventLoop

open Common

variable {config : Config} {s s' : Server} {signals i : ℕ} {t t' : Thread}

/-- The main thread has shut down if a signal was read; another thread has done so, or has a
message that tells it to. -/
def Told (config : Config) (signals i : ℕ) (t : Thread) : Prop :=
  if i = 0 then t.messages = 0 ∧ (t.shutdown = true ↔ 0 < signals)
  else if i < config.threadNum then (0 < t.messages ∨ t.shutdown = true ↔ 0 < signals)
  else t = .unborn

/-- A thread between two events. -/
structure ThreadOk (config : Config) (signals i : ℕ) (t : Thread) : Prop where
  /-- `conn_num` counts the open connections -/
  connNum : t.connNum = t.conns.countP (·.isOpen)
  unborn : t.phase = .starting → t = .unborn
  sslCtx : t.phase ≠ .starting → t.sslCtx = config.https
  /-- a connection is encrypted if it came in through the HTTPS port, and only then -/
  tls : ∀ conn ∈ t.conns, conn.tls = conn.https
  /-- the listeners are open until the shutdown -/
  listeners : t.phase ≠ .starting →
    t.httpSocket = !t.shutdown ∧ t.httpsSocket = (config.https && !t.shutdown)
  stopped : t.phase = .stopped → t.shutdown = true ∧ t.connNum = 0 ∧ t.localMessages = 0
  told : Told config signals i t

structure ServerOk (config : Config) (s : Server) : Prop where
  threads : ∀ i, ThreadOk config s.signals i (s.threads i)
  started : 0 < s.signals → ∀ i < config.threadNum, (s.threads i).phase ≠ .starting
  ended : s.ended = true → ∀ i < config.threadNum, (s.threads i).phase = .stopped

section Threads

/-- `max_accept` connections are accepted, or as many as there are. -/
theorem acceptLoop_eq (https : Bool) (accepted pending : ℕ) (t : Thread) :
    t.acceptLoop https accepted pending =
      { t with
        connNum := t.connNum + min accepted pending
        conns := t.conns ++ List.replicate (min accepted pending) ⟨https, t.sslCtx, true⟩ } := by
  induction accepted generalizing pending t with
  | zero => simp [Thread.acceptLoop]
  | succ accepted ih =>
    cases pending with
    | zero => simp [Thread.acceptLoop]
    | succ pending =>
      rw [Thread.acceptLoop, ih, Nat.add_min_add_right, List.replicate_succ]
      simp only [List.append_assoc, List.singleton_append, Thread.mk.injEq, and_true, true_and]
      omega

theorem acceptConnection_eq (config : Config) (https err : Bool) (pending : ℕ) (t : Thread) :
    ∃ k ≤ config.maxAccept, t.acceptConnection config https pending err =
      { t with
        connNum := t.connNum + k
        conns := t.conns ++ List.replicate k ⟨https, t.sslCtx, true⟩ } ∧
      (t.shutdown = true → k = 0) := by
  have hnone : t = { t with
      connNum := t.connNum + 0
      conns := t.conns ++ List.replicate 0 ⟨https, t.sslCtx, true⟩ } := by simp
  unfold Thread.acceptConnection
  split
  · exact ⟨0, Nat.zero_le _, hnone, fun _ => rfl⟩
  · split
    · exact ⟨0, Nat.zero_le _, hnone, fun _ => rfl⟩
    · rename_i hshutdown
      exact ⟨_, Nat.min_le_left _ _, acceptLoop_eq https _ pending t,
        fun htrue => absurd htrue hshutdown⟩

/-- A listener accepts some connections, none after the shutdown, and leaves all the rest as it was:
`accept_http_connection` puts the TLS context back. -/
theorem onListener_eq (https err : Bool) (pending : ℕ) (hssl : t.sslCtx = config.https)
    (hhttps : https = true → config.https = true) :
    ∃ k ≤ config.maxAccept, t.onListener config https pending err =
      { t with
        connNum := t.connNum + k
        conns := t.conns ++ List.replicate k ⟨https, https, true⟩ } ∧
      (t.shutdown = true → k = 0) := by
  cases https with
  | true =>
    obtain ⟨k, hk, heq, hnone⟩ := acceptConnection_eq config true err pending t
    have hctx : t.sslCtx = true := hssl.trans (hhttps rfl)
    refine ⟨k, hk, ?_, hnone⟩
    rw [Thread.onListener, if_pos rfl, heq, hctx]
  | false =>
    rw [Thread.onListener, if_neg (by decide)]
    split
    · obtain ⟨k, hk, heq, hnone⟩ :=
        acceptConnection_eq config false err pending { t with sslCtx := false }
      refine ⟨k, hk, ?_, hnone⟩
      rw [Thread.acceptHttpConnection, heq]
    · rename_i hconfig
      obtain ⟨k, hk, heq, hnone⟩ := acceptConnection_eq config false err pending t
      have hctx : t.sslCtx = false := hssl.trans (eq_false_of_ne_true hconfig)
      refine ⟨k, hk, ?_, hnone⟩
      rw [heq, hctx]

theorem processMessages_eq (n : ℕ) (t : Thread) : t.processMessages n =
    if n = 0 then { t with messages := 0 } else { t.closeListeners with messages := 0 } := by
  induction n generalizing t with
  | zero => rfl
  | succ n ih =>
    rw [Thread.processMessages, ih]
    split <;> rfl

/-- A thread that is not unborn is one of those that were configured. -/
theorem ThreadOk.lt (h : ThreadOk config signals i t) (hborn : t.phase ≠ .starting) :
    i < config.threadNum := by
  by_contra hge
  have hzero : i ≠ 0 := by
    rintro rfl
    exact hge config.threadNum_pos
  have htold := h.told
  rw [Told, if_neg hzero, if_neg hge] at htold
  exact hborn (htold ▸ rfl)

theorem told_iff (hlt : i < config.threadNum) : Told config signals i t ↔
    (i = 0 → t.messages = 0) ∧ (0 < t.messages ∨ t.shutdown = true ↔ 0 < signals) := by
  unfold Told
  split
  · rename_i hi
    constructor
    · rintro ⟨hmessages, hshutdown⟩
      exact ⟨fun _ => hmessages, by simp [hmessages, hshutdown]⟩
    · rintro ⟨hmessages, hshutdown⟩
      have hnone := hmessages hi
      exact ⟨hnone, by simpa [hnone] using hshutdown⟩
  · rename_i hi
    exact ⟨fun htold => ⟨fun hzero => absurd hzero hi, htold⟩, And.right⟩

theorem Told.congr (htold : Told config signals i t) (hlt : i < config.threadNum)
    (hmessages : t'.messages = t.messages) (hshutdown : t'.shutdown = t.shutdown) :
    Told config signals i t' := by
  rw [told_iff hlt] at htold ⊢
  rwa [hmessages, hshutdown]

theorem Phase.running_ne_starting (h : t.phase = .running) : t.phase ≠ .starting := by
  rw [h]
  decide

theorem Phase.running_ne_stopped (h : t.phase = .running) : t.phase ≠ .stopped := by
  rw [h]
  decide

theorem ThreadOk.initializeEventLoop (h : ThreadOk config signals i t)
    (hstarting : t.phase = .starting) (hsignals : signals = 0) (hlt : i < config.threadNum) :
    ThreadOk config signals i (t.initializeEventLoop config) := by
  obtain rfl := h.unborn hstarting
  have htold : Told config signals i (Thread.unborn.initializeEventLoop config) := by
    rw [told_iff hlt]
    exact ⟨fun _ => rfl, by simp [Thread.initializeEventLoop, Thread.unborn, hsignals]⟩
  exact
    { connNum := rfl
      unborn := fun hphase => absurd hphase (by simp [Thread.initializeEventLoop])
      sslCtx := fun _ => rfl
      tls := fun conn hmem => absurd hmem List.not_mem_nil
      listeners := fun _ => ⟨rfl, (Bool.and_true _).symm⟩
      stopped := fun hphase => absurd hphase (by simp [Thread.initializeEventLoop])
      told := htold }

theorem ThreadOk.listener (h : ThreadOk config signals i t) (hrunning : t.phase = .running)
    (https err : Bool) (pending : ℕ)
    (hopen : (if https then t.httpsSocket else t.httpSocket) = true) :
    ThreadOk config signals i (t.onListener config https pending err) ∧
      (t.onListener config https pending err).phase = .running ∧
      (t.onListener config https pending err).shutdown = t.shutdown ∧
      (t.shutdown = true →
        (t.onListener config https pending err).conns.length = t.conns.length) := by
  have hborn := Phase.running_ne_starting hrunning
  have hhttps : https = true → config.https = true := by
    rintro rfl
    rw [if_pos rfl, (h.listeners hborn).2, Bool.and_eq_true] at hopen
    exact hopen.1
  obtain ⟨k, -, heq, hnone⟩ := onListener_eq https err pending (h.sslCtx hborn) hhttps
  rw [heq]
  refine ⟨?_, hrunning, rfl, ?_⟩
  · exact
      { connNum := by simp [h.connNum, List.countP_replicate]
        unborn := fun hstarting => absurd hstarting hborn
        sslCtx := h.sslCtx
        tls := by
          intro conn hmem
          rcases List.mem_append.mp hmem with hmem | hmem
          · exact h.tls conn hmem
          · rw [(List.mem_replicate.mp hmem).2]
        listeners := h.listeners
        stopped := fun hstopped => absurd hstopped (Phase.running_ne_stopped hrunning)
        told := h.told.congr (h.lt hborn) rfl rfl }
  · intro hshutdown
    simp [hnone hshutdown]

/-- Closing one of the open connections. -/
theorem countP_close {conns : List Conn} {k : ℕ} {conn : Conn} (hk : conns[k]? = some conn)
    (hopen : conn.isOpen = true) :
    (conns.set k { conn with isOpen := false }).countP (·.isOpen) + 1 =
      conns.countP (·.isOpen) := by
  obtain ⟨hlt, hget⟩ := List.getElem?_eq_some_iff.mp hk
  have hpos : 0 < conns.countP (·.isOpen) :=
    List.countP_pos_iff.mpr ⟨conn, List.mem_of_getElem? hk, hopen⟩
  rw [List.countP_set hlt, hget, hopen]
  simp only [if_true, Bool.false_eq_true, if_false, Nat.add_zero]
  omega

/-- The counter does not wrap around when an open connection closes. -/
theorem ThreadOk.connNum_ne_zero (h : ThreadOk config signals i t) {k : ℕ} {conn : Conn}
    (hk : t.conns[k]? = some conn) (hopen : conn.isOpen = true) : t.connNum ≠ 0 := by
  have hcount := countP_close hk hopen
  rw [h.connNum]
  omega

theorem ThreadOk.close (h : ThreadOk config signals i t) (hrunning : t.phase = .running) {k : ℕ}
    {conn : Conn} (hk : t.conns[k]? = some conn) (hopen : conn.isOpen = true) :
    ThreadOk config signals i
      { t with
        connNum := t.connNum - 1
        conns := t.conns.set k { conn with isOpen := false } } := by
  have hborn := Phase.running_ne_starting hrunning
  exact
    { connNum := by
        have hnum := h.connNum
        have hcount := countP_close hk hopen
        dsimp only
        omega
      unborn := fun hstarting => absurd hstarting hborn
      sslCtx := h.sslCtx
      tls := by
        intro c hmem
        rcases List.mem_or_eq_of_mem_set hmem with hmem | rfl
        · exact h.tls c hmem
        · exact h.tls conn (List.mem_of_getElem? hk)
      listeners := h.listeners
      stopped := fun hstopped => absurd hstopped (Phase.running_ne_stopped hrunning)
      told := h.told.congr (h.lt hborn) rfl rfl }

theorem ThreadOk.localMessages (h : ThreadOk config signals i t) (hrunning : t.phase = .running)
    (n : ℕ) : ThreadOk config signals i { t with localMessages := n } := by
  have hborn := Phase.running_ne_starting hrunning
  exact
    { connNum := h.connNum
      unborn := fun hstarting => absurd hstarting hborn
      sslCtx := h.sslCtx
      tls := h.tls
      listeners := h.listeners
      stopped := fun hstopped => absurd hstopped (Phase.running_ne_stopped hrunning)
      told := h.told.congr (h.lt hborn) rfl rfl }

/-- The listeners are closed and the messages read. -/
theorem ThreadOk.closeListeners (h : ThreadOk config signals i t) (hrunning : t.phase = .running)
    {signals' : ℕ} (hsignals : 0 < signals') :
    ThreadOk config signals' i { t.closeListeners with messages := 0 } := by
  have hborn := Phase.running_ne_starting hrunning
  have htold : Told config signals' i { t.closeListeners with messages := 0 } := by
    rw [told_iff (h.lt hborn)]
    exact ⟨fun _ => rfl, by simp [Thread.closeListeners, hsignals]⟩
  exact
    { connNum := h.connNum
      unborn := fun hstarting => absurd hstarting hborn
      sslCtx := h.sslCtx
      tls := h.tls
      listeners := fun _ => ⟨rfl, (Bool.and_false _).symm⟩
      stopped := fun hstopped => absurd hstopped (Phase.running_ne_stopped hrunning)
      told := htold }

/-- A message reaches a thread other than the main one. -/
theorem ThreadOk.sendMessage (h : ThreadOk config signals i t) (hrunning : t.phase = .running)
    (hi : i ≠ 0) {signals' : ℕ} (hsignals : 0 < signals') :
    ThreadOk config signals' i t.sendMessage := by
  have hborn := Phase.running_ne_starting hrunning
  have htold : Told config signals' i t.sendMessage := by
    rw [told_iff (h.lt hborn)]
    exact ⟨fun hzero => absurd hzero hi, by simp [Thread.sendMessage, hsignals]⟩
  exact
    { connNum := h.connNum
      unborn := fun hstarting => absurd hstarting hborn
      sslCtx := h.sslCtx
      tls := h.tls
      listeners := h.listeners
      stopped := fun hstopped => absurd hstopped (Phase.running_ne_stopped hrunning)
      told := htold }

/-- Messages come only from the loop of `shutdown_server`. -/
theorem ThreadOk.signals_pos (h : ThreadOk config signals i t) (hrunning : t.phase = .running)
    (hmessages : 0 < t.messages) : 0 < signals := by
  have htold := (told_iff (h.lt (Phase.running_ne_starting hrunning))).mp h.told
  exact htold.2.mp (.inl hmessages)

theorem ThreadOk.stop (h : ThreadOk config signals i t) (hrunning : t.phase = .running)
    (hshutdown : t.shutdown = true) (hconn : t.connNum = 0) (hlocal : t.localMessages = 0) :
    ThreadOk config signals i { t with phase := .stopped } := by
  have hborn := Phase.running_ne_starting hrunning
  exact
    { connNum := h.connNum
      unborn := fun hstarting => Phase.noConfusion hstarting
      sslCtx := fun _ => h.sslCtx hborn
      tls := h.tls
      listeners := fun _ => h.listeners hborn
      stopped := fun _ => ⟨hshutdown, hconn, hlocal⟩
      told := h.told.congr (h.lt hborn) rfl rfl }

/-- After a signal, a thread without messages has shut down. -/
theorem ThreadOk.shutdown (h : ThreadOk config signals i t) (hrunning : t.phase = .running)
    (hsignals : 0 < signals) (hmessages : t.messages = 0) : t.shutdown = true := by
  have htold := (told_iff (h.lt (Phase.running_ne_starting hrunning))).mp h.told
  rcases htold.2.mpr hsignals with hpos | hshutdown
  · omega
  · exact hshutdown

end Threads

/-- A thread that has shut down stays so and accepts nothing more. -/
def Later (t t' : Thread) : Prop :=
  t.shutdown = true → t'.shutdown = true ∧ t'.conns.length = t.conns.length

section Steps

variable {e : Event}

theorem set_self (s : Server) (i : ℕ) (t : Thread) : (s.set i t).threads i = t := by
  simp only [Server.set, Function.update_self]

theorem set_of_ne (s : Server) (t : Thread) {i j : ℕ} (h : j ≠ i) :
    (s.set i t).threads j = s.threads j := by
  simp only [Server.set, Function.update_of_ne h]

theorem ServerOk.ended_eq_false (hok : ServerOk config s) (hlt : i < config.threadNum)
    (hphase : (s.threads i).phase ≠ .stopped) : s.ended = false :=
  eq_false_of_ne_true fun hended => hphase (hok.ended hended i hlt)

/-- Something happens on one thread. -/
theorem ServerOk.set (hok : ServerOk config s) (hlt : i < config.threadNum)
    (hphase : (s.threads i).phase ≠ .stopped) (ht : ThreadOk config s.signals i t)
    (hborn : t.phase ≠ .starting) (hlater : Later (s.threads i) t) :
    ServerOk config (s.set i t) ∧ ∀ j, Later (s.threads j) ((s.set i t).threads j) := by
  refine ⟨⟨?_, ?_, ?_⟩, ?_⟩
  · intro j
    by_cases hj : j = i
    · rw [hj, set_self]
      exact ht
    · rw [set_of_ne s t hj]
      exact hok.threads j
  · intro hsignals j hjlt
    by_cases hj : j = i
    · rwa [hj, set_self]
    · rw [set_of_ne s t hj]
      exact hok.started hsignals j hjlt
  · intro hended
    exact absurd hended (by rw [Server.set, hok.ended_eq_false hlt hphase]; decide)
  · intro j
    by_cases hj : j = i
    · rwa [hj, set_self]
    · rw [set_of_ne s t hj]
      exact fun hshutdown => ⟨hshutdown, rfl⟩

/-- One message goes to every thread but the main one. -/
theorem sendShutdown_eq (n : ℕ) (s : Server)
    (hrunning : ∀ j, 0 < j → j ≤ n → (s.threads j).phase = .running) :
    ∃ s', s.sendShutdown n = some s' ∧ s'.signals = s.signals ∧ s'.ended = s.ended ∧
      ∀ j, s'.threads j =
        if 0 < j ∧ j ≤ n then (s.threads j).sendMessage else s.threads j := by
  induction n generalizing s with
  | zero =>
    refine ⟨s, rfl, rfl, rfl, fun j => ?_⟩
    rw [if_neg (by omega)]
  | succ n ih =>
    rw [Server.sendShutdown, if_pos (hrunning (n + 1) n.succ_pos (Nat.le_refl _))]
    obtain ⟨s', hsend, hsignals, hended, hthreads⟩ := ih
      (s.set (n + 1) (s.threads (n + 1)).sendMessage) (by
        intro j hpos hle
        rw [set_of_ne _ _ (by omega)]
        exact hrunning j hpos (by omega))
    refine ⟨s', hsend, hsignals, hended, fun j => ?_⟩
    rw [hthreads]
    rcases Nat.lt_trichotomy j (n + 1) with hlt | rfl | hgt
    · have hle : 0 < j ∧ j ≤ n + 1 ↔ 0 < j ∧ j ≤ n := by omega
      simp only [hle, set_of_ne _ _ (Nat.ne_of_lt hlt)]
    · rw [if_neg (by omega), if_pos (by omega), set_self]
    · rw [if_neg (by omega), if_neg (by omega), set_of_ne _ _ (Nat.ne_of_gt hgt)]

/-- The main thread closes its listeners and all the others get a message. -/
theorem shutdownServer_eq (s : Server)
    (hrunning : ∀ i < config.threadNum, (s.threads i).phase = .running) :
    ∃ s', s.shutdownServer config false = some s' ∧ s'.signals = s.signals + 1 ∧
      s'.ended = s.ended ∧ s'.threads 0 = (s.threads 0).closeListeners ∧
      (∀ j, 0 < j → j < config.threadNum → s'.threads j = (s.threads j).sendMessage) ∧
      ∀ j, config.threadNum ≤ j → s'.threads j = s.threads j := by
  have hpos := config.threadNum_pos
  obtain ⟨s', hsend, hsignals, hended, hthreads⟩ := sendShutdown_eq (config.threadNum - 1)
    { s.set 0 (s.threads 0).closeListeners with signals := s.signals + 1 } (by
      intro j hpos hle
      exact (congrArg Thread.phase (set_of_ne s _ (Nat.ne_of_gt hpos))).trans
        (hrunning j (by omega)))
  refine ⟨s', hsend, hsignals, hended, ?_, fun j hj hlt => ?_, fun j hle => ?_⟩
  · rw [hthreads, if_neg (by omega)]
    exact set_self s 0 _
  · rw [hthreads, if_pos (by omega)]
    dsimp only
    rw [set_of_ne s _ (Nat.ne_of_gt hj)]
  · rw [hthreads, if_neg (by omega)]
    exact set_of_ne s _ (by omega)

theorem shutdownServer_step (hok : ServerOk config s)
    (hrunning : ∀ i < config.threadNum, (s.threads i).phase = .running) (err : Bool) :
    ∃ s', s.shutdownServer config err = some s' ∧ ServerOk config s' ∧
      ∀ j, Later (s.threads j) (s'.threads j) := by
  have hpos := config.threadNum_pos
  cases err with
  | true => exact ⟨s, rfl, hok, fun j hshutdown => ⟨hshutdown, rfl⟩⟩
  | false =>
    obtain ⟨s', hsend, hsignals, hended, hmain, hothers, hrest⟩ := shutdownServer_eq s hrunning
    have hthread : ∀ j, ThreadOk config s'.signals j (s'.threads j) ∧
        (j < config.threadNum → (s'.threads j).phase = .running) ∧
        Later (s.threads j) (s'.threads j) := by
      intro j
      have hold := hok.threads j
      rw [hsignals]
      rcases Nat.eq_zero_or_pos j with rfl | hj
      · have hclosed := hold.closeListeners (hrunning 0 hpos) s.signals.succ_pos
        have hnone : (s.threads 0).messages = 0 := ((told_iff hpos).mp hold.told).1 rfl
        have heq : s'.threads 0 = { (s.threads 0).closeListeners with messages := 0 } := by
          rw [hmain]
          simp [Thread.closeListeners, hnone]
        rw [heq]
        exact ⟨hclosed, fun _ => hrunning 0 hpos, fun _ => ⟨rfl, rfl⟩⟩
      · rcases Nat.lt_or_ge j config.threadNum with hlt | hge
        · rw [hothers j hj hlt]
          exact ⟨hold.sendMessage (hrunning j hlt) (Nat.ne_of_gt hj) s.signals.succ_pos,
            fun _ => hrunning j hlt, fun hshutdown => ⟨hshutdown, rfl⟩⟩
        · rw [hrest j hge]
          refine ⟨?_, fun hlt => absurd hlt (Nat.not_lt.mpr hge), fun hshutdown => ⟨hshutdown, rfl⟩⟩
          have htold := hold.told
          rw [Told, if_neg (Nat.ne_of_gt hj), if_neg (Nat.not_lt.mpr hge)] at htold
          have htold' : Told config (s.signals + 1) j (s.threads j) := by
            rw [Told, if_neg (Nat.ne_of_gt hj), if_neg (Nat.not_lt.mpr hge), htold]
          exact { hold with told := htold' }
    refine ⟨s', hsend, ⟨fun j => (hthread j).1, fun _ j hlt => ?_, fun htrue => ?_⟩,
      fun j => (hthread j).2.2⟩
    · exact Phase.running_ne_starting ((hthread j).2.1 hlt)
    · rw [hended] at htrue
      exact absurd (hok.ended htrue 0 hpos) (Phase.running_ne_stopped (hrunning 0 hpos))

/-- Every event that can happen has a next state, and keeps the invariant. -/
theorem next_step (hok : ServerOk config s) (hallowed : s.Allowed config e) :
    ∃ s', s.next config e = some s' ∧ ServerOk config s' ∧
      ∀ j, Later (s.threads j) (s'.threads j) := by
  cases e with
  | initializeThread i =>
    obtain ⟨hlt, hstarting⟩ := hallowed
    have hsignals : s.signals = 0 := by
      by_contra hne
      exact hok.started (Nat.pos_of_ne_zero hne) i hlt hstarting
    have hthread := (hok.threads i).initializeEventLoop hstarting hsignals hlt
    have hunborn := (hok.threads i).unborn hstarting
    refine ⟨_, rfl, hok.set hlt (by rw [hstarting]; decide) hthread ?_ ?_⟩
    · exact fun hphase => Phase.noConfusion hphase
    · intro hshutdown
      rw [hunborn] at hshutdown
      cases hshutdown
  | listener i https pending err =>
    obtain ⟨hrunning, hopen⟩ := hallowed
    obtain ⟨hthread, hphase, hshutdown, hlength⟩ :=
      (hok.threads i).listener hrunning https err pending hopen
    exact ⟨_, rfl, hok.set ((hok.threads i).lt (Phase.running_ne_starting hrunning))
      (Phase.running_ne_stopped hrunning) hthread (Phase.running_ne_starting hphase)
      fun htrue => ⟨hshutdown.trans htrue, hlength htrue⟩⟩
  | close i k =>
    obtain ⟨hrunning, conn, hk, hopen⟩ := hallowed
    have hthread := (hok.threads i).close hrunning hk hopen
    refine ⟨_, ?_, hok.set ((hok.threads i).lt (Phase.running_ne_starting hrunning))
      (Phase.running_ne_stopped hrunning) hthread (Phase.running_ne_starting hrunning)
      fun htrue => ⟨htrue, List.length_set⟩⟩
    rw [Server.next, hk, Option.bind_some, Thread.onCloseConnection,
      if_neg ((hok.threads i).connNum_ne_zero hk hopen), Option.map_some]
  | messages i =>
    obtain ⟨hrunning, hpos⟩ := hallowed
    have hthread := (hok.threads i).closeListeners hrunning
      ((hok.threads i).signals_pos hrunning hpos)
    refine ⟨_, ?_, hok.set ((hok.threads i).lt (Phase.running_ne_starting hrunning))
      (Phase.running_ne_stopped hrunning) hthread (Phase.running_ne_starting hrunning)
      fun _ => ⟨rfl, rfl⟩⟩
    rw [Server.next, processMessages_eq, if_neg (Nat.ne_of_gt hpos)]
  | signal err => exact shutdownServer_step hok hallowed err
  | sendLocalMessage i =>
    exact ⟨_, rfl, hok.set ((hok.threads i).lt (Phase.running_ne_starting hallowed))
      (Phase.running_ne_stopped hallowed) ((hok.threads i).localMessages hallowed _)
      (Phase.running_ne_starting hallowed) fun htrue => ⟨htrue, rfl⟩⟩
  | task i =>
    exact ⟨_, rfl, hok.set ((hok.threads i).lt (Phase.running_ne_starting hallowed.1))
      (Phase.running_ne_stopped hallowed.1) ((hok.threads i).localMessages hallowed.1 _)
      (Phase.running_ne_starting hallowed.1) fun htrue => ⟨htrue, rfl⟩⟩
  | round i =>
    obtain ⟨hrunning, hlocal⟩ := hallowed
    rw [Server.next]
    split
    · exact ⟨s, rfl, hok, fun j hshutdown => ⟨hshutdown, rfl⟩⟩
    · rename_i hdone
      simp only [Bool.or_eq_true, Bool.not_eq_true', decide_eq_true_eq, not_or,
        Bool.not_eq_false, not_not] at hdone
      exact ⟨_, rfl, hok.set ((hok.threads i).lt (Phase.running_ne_starting hrunning))
        (Phase.running_ne_stopped hrunning)
        ((hok.threads i).stop hrunning hdone.1 hdone.2 hlocal)
        (fun hphase => Phase.noConfusion hphase) fun htrue => ⟨htrue, rfl⟩⟩
  | join =>
    exact ⟨_, rfl, ⟨hok.threads, hok.started, fun _ => hallowed.2⟩,
      fun j hshutdown => ⟨hshutdown, rfl⟩⟩

theorem start_ok : ServerOk config .start where
  threads i :=
    { connNum := rfl
      unborn := fun _ => rfl
      sslCtx := fun h => absurd rfl h
      tls := fun conn hmem => absurd hmem List.not_mem_nil
      listeners := fun h => absurd rfl h
      stopped := fun h => Phase.noConfusion h
      told := by
        by_cases hlt : i < config.threadNum
        · rw [told_iff hlt]
          exact ⟨fun _ => rfl, by simp [Server.start, Thread.unborn]⟩
        · have hzero : i ≠ 0 := by
            rintro rfl
            exact hlt config.threadNum_pos
          rw [Told, if_neg hzero, if_neg hlt]
          rfl }
  started h := absurd h (Nat.lt_irrefl 0)
  ended h := Bool.noConfusion h

end Steps

section Progress

/-- What a thread still has to do before it can end. -/
def Thread.work (t : Thread) : ℕ := t.messages + t.localMessages + t.connNum

/-- A thread with work left can do some of it. -/
theorem work_step (hok : ServerOk config s) (hrunning : (s.threads i).phase = .running)
    (hwork : 0 < (s.threads i).work) :
    ∃ e t', s.Allowed config e ∧ s.next config e = some (s.set i t') ∧ t'.phase = .running ∧
      t'.work < (s.threads i).work := by
  have hthread := hok.threads i
  rcases Nat.eq_zero_or_pos (s.threads i).messages with hmessages | hmessages
  · rcases Nat.eq_zero_or_pos (s.threads i).localMessages with hlocal | hlocal
    · have hconn : 0 < (s.threads i).conns.countP (·.isOpen) := by
        rw [← hthread.connNum]
        rw [Thread.work] at hwork
        omega
      obtain ⟨conn, hmem, hopen⟩ := List.countP_pos_iff.mp hconn
      obtain ⟨k, hk⟩ := List.mem_iff_getElem?.mp hmem
      have hne := hthread.connNum_ne_zero hk hopen
      refine ⟨.close i k, { s.threads i with
        connNum := (s.threads i).connNum - 1
        conns := (s.threads i).conns.set k { conn with isOpen := false } },
        ⟨hrunning, conn, hk, hopen⟩, ?_, hrunning, ?_⟩
      · rw [Server.next, hk, Option.bind_some, Thread.onCloseConnection, if_neg hne,
          Option.map_some]
      · simp only [Thread.work]
        omega
    · refine ⟨.task i, { s.threads i with localMessages := (s.threads i).localMessages - 1 },
        ⟨hrunning, hlocal⟩, rfl, hrunning, ?_⟩
      simp only [Thread.work]
      omega
  · refine ⟨.messages i, { (s.threads i).closeListeners with messages := 0 },
      ⟨hrunning, hmessages⟩, ?_, hrunning, ?_⟩
    · rw [Server.next, processMessages_eq, if_neg (Nat.ne_of_gt hmessages)]
    · simp only [Thread.work, Thread.closeListeners]
      omega

/-- After a signal a thread can do all its work and end, whatever the other threads do. -/
theorem drain_thread (n : ℕ) (hok : ServerOk config s) (hsignals : 0 < s.signals)
    (hrunning : (s.threads i).phase = .running) (hwork : (s.threads i).work ≤ n) :
    ∃ ls s', GuardedRun (Server.next config) (Server.Allowed config) s ls s' ∧
      ServerOk config s' ∧ 0 < s'.signals ∧ (s'.threads i).phase = .stopped ∧
      ∀ j, j ≠ i → s'.threads j = s.threads j := by
  induction n generalizing s with
  | zero =>
    have hnone : (s.threads i).messages = 0 ∧ (s.threads i).localMessages = 0 ∧
        (s.threads i).connNum = 0 := by
      rw [Thread.work] at hwork
      omega
    have hallowed : s.Allowed config (.round i) := ⟨hrunning, hnone.2.1⟩
    have hshutdown := (hok.threads i).shutdown hrunning hsignals hnone.1
    have hnext : s.next config (.round i) =
        some (s.set i { s.threads i with phase := .stopped }) := by
      rw [Server.next, if_neg]
      simp [hshutdown, hnone.2.2]
    obtain ⟨s', hnext', hok', -⟩ := next_step hok hallowed
    obtain rfl : _ = s' := Option.some.inj (hnext.symm.trans hnext')
    refine ⟨_, _, .cons hallowed hnext (.nil _), hok', hsignals, ?_, fun j hj => set_of_ne s _ hj⟩
    rw [set_self]
  | succ n ih =>
    rcases Nat.eq_zero_or_pos (s.threads i).work with hzero | hpos
    · exact ih hok hsignals hrunning (by omega)
    · obtain ⟨e, t', hallowed, hnext, hphase, hless⟩ := work_step hok hrunning hpos
      obtain ⟨s', hnext', hok', -⟩ := next_step hok hallowed
      obtain rfl : _ = s' := Option.some.inj (hnext.symm.trans hnext')
      obtain ⟨ls, s'', hrun, hok'', hsignals'', hstopped, hothers⟩ :=
        ih hok' hsignals (by rwa [set_self]) (by rw [set_self]; omega)
      refine ⟨_, s'', .cons hallowed hnext hrun, hok'', hsignals'', hstopped, fun j hj => ?_⟩
      rw [hothers j hj, set_of_ne s t' hj]

/-- After a signal the threads can all end, one after the other. -/
theorem drain (n : ℕ) (hok : ServerOk config s) (hsignals : 0 < s.signals)
    (hle : n ≤ config.threadNum) :
    ∃ ls s', GuardedRun (Server.next config) (Server.Allowed config) s ls s' ∧
      ServerOk config s' ∧ 0 < s'.signals ∧ ∀ j < n, (s'.threads j).phase = .stopped := by
  induction n with
  | zero => exact ⟨[], s, .nil s, hok, hsignals, fun j hlt => absurd hlt (Nat.not_lt_zero j)⟩
  | succ n ih =>
    obtain ⟨ls, s', hrun, hok', hsignals', hstopped⟩ := ih (by omega)
    have hstep : ∃ ls s'', GuardedRun (Server.next config) (Server.Allowed config) s' ls s'' ∧
        ServerOk config s'' ∧ 0 < s''.signals ∧ (s''.threads n).phase = .stopped ∧
        ∀ j, j ≠ n → s''.threads j = s'.threads j := by
      cases hphase : (s'.threads n).phase with
      | starting => exact absurd hphase (hok'.started hsignals' n (by omega))
      | running => exact drain_thread _ hok' hsignals' hphase (Nat.le_refl _)
      | stopped => exact ⟨[], s', .nil s', hok', hsignals', hphase, fun j _ => rfl⟩
    obtain ⟨ls', s'', hrun', hok'', hsignals'', hlast, hothers⟩ := hstep
    refine ⟨_, s'', hrun.append hrun', hok'', hsignals'', fun j hlt => ?_⟩
    by_cases hj : j = n
    · rw [hj]
      exact hlast
    · rw [hothers j hj]
      exact hstopped j (by omega)

/-- The main thread comes to the end of `main`. -/
theorem reach_end (hok : ServerOk config s) (hsignals : 0 < s.signals) :
    ∃ ls s', GuardedRun (Server.next config) (Server.Allowed config) s ls s' ∧
      s'.ended = true := by
  obtain ⟨ls, s', hrun, hok', -, hstopped⟩ := drain config.threadNum hok hsignals (Nat.le_refl _)
  cases hended : s'.ended with
  | true => exact ⟨ls, s', hrun, hended⟩
  | false =>
    have hallowed : s'.Allowed config .join := ⟨hended, hstopped⟩
    exact ⟨_, _, hrun.snoc hallowed rfl, rfl⟩

end Progress

end FrameworkBenchmarks.H2o.EventLoop
