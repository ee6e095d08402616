import FrameworkBenchmarks.TitanPl.SentOnce

/-!
# The worker threads and how requests reach them

`RuntimeManager::execute` offers a request to the workers in turn, each behind a bounded channel, and
waits at the first of them if all channels are full. The results of asynchronous operations come back
over the channel of the worker that issued them. Calls, workers and operations go on in any order.
-/

namespace FrameworkBenchmarks.TitanPl

open Common

variable {N D : Type}

/-- `channel_capacity` -/
def CHANNEL_CAPACITY : ℕ := 256

/-- `WorkerCommand` in a channel. A request carries the call that waits for its response; a resume
names its operation by the position among those of the worker that are not resumed yet. -/
inductive WorkerCommand (N D : Type) where
  | request (call : ℕ) (task : RequestData)
  | resume (op : ℕ) (result : Value N) (duration : D)

namespace WorkerCommand

def command : WorkerCommand N D → Command N D
  | request _ task => .request task
  | resume op result duration => .resume op result duration

def call? : WorkerCommand N D → Option ℕ
  | request call _ => some call
  | resume _ _ _ => none

def op? : WorkerCommand N D → Option ℕ
  | request _ _ => none
  | resume op _ _ => some op

/-- The command after another one was taken: the operation of a resume has left the list. -/
def after : WorkerCommand N D → WorkerCommand N D → WorkerCommand N D
  | resume p _ _, resume op result duration =>
    resume (if p < op then op - 1 else op) result duration
  | _, cmd => cmd

end WorkerCommand

/-- A worker thread, its channel, and the calls whose requests it has taken so far. -/
structure WorkerThread (N D : Type) where
  queue : List (WorkerCommand N D)
  system : System N D
  served : List ℕ

/-- Where a call of `execute` is. -/
inductive CallState where
  /-- in the loop over the workers -/
  | trying (startIdx attempt : ℕ)
  /-- in the blocking `send` behind the loop -/
  | blocked (startIdx : ℕ)
  /-- at `rx.await`, with the request sent to this worker -/
  | sent (idx : ℕ)
deriving DecidableEq

/-- `RuntimeManager`, with its worker threads and the calls of `execute` so far -/
structure RuntimeManager (N D : Type) where
  roundRobinCounter : ℕ
  workers : ℕ → WorkerThread N D
  calls : List (RequestData × CallState)

/-- `RuntimeManager::new` -/
def RuntimeManager.new : RuntimeManager N D where
  roundRobinCounter := 0
  workers _ := ⟨[], .init, []⟩
  calls := []

/-- What happens next: a new call, one round of its loop or the end of its blocking `send`, one turn
of a worker, or the result of one of its operations. -/
inductive Turn (N D : Type) where
  | execute (task : RequestData)
  | attempt (call : ℕ)
  | send (call : ℕ)
  | work (idx : ℕ)
  | complete (idx op : ℕ) (result : Value N) (duration : D)

namespace RuntimeManager

def setWorker (m : RuntimeManager N D) (idx : ℕ) (thread : WorkerThread N D) :
    RuntimeManager N D :=
  { m with workers := Function.update m.workers idx thread }

@[simp] theorem workers_setWorker_self (m : RuntimeManager N D) (idx : ℕ)
    (thread : WorkerThread N D) : (m.setWorker idx thread).workers idx = thread := by
  simp [setWorker]

@[simp] theorem workers_setWorker_of_ne (m : RuntimeManager N D) {idx idx' : ℕ}
    (h : idx' ≠ idx) (thread : WorkerThread N D) :
    (m.setWorker idx thread).workers idx' = m.workers idx' := by
  simp [setWorker, h]

/-- A command at the end of a channel. -/
def push (m : RuntimeManager N D) (idx : ℕ) (cmd : WorkerCommand N D) : RuntimeManager N D :=
  m.setWorker idx { m.workers idx with queue := (m.workers idx).queue ++ [cmd] }

/-- Whether a channel takes another command. -/
def hasRoom (m : RuntimeManager N D) (idx : ℕ) : Bool :=
  (m.workers idx).queue.length < CHANNEL_CAPACITY

/-- The request of a call is sent. -/
def sendTo (m : RuntimeManager N D) (call idx : ℕ) (task : RequestData) : RuntimeManager N D :=
  { m.push idx (.request call task) with calls := m.calls.set call (task, .sent idx) }

section Next

variable (numWorkers : ℕ) (w : ℕ → Worker N)

def next (m : RuntimeManager N D) : Turn N D → Option (RuntimeManager N D)
  | .execute task =>
    some { m with
      roundRobinCounter := (m.roundRobinCounter + 1) % 2 ^ 64
      calls := m.calls ++ [(task, .trying (m.roundRobinCounter % numWorkers) 0)] }
  | .attempt call =>
    match m.calls[call]? with
    | some (task, .trying startIdx attempt) =>
      let idx := (startIdx + attempt) % numWorkers
      if m.hasRoom idx then some (m.sendTo call idx task)
      else if attempt + 1 < numWorkers then
        some { m with calls := m.calls.set call (task, .trying startIdx (attempt + 1)) }
      else some { m with calls := m.calls.set call (task, .blocked startIdx) }
    | _ => none
  | .send call =>
    match m.calls[call]? with
    | some (task, .blocked startIdx) =>
      if m.hasRoom startIdx then some (m.sendTo call startIdx task) else none
    | _ => none
  | .work idx =>
    match (m.workers idx).queue with
    | [] => none
    | cmd :: queue =>
      ((m.workers idx).system.next (w idx) cmd.command).map fun system =>
        m.setWorker idx
          { queue := queue.map cmd.after
            system
            served := (m.workers idx).served ++ cmd.call?.toList }
  | .complete idx op result duration =>
    if m.hasRoom idx ∧ op < (m.workers idx).system.rt.asyncOps.length ∧
        op ∉ (m.workers idx).queue.filterMap WorkerCommand.op? then
      some (m.push idx (.resume op result duration))
    else none

end Next

/-- The calls whose requests have reached a worker, in the order of their arrival. -/
def arrivals (m : RuntimeManager N D) (idx : ℕ) : List ℕ :=
  (m.workers idx).served ++ (m.workers idx).queue.filterMap WorkerCommand.call?

end RuntimeManager

/-! ### Operations in flight -/

section AsyncOps

variable {w : Worker N} {rt : TitanRuntime N D}

theorem asyncOps_nativeDriftCall (r call : ℕ) (arg : DriftArg) (rt : TitanRuntime N D) :
    rt.asyncOps <+: (nativeDriftCall w r call arg rt).1.asyncOps := by
  unfold nativeDriftCall
  cases arg.asyncOp with
  | none => exact List.prefix_rfl
  | some parsed =>
    dsimp only
    cases rt.completedDrifts (u32Succ rt.driftCounter) with
    | some result => exact List.prefix_rfl
    | none =>
      dsimp only
      split
      · exact List.prefix_append _ _
      · exact List.prefix_rfl

theorem asyncOps_runAction (r : ℕ) (action : Action N) :
    ∀ (call : ℕ) (rt : TitanRuntime N D),
      rt.asyncOps <+: (runAction w r call action rt).1.asyncOps := by
  induction action with
  | done value => exact fun _ _ => List.prefix_rfl
  | throw err => exact fun _ _ => List.prefix_rfl
  | drift arg rest ih =>
    intro call rt
    exact (asyncOps_nativeDriftCall r call arg rt).trans (ih _ _ _)

/-- An execution only adds operations, at the end. -/
theorem asyncOps_execute (r : ℕ) (data : RequestData) (rt : TitanRuntime N D) :
    rt.asyncOps <+: (executeActionOptimized w r data rt).asyncOps := by
  cases hact : w.actions data.actionName with
  | none =>
    rw [executeActionOptimized_missing hact]
    change rt.asyncOps <+:
      (settle r (.escape ("Action '" ++ data.actionName ++ "' not found")) rt).asyncOps
    rw [(settle_books r _ rt).2.2.2]
  | some action =>
    rw [executeActionOptimized_eq hact]
    rw [(settle_books r _ _).2.2.2]
    exact asyncOps_runAction r (action data) 0 rt

/-- Taking a request only adds operations. -/
theorem asyncOps_request {s s' : System N D} {task : RequestData}
    (hnext : s.next w (.request task) = some s') : s.rt.asyncOps <+: s'.rt.asyncOps := by
  cases hnext
  have hexec := asyncOps_execute (w := w) (u32Succ s.rt.requestCounter) task
    (admitRequest s.accepted.length s.rt)
  simp only [handleNewRequest]
  split
  · exact hexec
  · exact hexec

/-- Taking a result removes its operation and adds others at the end. -/
theorem asyncOps_resume {s s' : System N D} {i : ℕ} {result : Value N} {duration : D}
    (hnext : s.next w (.resume i result duration) = some s') :
    s.rt.asyncOps.eraseIdx i <+: s'.rt.asyncOps := by
  obtain ⟨op, _, rfl⟩ := Option.map_eq_some_iff.mp hnext
  simp only [handleResume]
  split
  · rw [(forgetAnswered_books _ _).2.2.1]
    exact asyncOps_execute _ _ (rewindCounter _ (recordDrift op.driftId _ result duration
      { s.rt with asyncOps := s.rt.asyncOps.eraseIdx i }))
  · rw [(forgetAnswered_books _ _).2.2.1]
    exact List.prefix_rfl

end AsyncOps

/-! ### The invariant -/

/-- The commands in a channel name operations that are in flight, each once. -/
structure NamesOps (ops : List AsyncOpRequest) (queue : List (WorkerCommand N D)) : Prop where
  bound : ∀ p ∈ queue.filterMap WorkerCommand.op?, p < ops.length
  nodup : (queue.filterMap WorkerCommand.op?).Nodup

section NamesOps

variable {ops ops' : List AsyncOpRequest} {queue : List (WorkerCommand N D)}
  {cmd : WorkerCommand N D}

theorem NamesOps.mono (h : NamesOps ops queue) (hops : ops <+: ops') : NamesOps ops' queue :=
  ⟨fun p hp => Nat.lt_of_lt_of_le (h.bound p hp) hops.length_le, h.nodup⟩

theorem NamesOps.push {p : ℕ} {result : Value N} {duration : D} (h : NamesOps ops queue)
    (hlt : p < ops.length) (hnew : p ∉ queue.filterMap WorkerCommand.op?) :
    NamesOps ops (queue ++ [.resume p result duration]) := by
  have hops : (queue ++ [WorkerCommand.resume p result duration]).filterMap WorkerCommand.op? =
      queue.filterMap WorkerCommand.op? ++ [p] := by
    rw [List.filterMap_append]
    rfl
  constructor
  · rw [hops]
    intro q hq
    cases List.mem_append.mp hq with
    | inl hold => exact h.bound q hold
    | inr hlast => exact List.mem_singleton.mp hlast ▸ hlt
  · rw [hops, List.nodup_append]
    refine ⟨h.nodup, List.nodup_singleton p, ?_⟩
    intro q hq q' hq' heq
    exact hnew (List.mem_singleton.mp hq' ▸ heq ▸ hq)

theorem after_request (call : ℕ) (task : RequestData) (queue : List (WorkerCommand N D)) :
    queue.map (WorkerCommand.request call task : WorkerCommand N D).after = queue := by
  have hid : (WorkerCommand.request call task : WorkerCommand N D).after = id := by
    funext cmd
    cases cmd with
    | request call' task' => rfl
    | resume op result duration => rfl
  rw [hid, List.map_id]

theorem op?_after (p : ℕ) (result : Value N) (duration : D) (queue : List (WorkerCommand N D)) :
    (queue.map (WorkerCommand.resume p result duration).after).filterMap WorkerCommand.op? =
      (queue.filterMap WorkerCommand.op?).map fun q => if p < q then q - 1 else q := by
  induction queue with
  | nil => rfl
  | cons cmd queue ih =>
    cases cmd with
    | request call task => exact ih
    | resume op result' duration' => exact congrArg (_ :: ·) ih

theorem call?_after (cmd : WorkerCommand N D) (queue : List (WorkerCommand N D)) :
    (queue.map cmd.after).filterMap WorkerCommand.call? =
      queue.filterMap WorkerCommand.call? := by
  have hcall : ∀ cmd' : WorkerCommand N D, (cmd.after cmd').call? = cmd'.call? := by
    intro cmd'
    cases cmd with
    | request call task => rfl
    | resume op result duration =>
      cases cmd' with
      | request call task => rfl
      | resume op' result' duration' => rfl
  rw [List.filterMap_map]
  exact List.filterMap_congr fun cmd' _ => hcall cmd'

/-- Once the first resume is taken, the others name what is left. -/
theorem NamesOps.take {p : ℕ} {result : Value N} {duration : D}
    (h : NamesOps ops (.resume p result duration :: queue)) :
    NamesOps (ops.eraseIdx p) (queue.map (WorkerCommand.resume p result duration).after) := by
  have hnodup : (p :: queue.filterMap WorkerCommand.op?).Nodup := h.nodup
  have hp : p < ops.length := h.bound p List.mem_cons_self
  have hne : ∀ q ∈ queue.filterMap WorkerCommand.op?, q ≠ p := by
    intro q hq heq
    exact (List.nodup_cons.mp hnodup).1 (heq ▸ hq)
  constructor
  · rw [op?_after]
    intro q' hq'
    obtain ⟨q, hq, rfl⟩ := List.mem_map.mp hq'
    have hlt : q < ops.length := h.bound q (List.mem_cons_of_mem _ hq)
    have hqp := hne q hq
    rw [List.length_eraseIdx_of_lt hp]
    split
    · omega
    · omega
  · rw [op?_after]
    apply List.Nodup.map_on _ (List.nodup_cons.mp hnodup).2
    intro q hq q' hq' heq
    have hqp := hne q hq
    have hqp' := hne q' hq'
    split at heq
    · split at heq
      · omega
      · omega
    · split at heq
      · omega
      · omega

end NamesOps

/-- What holds of a worker thread: its channel is not overfull, its commands can be taken, the
requests are those of the calls, and its system has come about by commands only. -/
structure ThreadOk (w : Worker N) (taskOf : ℕ → Option RequestData) (thread : WorkerThread N D) :
    Prop where
  capacity : thread.queue.length ≤ CHANNEL_CAPACITY
  ops : NamesOps thread.system.rt.asyncOps thread.queue
  queued : ∀ call task, .request call task ∈ thread.queue → taskOf call = some task
  taken : thread.served.map taskOf = thread.system.accepted.map fun r => some r.2
  run : ∃ cmds, Run (System.next w) .init cmds thread.system

section ThreadOk

variable {w : Worker N} {taskOf taskOf' : ℕ → Option RequestData} {thread : WorkerThread N D}

theorem ThreadOk.congr (h : ThreadOk w taskOf thread)
    (hsame : ∀ call task, taskOf call = some task → taskOf' call = some task) :
    ThreadOk w taskOf' thread := by
  refine ⟨h.capacity, h.ops, fun call task hmem => hsame call task (h.queued call task hmem), ?_,
    h.run⟩
  rw [← h.taken]
  apply List.map_congr_left
  intro call hcall
  have hmem : taskOf call ∈ thread.served.map taskOf := List.mem_map_of_mem hcall
  rw [h.taken] at hmem
  obtain ⟨r, _, hr⟩ := List.mem_map.mp hmem
  rw [← hr]
  exact hsame call r.2 hr.symm

/-- The next command in the channel can always be taken. -/
theorem ThreadOk.next_isSome {cmd : WorkerCommand N D} {queue : List (WorkerCommand N D)}
    (h : ThreadOk w taskOf thread) (hqueue : thread.queue = cmd :: queue) :
    (thread.system.next w cmd.command).isSome := by
  cases cmd with
  | request call task => rfl
  | resume p result duration =>
    have hp : p < thread.system.rt.asyncOps.length := by
      apply h.ops.bound
      rw [hqueue]
      exact List.mem_cons_self
    change ((thread.system.rt.asyncOps[p]?).map _).isSome
    rw [Option.isSome_map, List.getElem?_eq_getElem hp]
    rfl

/-- A turn of the worker. -/
theorem ThreadOk.work {cmd : WorkerCommand N D} {queue : List (WorkerCommand N D)}
    {system : System N D} (h : ThreadOk w taskOf thread) (hqueue : thread.queue = cmd :: queue)
    (hnext : thread.system.next w cmd.command = some system) :
    ThreadOk w taskOf
      { queue := queue.map cmd.after, system, served := thread.served ++ cmd.call?.toList } := by
  have hcapacity := h.capacity
  have hops := h.ops
  have hqueued := h.queued
  rw [hqueue] at hcapacity hops hqueued
  rw [List.length_cons] at hcapacity
  obtain ⟨cmds, hrun⟩ := h.run
  have hrun' : ∃ cmds, Run (System.next w) .init cmds system :=
    ⟨cmds ++ [cmd.command], hrun.snoc trivial hnext⟩
  cases cmd with
  | request call task =>
    have htask : taskOf call = some task := hqueued call task List.mem_cons_self
    have haccepted : ∃ r, system.accepted = thread.system.accepted ++ [(r, task)] := by
      cases hnext
      exact ⟨_, rfl⟩
    obtain ⟨r, haccepted⟩ := haccepted
    refine ⟨?_, ?_, ?_, ?_, hrun'⟩
    · rw [List.length_map]
      exact Nat.le_of_succ_le hcapacity
    · rw [after_request]
      have hrest : NamesOps thread.system.rt.asyncOps queue := ⟨hops.bound, hops.nodup⟩
      exact hrest.mono (asyncOps_request hnext)
    · rw [after_request]
      exact fun call' task' hmem => hqueued call' task' (List.mem_cons_of_mem _ hmem)
    · change (thread.served ++ [call]).map taskOf = _
      rw [List.map_append, h.taken, haccepted, List.map_append, List.map_singleton,
        List.map_singleton, htask]
  | resume p result duration =>
    have haccepted : system.accepted = thread.system.accepted := by
      obtain ⟨op, _, rfl⟩ := Option.map_eq_some_iff.mp hnext
      rfl
    refine ⟨?_, ?_, ?_, ?_, hrun'⟩
    · rw [List.length_map]
      exact Nat.le_of_succ_le hcapacity
    · exact hops.take.mono (asyncOps_resume hnext)
    · intro call' task' hmem
      obtain ⟨cmd', hmem', hcmd'⟩ := List.mem_map.mp hmem
      have hsame : cmd' = .request call' task' := by
        cases cmd' with
        | request call task => exact hcmd'
        | resume op result' duration' => cases hcmd'
      exact hqueued call' task' (List.mem_cons_of_mem _ (hsame ▸ hmem'))
    · change (thread.served ++ []).map taskOf = _
      rw [List.append_nil, h.taken, haccepted]

end ThreadOk

/-! ### Runs of the manager -/

namespace RuntimeManager

/-- The request of a call. -/
def taskOf (m : RuntimeManager N D) (call : ℕ) : Option RequestData := (m.calls[call]?).map Prod.fst

def stateOf (m : RuntimeManager N D) (call : ℕ) : Option CallState := (m.calls[call]?).map Prod.snd

end RuntimeManager

/-- The worker a call is at, or starts at. -/
def CallState.target : CallState → ℕ
  | .trying startIdx _ => startIdx
  | .blocked startIdx => startIdx
  | .sent idx => idx

/-- What holds between two turns: every request that was sent is once at one worker. -/
structure ManagerOk (numWorkers : ℕ) (w : ℕ → Worker N) (m : RuntimeManager N D) : Prop where
  threads : ∀ idx, ThreadOk (w idx) m.taskOf (m.workers idx)
  placed : ∀ idx call, (m.arrivals idx).count call =
    if m.stateOf call = some (.sent idx) then 1 else 0
  inRange : ∀ call state, m.stateOf call = some state → state.target < numWorkers

section ManagerOk

variable {numWorkers : ℕ} {w : ℕ → Worker N} {m m' : RuntimeManager N D}

theorem managerOk_new : ManagerOk numWorkers w (RuntimeManager.new : RuntimeManager N D) := by
  constructor
  · intro idx
    refine ⟨Nat.zero_le _, ⟨?_, List.nodup_nil⟩, ?_, rfl, [], .nil _⟩
    · intro p hp
      cases hp
    · intro call task hmem
      cases hmem
  · intro idx call
    rfl
  · intro call state hstate
    cases hstate

/-- Other states of calls, none of which is sent. -/
theorem ManagerOk.setCalls (h : ManagerOk numWorkers w m) {calls : List (RequestData × CallState)}
    (htask : ∀ call task, m.taskOf call = some task → (calls[call]?).map Prod.fst = some task)
    (hsent : ∀ call idx, (calls[call]?).map Prod.snd = some (.sent idx) ↔
      m.stateOf call = some (.sent idx))
    (hrange : ∀ (call : ℕ) (state : CallState), (calls[call]?).map Prod.snd = some state →
      state.target < numWorkers) :
    ManagerOk numWorkers w { m with calls } := by
  constructor
  · exact fun idx => (h.threads idx).congr htask
  · intro idx call
    have hplaced := h.placed idx call
    rw [← if_congr (hsent call idx) rfl rfl] at hplaced
    exact hplaced
  · exact hrange

/-- Another thread of a worker at which the same requests have arrived. -/
theorem ManagerOk.setWorker (h : ManagerOk numWorkers w m) {idx : ℕ} {thread : WorkerThread N D}
    (hthread : ThreadOk (w idx) m.taskOf thread)
    (harrivals : thread.served ++ thread.queue.filterMap WorkerCommand.call? = m.arrivals idx) :
    ManagerOk numWorkers w (m.setWorker idx thread) := by
  constructor
  · intro idx'
    by_cases hidx : idx' = idx
    · rw [hidx, RuntimeManager.workers_setWorker_self]
      exact hthread
    · rw [RuntimeManager.workers_setWorker_of_ne m hidx]
      exact h.threads idx'
  · intro idx' call
    refine Eq.trans ?_ (h.placed idx' call)
    by_cases hidx : idx' = idx
    · rw [hidx, ← harrivals, RuntimeManager.arrivals, RuntimeManager.workers_setWorker_self]
    · rw [RuntimeManager.arrivals, RuntimeManager.workers_setWorker_of_ne m hidx]
      rfl
  · exact h.inRange

theorem getElem?_set_call {call : ℕ} {entry entry' : RequestData × CallState}
    (hcall : m.calls[call]? = some entry) (call' : ℕ) :
    (m.calls.set call entry')[call']? = if call' = call then some entry' else m.calls[call']? := by
  have hlt : call < m.calls.length := (List.getElem?_eq_some_iff.mp hcall).1
  by_cases hsame : call' = call
  · rw [if_pos hsame, hsame, List.getElem?_set_self hlt]
  · rw [if_neg hsame, List.getElem?_set_ne (Ne.symm hsame)]

/-- A call that goes on trying, or waits for room. -/
theorem ManagerOk.wait (h : ManagerOk numWorkers w m) {call : ℕ} {task : RequestData}
    {state state' : CallState} (hcall : m.calls[call]? = some (task, state))
    (hstate : ∀ idx, state ≠ .sent idx) (hstate' : ∀ idx, state' ≠ .sent idx)
    (htarget : state'.target = state.target) :
    ManagerOk numWorkers w { m with calls := m.calls.set call (task, state') } := by
  have hget := fun call' => @getElem?_set_call N D m call _ (task, state') hcall call'
  have hold : m.stateOf call = some state := congrArg (Option.map Prod.snd) hcall
  have htask : m.taskOf call = some task := congrArg (Option.map Prod.fst) hcall
  apply h.setCalls
  · intro call' task' htask'
    rw [hget]
    by_cases hsame : call' = call
    · rw [if_pos hsame, ← htask', hsame, htask]
      rfl
    · rwa [if_neg hsame]
  · intro call' idx
    rw [hget]
    by_cases hsame : call' = call
    · rw [if_pos hsame, hsame, hold]
      exact ⟨fun heq => absurd (Option.some.inj heq) (hstate' idx),
        fun heq => absurd (Option.some.inj heq) (hstate idx)⟩
    · rw [if_neg hsame]
      exact Iff.rfl
  · intro call' state'' hstate''
    rw [hget] at hstate''
    by_cases hsame : call' = call
    · rw [if_pos hsame] at hstate''
      obtain rfl : state' = state'' := Option.some.inj hstate''
      rw [htarget]
      exact h.inRange call state hold
    · rw [if_neg hsame] at hstate''
      exact h.inRange call' state'' hstate''

/-- A request that is sent to a worker with room. -/
theorem ManagerOk.sendTo (h : ManagerOk numWorkers w m) {call idx : ℕ} {task : RequestData}
    {state : CallState} (hcall : m.calls[call]? = some (task, state))
    (hstate : ∀ idx, state ≠ .sent idx) (hroom : m.hasRoom idx = true) (hidx : idx < numWorkers) :
    ManagerOk numWorkers w (m.sendTo call idx task) := by
  have hget := fun call' => @getElem?_set_call N D m call _ (task, .sent idx) hcall call'
  have hold : m.stateOf call = some state := congrArg (Option.map Prod.snd) hcall
  have htask : m.taskOf call = some task := congrArg (Option.map Prod.fst) hcall
  have htaskOf : ∀ call' task', m.taskOf call' = some task' →
      (m.sendTo call idx task).taskOf call' = some task' := by
    intro call' task' htask'
    change ((m.calls.set call (task, .sent idx))[call']?).map Prod.fst = some task'
    rw [hget]
    by_cases hsame : call' = call
    · rw [if_pos hsame, ← htask', hsame, htask]
      rfl
    · rwa [if_neg hsame]
  have hstateOf : ∀ call', (m.sendTo call idx task).stateOf call' =
      if call' = call then some (.sent idx) else m.stateOf call' := by
    intro call'
    change ((m.calls.set call (task, .sent idx))[call']?).map Prod.snd = _
    rw [hget]
    by_cases hsame : call' = call
    · rw [if_pos hsame, if_pos hsame]
      rfl
    · rw [if_neg hsame, if_neg hsame]
      rfl
  have hworker : ∀ idx', (m.sendTo call idx task).workers idx' =
      if idx' = idx then { m.workers idx with queue := (m.workers idx).queue ++ [.request call task] }
      else m.workers idx' := by
    intro idx'
    by_cases hsame : idx' = idx
    · rw [hsame, if_pos rfl]
      exact RuntimeManager.workers_setWorker_self m idx _
    · rw [if_neg hsame]
      exact RuntimeManager.workers_setWorker_of_ne m hsame _
  have harrivals : ∀ idx', (m.sendTo call idx task).arrivals idx' =
      m.arrivals idx' ++ if idx' = idx then [call] else [] := by
    intro idx'
    unfold RuntimeManager.arrivals
    rw [hworker]
    by_cases hsame : idx' = idx
    · subst hsame
      rw [if_pos rfl, if_pos rfl, List.filterMap_append, List.append_assoc]
      rfl
    · rw [if_neg hsame, if_neg hsame, List.append_nil]
  constructor
  · intro idx'
    have hthread := (h.threads idx').congr htaskOf
    rw [hworker]
    by_cases hsame : idx' = idx
    · subst hsame
      rw [if_pos rfl]
      refine ⟨?_, ?_, ?_, hthread.taken, hthread.run⟩
      · have hlt : (m.workers idx').queue.length < CHANNEL_CAPACITY := of_decide_eq_true hroom
        rw [List.length_append]
        exact hlt
      · have hops : ((m.workers idx').queue ++ [WorkerCommand.request call task]).filterMap
            WorkerCommand.op? = (m.workers idx').queue.filterMap WorkerCommand.op? := by
          rw [List.filterMap_append]
          exact List.append_nil _
        exact ⟨hops ▸ hthread.ops.bound, hops ▸ hthread.ops.nodup⟩
      · intro call' task' hmem
        cases List.mem_append.mp hmem with
        | inl hqueue => exact hthread.queued call' task' hqueue
        | inr hlast =>
          cases List.mem_singleton.mp hlast
          exact htaskOf call task htask
    · rwa [if_neg hsame]
  · intro idx' call'
    have hplaced := h.placed idx' call'
    rw [harrivals, List.count_append, hplaced, hstateOf]
    by_cases hsame : call' = call
    · subst hsame
      rw [hold, if_pos rfl, if_neg fun heq => hstate idx' (Option.some.inj heq), Nat.zero_add]
      by_cases hidx' : idx' = idx
      · subst hidx'
        simp
      · rw [if_neg hidx', if_neg fun heq => hidx' (by cases heq; rfl)]
        rfl
    · have hnone : (if idx' = idx then [call] else []).count call' = 0 := by
        split
        · exact List.count_eq_zero_of_not_mem fun hmem => hsame (List.mem_singleton.mp hmem)
        · rfl
      rw [if_neg hsame, hnone, Nat.add_zero]
  · intro call' state' hstate'
    rw [hstateOf] at hstate'
    by_cases hsame : call' = call
    · rw [if_pos hsame] at hstate'
      obtain rfl := Option.some.inj hstate'
      exact hidx
    · rw [if_neg hsame] at hstate'
      exact h.inRange call' state' hstate'

/-- What a turn can do: a call starts, goes on waiting, or is sent to a worker with room; a worker
takes the next command, or gets the result of an operation. -/
inductive Turned (numWorkers : ℕ) (w : ℕ → Worker N) (m : RuntimeManager N D) :
    RuntimeManager N D → Prop
  | started (task : RequestData) (counter : ℕ) : Turned numWorkers w m
      { m with
        roundRobinCounter := counter
        calls := m.calls ++ [(task, .trying (m.roundRobinCounter % numWorkers) 0)] }
  | waits {call : ℕ} {task : RequestData} {state state' : CallState}
      (hcall : m.calls[call]? = some (task, state)) (hstate : ∀ idx, state ≠ .sent idx)
      (hstate' : ∀ idx, state' ≠ .sent idx) (htarget : state'.target = state.target) :
      Turned numWorkers w m { m with calls := m.calls.set call (task, state') }
  | sent {call idx : ℕ} {task : RequestData} {state : CallState}
      (hcall : m.calls[call]? = some (task, state)) (hstate : ∀ idx, state ≠ .sent idx)
      (hroom : m.hasRoom idx = true) (hidx : idx = state.target ∨ ∃ k, idx = k % numWorkers) :
      Turned numWorkers w m (m.sendTo call idx task)
  | worked {idx : ℕ} {cmd : WorkerCommand N D} {queue : List (WorkerCommand N D)}
      {system : System N D} (hqueue : (m.workers idx).queue = cmd :: queue)
      (hsystem : (m.workers idx).system.next (w idx) cmd.command = some system) :
      Turned numWorkers w m (m.setWorker idx
        { queue := queue.map cmd.after, system
          served := (m.workers idx).served ++ cmd.call?.toList })
  | completed {idx op : ℕ} (result : Value N) (duration : D) (hroom : m.hasRoom idx = true)
      (hlt : op < (m.workers idx).system.rt.asyncOps.length)
      (hnew : op ∉ (m.workers idx).queue.filterMap WorkerCommand.op?) :
      Turned numWorkers w m (m.push idx (.resume op result duration))

theorem turned_of_next {turn : Turn N D} (hnext : m.next numWorkers w turn = some m') :
    Turned numWorkers w m m' := by
  cases turn with
  | execute task =>
    obtain rfl := Option.some.inj hnext
    exact .started task _
  | attempt call =>
    simp only [RuntimeManager.next] at hnext
    split at hnext
    · rename_i task startIdx attempt hcall
      split at hnext
      · rename_i hroom
        rw [← Option.some.inj hnext]
        exact .sent hcall (by simp) hroom (.inr ⟨_, rfl⟩)
      · split at hnext
        · rw [← Option.some.inj hnext]
          exact .waits hcall (by simp) (by simp) rfl
        · rw [← Option.some.inj hnext]
          exact .waits hcall (by simp) (by simp) rfl
    · cases hnext
  | send call =>
    simp only [RuntimeManager.next] at hnext
    split at hnext
    · rename_i task startIdx hcall
      split at hnext
      · rename_i hroom
        rw [← Option.some.inj hnext]
        exact .sent hcall (by simp) hroom (.inl rfl)
      · cases hnext
    · cases hnext
  | work idx =>
    simp only [RuntimeManager.next] at hnext
    split at hnext
    · cases hnext
    · rename_i cmd queue hqueue
      obtain ⟨system, hsystem, rfl⟩ := Option.map_eq_some_iff.mp hnext
      exact .worked hqueue hsystem
  | complete idx op result duration =>
    simp only [RuntimeManager.next] at hnext
    split at hnext
    · rename_i hguard
      rw [← Option.some.inj hnext]
      exact .completed result duration hguard.1 hguard.2.1 hguard.2.2
    · cases hnext

/-- A call that starts. -/
theorem ManagerOk.started (hpos : 0 < numWorkers) (h : ManagerOk numWorkers w m)
    (task : RequestData) (counter : ℕ) : ManagerOk numWorkers w
      { m with
        roundRobinCounter := counter
        calls := m.calls ++ [(task, .trying (m.roundRobinCounter % numWorkers) 0)] } := by
  have hget : ∀ call, (m.calls ++ [(task, CallState.trying
      (m.roundRobinCounter % numWorkers) 0)])[call]? =
        if call = m.calls.length then some (task, .trying (m.roundRobinCounter % numWorkers) 0)
        else m.calls[call]? := by
    intro call
    by_cases hlast : call = m.calls.length
    · rw [if_pos hlast, hlast]
      exact List.getElem?_concat_length
    · rw [if_neg hlast]
      by_cases hlt : call < m.calls.length
      · exact List.getElem?_append_left hlt
      · rw [List.getElem?_eq_none (by rw [List.length_append, List.length_singleton]; omega),
          List.getElem?_eq_none (by omega)]
  have hnone : m.calls[m.calls.length]? = none := List.getElem?_eq_none (Nat.le_refl _)
  have hcounted : ManagerOk numWorkers w { m with roundRobinCounter := counter } :=
    ⟨h.threads, h.placed, h.inRange⟩
  apply hcounted.setCalls
  · intro call task' htask
    rw [hget, if_neg]
    · exact htask
    · intro hlast
      rw [RuntimeManager.taskOf, hlast, hnone] at htask
      cases htask
  · intro call idx
    rw [hget]
    by_cases hlast : call = m.calls.length
    · rw [if_pos hlast, RuntimeManager.stateOf, hlast, hnone]
      exact ⟨fun heq => (by cases heq), fun heq => (by cases heq)⟩
    · rw [if_neg hlast]
      exact Iff.rfl
  · intro call state hstate
    rw [hget] at hstate
    by_cases hlast : call = m.calls.length
    · rw [if_pos hlast] at hstate
      obtain rfl := Option.some.inj hstate
      exact Nat.mod_lt _ hpos
    · rw [if_neg hlast] at hstate
      exact h.inRange call state hstate

/-- Every turn keeps the invariant. -/
theorem ManagerOk.step (hpos : 0 < numWorkers) (h : ManagerOk numWorkers w m)
    (hturned : Turned numWorkers w m m') : ManagerOk numWorkers w m' := by
  cases hturned with
  | started task counter => exact h.started hpos task counter
  | waits hcall hstate hstate' htarget => exact h.wait hcall hstate hstate' htarget
  | sent hcall hstate hroom hidx =>
    apply h.sendTo hcall hstate hroom
    cases hidx with
    | inl htarget => exact htarget ▸ h.inRange _ _ (congrArg (Option.map Prod.snd) hcall)
    | inr hmod =>
      obtain ⟨k, rfl⟩ := hmod
      exact Nat.mod_lt k hpos
  | worked hqueue hsystem =>
    rename_i idx cmd queue system
    apply h.setWorker ((h.threads idx).work hqueue hsystem)
    rw [call?_after, RuntimeManager.arrivals, hqueue, List.append_assoc]
    cases cmd with
    | request call task => rfl
    | resume op result duration => rfl
  | completed result duration hroom hlt hnew =>
    rename_i idx op
    have hthread := h.threads idx
    have hcapacity : (m.workers idx).queue.length < CHANNEL_CAPACITY := of_decide_eq_true hroom
    apply h.setWorker
    · refine ⟨?_, hthread.ops.push hlt hnew, ?_, hthread.taken, hthread.run⟩
      · rw [List.length_append]
        exact hcapacity
      · intro call task hmem
        cases List.mem_append.mp hmem with
        | inl hqueue => exact hthread.queued call task hqueue
        | inr hlast => cases List.mem_singleton.mp hlast
    · rw [List.filterMap_append, RuntimeManager.arrivals]
      exact congrArg _ (List.append_nil _)

/-- A turn only adds to what has arrived at a worker, at the end. -/
theorem Turned.arrivals (hturned : Turned numWorkers w m m') (idx : ℕ) :
    m.arrivals idx <+: m'.arrivals idx := by
  have hpush : ∀ idx' cmd, m.arrivals idx <+: (m.push idx' cmd).arrivals idx := by
    intro idx' cmd
    unfold RuntimeManager.push RuntimeManager.arrivals
    by_cases hsame : idx = idx'
    · rw [hsame, RuntimeManager.workers_setWorker_self, List.filterMap_append, ← List.append_assoc]
      exact List.prefix_append _ _
    · rw [RuntimeManager.workers_setWorker_of_ne m hsame]
  cases hturned with
  | started task counter => exact List.prefix_rfl
  | waits hcall hstate hstate' htarget => exact List.prefix_rfl
  | sent hcall hstate hroom hidx => exact hpush _ _
  | worked hqueue hsystem =>
    rename_i idx' cmd queue system
    unfold RuntimeManager.arrivals
    by_cases hsame : idx = idx'
    · rw [hsame, RuntimeManager.workers_setWorker_self, call?_after, hqueue, List.append_assoc]
      cases cmd with
      | request call task => exact List.prefix_rfl
      | resume op result duration => exact List.prefix_rfl
    · rw [RuntimeManager.workers_setWorker_of_ne m hsame]
  | completed result duration hroom hlt hnew => exact hpush _ _

/-- What `execute` can rely on. -/
structure Dispatched (numWorkers : ℕ) (w : ℕ → Worker N) (m : RuntimeManager N D) : Prop where
  /-- no channel is overfull -/
  capacity : ∀ idx, (m.workers idx).queue.length ≤ CHANNEL_CAPACITY
  /-- a request that was sent is once at the worker it was sent to, and any other one nowhere -/
  placed : ∀ idx call, (m.arrivals idx).count call =
    if m.stateOf call = some (.sent idx) then 1 else 0
  inRange : ∀ call idx, m.stateOf call = some (.sent idx) → idx < numWorkers
  /-- a worker has run on its own, on the requests of the calls it has taken, in that order -/
  alone : ∀ idx, (m.workers idx).served.map m.taskOf =
      ((m.workers idx).system.accepted.map fun r => some r.2) ∧
    ∃ cmds, Run (System.next (w idx)) .init cmds (m.workers idx).system
  /-- a worker answers calls it has taken, and each of them at most once -/
  answers : ∀ idx, ((m.workers idx).system.rt.sent.map Prod.fst).Nodup ∧
    ∀ tx ∈ (m.workers idx).system.rt.sent.map Prod.fst, tx < (m.workers idx).served.length
  /-- a worker with something in its channel can go on -/
  ready : ∀ idx, (m.workers idx).queue ≠ [] → (m.next numWorkers w (.work idx)).isSome

theorem ManagerOk.dispatched (h : ManagerOk numWorkers w m) : Dispatched numWorkers w m where
  capacity idx := (h.threads idx).capacity
  placed := h.placed
  inRange call idx := h.inRange call (.sent idx)
  alone idx := ⟨(h.threads idx).taken, (h.threads idx).run⟩
  answers idx := by
    obtain ⟨cmds, hrun⟩ := (h.threads idx).run
    have hlength := congrArg List.length (h.threads idx).taken
    rw [List.length_map, List.length_map] at hlength
    rw [hlength]
    exact ⟨(sentOnce_of_run hrun).nodup, (sentOnce_of_run hrun).old⟩
  ready idx hne := by
    cases hqueue : (m.workers idx).queue with
    | nil => exact absurd hqueue hne
    | cons cmd queue =>
      have hsome := (h.threads idx).next_isSome hqueue
      unfold RuntimeManager.next
      simp only [hqueue, Option.isSome_map]
      exact hsome

end ManagerOk

end FrameworkBenchmarks.TitanPl
