import FrameworkBenchmarks.TitanPl.IsolationRuns
import FrameworkBenchmarks.TitanPl.SampleActions

/-!
# The response of a request equals the one it gets alone

The run of a single request on a worker of its own, whose drift calls are given the results that its
operations received elsewhere, never meets a foreign id. So it is isolated as well, and what the same
results decide there and here is the same response.
-/

namespace FrameworkBenchmarks.TitanPl

open Common

variable {N D : Type} {w : Worker N}

/-- The commands of a worker that serves one request and answers its drift calls in order. -/
def aloneCommands (task : RequestData) (replies : List (Answer N D)) : List (Command N D) :=
  .request task :: replies.map fun a => .resume 0 a.result a.duration

/-- Where only one request has drift ids, none of its calls gets a foreign one. -/
theorem driftIdsFree_alone (hqueue : ∀ op, w.trySend op = true) {r start : ℕ} (hr : r ≠ 0)
    {results : List (Value N)} (hshort : results.length ≤ 2 ^ 32) (action : Action N)
    (hprop : action.Propagates) :
    ∀ (call : ℕ) (rt : TitanRuntime N D), call ≤ results.length →
      u32Succ rt.driftCounter = driftIdAt start call → Stored rt r start results →
      (∀ id r', rt.driftToRequest id = some r' → r' = r) → ResultsMapped rt →
      (replayAction action (results.drop call) = none → results.length < 2 ^ 32) →
      driftIdsFree foreignDriftId w r call action rt = true := by
  induction action with
  | done value => exact fun _ _ _ _ _ _ _ _ => rfl
  | throw err => exact fun _ _ _ _ _ _ _ _ => rfl
  | drift arg rest ih =>
    intro call rt hcall hcounter hstored hown hmapped hneed
    rw [driftIdsFree, Bool.and_eq_true, Bool.not_eq_true', Bool.and_eq_false_imp]
    cases harg : arg.asyncOp with
    | none =>
      have hdrift : nativeDriftCall w r call arg rt = (rt, .error .badDriftArg) := by
        simp only [nativeDriftCall, harg]
      rw [replayAction_refused harg] at hneed
      refine ⟨fun h => absurd h (by simp), ?_⟩
      simp only [hdrift, Option.isSome_none, Bool.false_eq_true, if_false]
      exact ih _ (hprop.2 _) call rt hcall hcounter hstored hown hmapped hneed
    | some parsed =>
      have hsome : arg.asyncOp ≠ none := by simp [harg]
      have hforeign (hlt : call < 2 ^ 32) :
          foreignDriftId rt r call (u32Succ rt.driftCounter) = false := by
        simp only [foreignDriftId, Bool.or_eq_false_iff, decide_eq_false_iff_not, not_le]
        refine ⟨hlt, ?_⟩
        cases hmap : rt.driftToRequest (u32Succ rt.driftCounter) with
        | none => rfl
        | some r' => simpa using hown _ r' hmap
      rcases Nat.lt_or_eq_of_le hcall with hcall | rfl
      · have hdrift := nativeDriftCall_stored hqueue hr hstored hsome hcall hcounter
        rw [List.drop_eq_getElem_cons hcall, replayAction_cons harg] at hneed
        refine ⟨fun _ => hforeign (by omega), ?_⟩
        simp only [hdrift, Option.isSome_some, if_true]
        exact ih _ (hprop.2 _) (call + 1) { rt with driftCounter := u32Succ rt.driftCounter } hcall
          (by rw [← u32Succ_driftIdAt, ← hcounter]) ⟨hstored.1, hstored.2⟩ hown hmapped hneed
      · -- the last call suspends, and the exception is passed on
        have hlt := hneed (by rw [List.drop_length, replayAction_nil harg])
        refine ⟨fun _ => hforeign hlt, ?_⟩
        have hnew := hstored.next_free hmapped hlt fun r' => hown _ r'
        rw [← hcounter] at hnew
        rcases nativeDriftCall_cases hqueue r results.length arg rt with
          ⟨hnone, _⟩ | ⟨op, opType, _, ⟨v, hv, _⟩ | ⟨_, hdrift⟩⟩
        · exact absurd hnone hsome
        · rw [hnew] at hv
          cases hv
        · simp only [hdrift, hprop.1]
          rfl

/-- The state of the worker after the request has been given the first results. -/
structure AloneAfter (w : Worker N) (task : RequestData) (replies : List (Answer N D))
    (s : System N D) : Prop where
  isolated : Isolated w s
  accepted : s.accepted = [(1, task)]
  results : (s.repliesTo 0).map (·.result) = replies.map (·.result)
  timings : (s.repliesTo 0).map Answer.timing = replies.map Answer.timing

/-- While the results decide nothing, the request is suspended and its operation is in flight. -/
theorem AloneAfter.suspended {task : RequestData} {replies : List (Answer N D)} {s : System N D}
    (h : AloneAfter w task replies s)
    (hundecided : soloVerdict w task (replies.map (·.result)) = none) :
    ∃ op, s.rt.asyncOps[0]? = some op ∧ op.requestId = 1 ∧ op.channel = some 0 := by
  have hpending : ∃ r, s.rt.pendingRequests r = some 0 := by
    by_contra hnone
    have hcount := h.isolated.ordered.channels.answered 0 (by simp [h.accepted])
      fun r hr => hnone ⟨r, hr⟩
    obtain ⟨⟨tx, result⟩, hmem, rfl⟩ :=
      List.mem_map.mp (List.count_pos_iff.mp (by omega : 0 < (s.rt.sent.map Prod.fst).count 0))
    obtain ⟨r, task', hacc, -, hdecided⟩ := h.isolated.responses 0 result hmem
    obtain ⟨-, rfl⟩ : 1 = r ∧ task = task' := by simpa [h.accepted] using hacc
    rw [h.results, hundecided] at hdecided
    cases hdecided
  obtain ⟨r, hr⟩ := hpending
  obtain ⟨task', hacc, hsus⟩ := h.isolated.suspended r 0 hr
  obtain ⟨-, rfl⟩ : 1 = r ∧ task = task' := by simpa [h.accepted] using hacc
  obtain ⟨start, -, hwaiting⟩ := hsus.entries
  obtain ⟨op', hop', -⟩ := hwaiting.issued (h.results ▸ hundecided)
  obtain ⟨op, hop⟩ : ∃ op, s.rt.asyncOps[0]? = some op :=
    ⟨_, List.getElem?_eq_getElem (List.length_pos_of_mem hop')⟩
  have hmem := List.mem_of_getElem? hop
  obtain ⟨tx, htx⟩ := Option.isSome_iff_exists.mp (h.isolated.ordered.ops op hmem)
  obtain ⟨task', hacc', hsus'⟩ := h.isolated.suspended op.requestId tx htx
  rw [h.accepted] at hacc'
  obtain ⟨hlt, hget⟩ := List.getElem?_eq_some_iff.mp hacc'
  obtain rfl : tx = 0 := by simpa using hlt
  have hone : op.requestId = 1 := (Prod.mk.inj hget).1.symm
  obtain ⟨start', -, hwaiting'⟩ := hsus'.entries
  exact ⟨op, hop, hone, (hwaiting'.inFlight op hmem rfl).2.1⟩

/-- A poised request that is the only one meets no foreign id. -/
theorem Poised.drawsFree (hqueue : ∀ op, w.trySend op = true)
    (hprop : ∀ name action, w.actions name = some action → ∀ data, (action data).Propagates)
    {s : System N D} {task : RequestData} (h : Poised w s 0 1 task) (hacc : s.accepted = [(1, task)])
    (hneed : soloVerdict w task ((s.repliesTo 0).map (·.result)) = none →
      (s.repliesTo 0).length < 2 ^ 32) (action : RequestData → Action N)
    (hact : w.actions task.actionName = some action) :
    driftIdsFree foreignDriftId w 1 0 (action task) s.rt = true := by
  have hown : ∀ id r', s.rt.driftToRequest id = some r' → r' = 1 := by
    intro id r' hmap
    simpa [hacc] using h.ordered.owners id r' hmap
  refine driftIdsFree_alone hqueue Nat.one_ne_zero (by simpa using h.received.short) (action task)
    (hprop _ _ hact task) 0 s.rt (Nat.zero_le _) rfl h.replayed.stored hown h.ordered.mapped ?_
  intro hnone
  rw [List.length_map]
  rw [List.drop_zero] at hnone
  exact hneed (by simp only [soloVerdict, hact, hnone, Option.map_none])

/-- The request alone is admitted with the first id. -/
theorem aloneAfter_request (hqueue : ∀ op, w.trySend op = true)
    (hprop : ∀ name action, w.actions name = some action → ∀ data, (action data).Propagates)
    (task : RequestData) :
    ∃ s : System N D, GuardedRun (System.next w) (keepsApart w) .init [.request task] s ∧
      AloneAfter w task [] s := by
  have hunused : unusedRequestId (System.init : System N D) (.request task) :=
    ⟨Nat.one_ne_zero, rfl, fun _ => nofun, rfl⟩
  have hpoised : Poised w ((System.init : System N D).admitted task) 0 1 task :=
    (isolated_init (w := w)).admitted hunused
  have hdraws : (System.init : System N D).drawsFree foreignDriftId w (.request task) = true := by
    have hfree := hpoised.drawsFree hqueue hprop rfl fun _ => Nat.two_pow_pos 32
    simp only [System.drawsFree, System.execution]
    cases hact : w.actions task.actionName with
    | none => rfl
    | some action => exact hfree action hact
  have hrun : GuardedRun (System.next w) (keepsApart w) _ [.request task] _ :=
    .cons ⟨hunused, hdraws⟩ rfl (.nil _)
  exact ⟨_, hrun, isolated_of_run hqueue hprop hrun, rfl, rfl, rfl⟩

/-- The next result wakes the request alone. -/
theorem AloneAfter.next (hqueue : ∀ op, w.trySend op = true)
    (hprop : ∀ name action, w.actions name = some action → ∀ data, (action data).Propagates)
    {task : RequestData} {replies : List (Answer N D)} {s : System N D} (a : Answer N D)
    (h : AloneAfter w task replies s)
    (hundecided : soloVerdict w task (replies.map (·.result)) = none)
    (hneed : soloVerdict w task ((replies ++ [a]).map (·.result)) = none →
      (replies ++ [a]).length < 2 ^ 32) :
    ∃ s', keepsApart w s (.resume 0 a.result a.duration) ∧
      s.next w (.resume 0 a.result a.duration) = some s' ∧ AloneAfter w task (replies ++ [a]) s' := by
  obtain ⟨op, hop, hone, hchannel⟩ := h.suspended hundecided
  obtain ⟨channel, task', hmap, hactive, hpoised⟩ :=
    h.isolated.poise hop a.result a.duration
  have haccepted : (s.resumed 0 op a.result a.duration).accepted = [(1, task)] := h.accepted
  have hacc := hpoised.accepted
  rw [haccepted] at hacc
  obtain ⟨hlt, hget⟩ := List.getElem?_eq_some_iff.mp hacc
  obtain rfl : channel = 0 := by simpa using hlt
  obtain rfl : task = task' := (Prod.mk.inj hget).2
  rw [hone] at hmap hactive hpoised
  have hreplies : (s.resumed 0 op a.result a.duration).repliesTo 0 =
      s.repliesTo 0 ++ [⟨op.channel, op.call, a.result, a.duration⟩] := by
    rw [repliesTo_resumed, if_pos hchannel]
  have hresults : ((s.resumed 0 op a.result a.duration).repliesTo 0).map (·.result) =
      (replies ++ [a]).map (·.result) := by
    rw [hreplies, List.map_append, List.map_append, h.results]
    rfl
  have htimings : ((s.resumed 0 op a.result a.duration).repliesTo 0).map Answer.timing =
      (replies ++ [a]).map Answer.timing := by
    rw [hreplies, List.map_append, List.map_append, h.timings]
    rfl
  have hdraws : s.drawsFree foreignDriftId w (.resume 0 a.result a.duration) = true := by
    have hfree := hpoised.drawsFree hqueue hprop haccepted fun hnone => by
      have hlength := hneed (hresults ▸ hnone)
      rwa [← List.length_map (·.result), ← hresults, List.length_map] at hlength
    have hexecution : s.execution (.resume 0 a.result a.duration) =
        some (1, task, (s.resumed 0 op a.result a.duration).rt) := by
      simp only [System.execution, hop, Option.bind_some, hmap, Option.getD_some, hactive,
        Option.map_some, System.resumed, hone]
    simp only [System.drawsFree, hexecution]
    cases hact : w.actions task.actionName with
    | none => rfl
    | some action => exact hfree action hact
  have hnext : ∃ s', s.next w (.resume 0 a.result a.duration) = some s' ∧
      s'.accepted = s.accepted ∧ s'.answers = (s.resumed 0 op a.result a.duration).answers := by
    simp only [System.next, hop, Option.map_some]
    exact ⟨_, rfl, rfl, rfl⟩
  obtain ⟨s', hnext, haccepted', hanswers⟩ := hnext
  have hsame : s'.repliesTo 0 = (s.resumed 0 op a.result a.duration).repliesTo 0 := by
    simp only [System.repliesTo, hanswers]
  exact ⟨s', ⟨trivial, hdraws⟩, hnext, h.isolated.resume hqueue hprop ⟨trivial, hdraws⟩ hnext,
    haccepted'.trans h.accepted, hsame ▸ hresults, hsame ▸ htimings⟩

/-- The request alone takes all the results that it needed elsewhere. -/
theorem aloneAfter_replies (hqueue : ∀ op, w.trySend op = true)
    (hprop : ∀ name action, w.actions name = some action → ∀ data, (action data).Propagates)
    {task : RequestData} {replies : List (Answer N D)} (hreceived : Received w task replies)
    (hdecided : soloVerdict w task (replies.map (·.result)) ≠ none) :
    ∀ k ≤ replies.length, ∃ s : System N D,
      GuardedRun (System.next w) (keepsApart w) .init (aloneCommands task (replies.take k)) s ∧
        AloneAfter w task (replies.take k) s := by
  intro k
  induction k with
  | zero => exact fun _ => aloneAfter_request hqueue hprop task
  | succ k ih =>
    intro hk
    obtain ⟨s, hrun, hafter⟩ := ih (Nat.le_of_succ_le hk)
    have htake : replies.take (k + 1) = replies.take k ++ [replies[k]] := by
      rw [List.take_add_one, List.getElem?_eq_getElem hk]
      rfl
    have hneed : soloVerdict w task ((replies.take k ++ [replies[k]]).map (·.result)) = none →
        (replies.take k ++ [replies[k]]).length < 2 ^ 32 := by
      rw [← htake]
      intro hnone
      have hshort := hreceived.short
      rw [List.length_take_of_le hk]
      rcases Nat.lt_or_eq_of_le hk with hlt | heq
      · omega
      · rw [heq, List.take_length] at hnone
        exact absurd hnone hdecided
    have hundecided := hreceived.undecided k hk
    rw [← List.map_take] at hundecided
    obtain ⟨s', hguard, hnext, hafter'⟩ := hafter.next hqueue hprop replies[k] hundecided hneed
    refine ⟨s', ?_, htake ▸ hafter'⟩
    have hcommands : aloneCommands task (replies.take (k + 1)) =
        aloneCommands task (replies.take k) ++
          [.resume 0 replies[k].result replies[k].duration] := by
      rw [htake, aloneCommands, List.map_append]
      rfl
    rw [hcommands]
    exact hrun.snoc hguard hnext

/-- Given results that decide it, the request alone is answered accordingly, and only once. -/
theorem AloneAfter.sent {task : RequestData} {replies : List (Answer N D)} {s : System N D}
    {result : WorkerResult N D} (h : AloneAfter w task replies s)
    (hdecided : (soloVerdict w task (replies.map (·.result))).bind
      (·.response (replies.map Answer.timing)) = some result) :
    s.rt.sent = [(0, result)] := by
  have hchannels := h.isolated.ordered.channels
  have hanswered : ∀ r, s.rt.pendingRequests r ≠ some 0 := by
    intro r hr
    obtain ⟨task', hacc, hsus⟩ := h.isolated.suspended r 0 hr
    obtain ⟨-, rfl⟩ : 1 = r ∧ task = task' := by simpa [h.accepted] using hacc
    obtain ⟨start, -, hwaiting⟩ := hsus.entries
    rw [← h.results] at hdecided
    rcases hwaiting.verdict with hnone | hsuspended
    · rw [hnone] at hdecided
      cases hdecided
    · rw [hsuspended] at hdecided
      cases hdecided
  have hcount := hchannels.answered 0 (by simp [h.accepted]) hanswered
  have hzero : ∀ tx ∈ s.rt.sent.map Prod.fst, tx = 0 := by
    intro tx htx
    by_contra hne
    have hunused := hchannels.unused tx (by simp only [h.accepted, List.length_singleton]; omega)
    exact List.count_eq_zero.mp hunused htx
  have hlength : s.rt.sent.length = 1 := by
    rw [← List.length_map Prod.fst, ← hcount]
    exact (List.count_eq_length.mpr fun tx htx => (hzero tx htx).symm).symm
  obtain ⟨⟨tx, result'⟩, hsent⟩ := List.length_eq_one_iff.mp hlength
  obtain rfl : tx = 0 := hzero tx (by simp [hsent])
  obtain ⟨r, task', hacc, -, hdecided'⟩ := h.isolated.responses 0 result' (by simp [hsent])
  obtain ⟨-, rfl⟩ : 1 = r ∧ task = task' := by simpa [h.accepted] using hacc
  rw [h.results, h.timings, hdecided] at hdecided'
  rw [hsent, Option.some.inj hdecided']

/-- In a run that keeps the requests apart every response is the one that its request gets alone,
when its drift calls are given the results of the operations it issued, call by call. -/
theorem response_eq_alone (w : Worker N) (hqueue : ∀ op, w.trySend op = true)
    (hprop : ∀ name action, w.actions name = some action → ∀ data, (action data).Propagates)
    (cmds : List (Command N D)) (s : System N D)
    (hrun : GuardedRun (System.next w) (keepsApart w) .init cmds s) :
    ∀ tx result, (tx, result) ∈ s.rt.sent → ∃ r task alone,
      s.accepted[tx]? = some (r, task) ∧
        (s.repliesTo tx).map (·.call) = List.range (s.repliesTo tx).length ∧
        Run (System.next w) .init (aloneCommands task (s.repliesTo tx)) alone ∧
        (alone.repliesTo 0).map (·.call) = List.range (s.repliesTo tx).length ∧
        alone.rt.sent = [(0, result)] := by
  intro tx result hsent
  obtain ⟨r, task, hacc, hreceived, hdecided⟩ :=
    (isolated_of_run hqueue hprop hrun).responses tx result hsent
  have hsome : soloVerdict w task ((s.repliesTo tx).map (·.result)) ≠ none := by
    intro hnone
    rw [hnone] at hdecided
    cases hdecided
  obtain ⟨alone, hrunAlone, hafter⟩ :=
    aloneAfter_replies hqueue hprop hreceived hsome (s.repliesTo tx).length le_rfl
  rw [List.take_length] at hrunAlone hafter
  have hlone := hafter.sent hdecided
  obtain ⟨r', task', hacc', hreceived', -⟩ := hafter.isolated.responses 0 result (by simp [hlone])
  have hlength : (alone.repliesTo 0).length = (s.repliesTo tx).length := by
    rw [← List.length_map (·.result), hafter.results, List.length_map]
  exact ⟨r, task, alone, hacc, hreceived.calls, hrunAlone.mono (fun _ _ _ => trivial),
    hlength ▸ hreceived'.calls, hlone⟩

/-- A request that suspends once gets the contents of its own file. -/
theorem response_eq_alone_sample :
    ∃ s alone : System ℕ Unit,
      GuardedRun (System.next sampleWorker) (keepsApart sampleWorker) .init
        [.request (sampleRequest "one"), .resume 0 (.number 7) ()] s ∧
      s.rt.sent = [(0, ⟨.number 7, [("drift", ())]⟩)] ∧
      Run (System.next sampleWorker) .init (aloneCommands (sampleRequest "one") (s.repliesTo 0))
        alone ∧
      alone.rt.sent = [(0, ⟨.number 7, [("drift", ())]⟩)] := by
  obtain ⟨s, hs⟩ : ∃ s : System ℕ Unit, exec (System.next sampleWorker) .init
      [.request (sampleRequest "one"), .resume 0 (.number 7) ()] = some s := ⟨_, rfl⟩
  have hsent : s.rt.sent = [(0, ⟨.number 7, [("drift", ())]⟩)] := by
    rw [← Option.some.inj hs]
    rfl
  have hrun : GuardedRun (System.next sampleWorker) (keepsApart sampleWorker) .init
      [.request (sampleRequest "one"), .resume 0 (.number 7) ()] s := by
    refine .cons ⟨⟨Nat.one_ne_zero, rfl, fun _ => nofun, rfl⟩, by decide⟩ rfl
      (.cons ⟨trivial, by decide⟩ ?_ (.nil s))
    exact hs
  obtain ⟨r, task, alone, hacc, -, hrunAlone, -, hlone⟩ :=
    response_eq_alone sampleWorker (fun _ => rfl) sampleWorker_propagates _ s hrun 0 ⟨.number 7, [("drift", ())]⟩
      (by simp [hsent])
  obtain rfl : sampleRequest "one" = task := by
    rw [← Option.some.inj hs] at hacc
    exact (Prod.mk.inj (Option.some.inj hacc)).2
  exact ⟨s, alone, hrun, hsent, hrunAlone, hlone⟩

/-- A request whose second drift call draws the id of another request's operation is answered with
the result of that operation: with the contents of a file it never read. -/
theorem response_eq_other :
    ∃ s alone : System ℕ Unit,
      Run (System.next sampleWorker) .init
        [.request (sampleRequest "two"), .request (sampleRequest "one"), .resume 0 (.number 10) (),
          .resume 0 (.number 20) (), .resume 0 (.number 11) ()] s ∧
        s.accepted[0]? = some (1, sampleRequest "two") ∧
        s.rt.sent.map (fun sent => (sent.1, sent.2.json)) = [(0, .number 20)] ∧
        (s.repliesTo 0).map (fun a => (a.call, a.result)) = [(0, .number 10), (1, .number 11)] ∧
        (s.repliesTo 1).map (fun a => (a.call, a.result)) = [(0, .number 20)] ∧
        Run (System.next sampleWorker) .init (aloneCommands (sampleRequest "two") (s.repliesTo 0))
          alone ∧
        alone.rt.sent.map (fun sent => (sent.1, sent.2.json)) = [(0, .number 11)] :=
  ⟨_, _, run_of_exec rfl, rfl, rfl, rfl, rfl, run_of_exec rfl, rfl⟩

end FrameworkBenchmarks.TitanPl
