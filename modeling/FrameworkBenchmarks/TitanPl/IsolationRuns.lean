import FrameworkBenchmarks.TitanPl.Isolation

/-!
# Isolation over whole runs

Every step that meets the side condition brings a request to the point where its action is executed,
executes it, and files it as answered or suspended.
-/

namespace FrameworkBenchmarks.TitanPl

open Common

variable {N D : Type} {w : Worker N}

theorem isolated_init : Isolated w (System.init : System N D) := by
  refine ⟨⟨⟨?_, ?_, ?_, ?_, ?_⟩, ?_, ?_, ?_, ?_, ?_⟩, ?_, ?_⟩ <;>
    simp [System.init, TitanRuntime.init, ResultsMapped, ResponsesDecided]

/-- The bookkeeping that follows an execution files the request. -/
theorem Resolved.finish {s : System N D} {channel r : ℕ} {task : RequestData}
    {active : PartialMap ℕ RequestData} {start : PartialMap ℕ ℕ}
    (h : Resolved w s channel r task) (haccepted : s.accepted[channel]? = some (r, task))
    (hothers : ∀ r', r' ≠ r → active r' = s.rt.activeRequests r' ∧
      start r' = s.rt.requestStartCounters r')
    (hself : (s.rt.pendingRequests r).isSome →
      active r = some task ∧ start r = s.rt.requestStartCounters r) :
    Isolated w
      { s with rt := { s.rt with activeRequests := active, requestStartCounters := start } } where
  ordered := ⟨h.ordered.channels.congr rfl rfl, h.ordered.ops, h.ordered.oneOp, h.ordered.mapped,
    h.ordered.owners, h.ordered.known⟩
  responses := h.responses
  suspended r' tx hpending := by
    by_cases heq : r' = r
    · subst heq
      have hpending' : s.rt.pendingRequests r' = some tx := hpending
      rcases h.self with hnone | ⟨hsome, hreceived, st, hreplayed, hwaiting⟩
      · rw [hnone] at hpending'
        cases hpending'
      · obtain rfl : channel = tx := Option.some.inj (hsome.symm.trans hpending')
        obtain ⟨hactive, hstart⟩ := hself (by simp [hsome])
        exact ⟨task, haccepted, hactive, hreceived, st,
          ⟨hreplayed.nonzero, hstart.trans hreplayed.startCounter,
            ⟨hreplayed.stored.1, hreplayed.stored.2⟩, hreplayed.timings⟩,
          ⟨hwaiting.verdict, hwaiting.issued, hwaiting.inFlight⟩⟩
    · obtain ⟨task', hacc, hsus⟩ := h.others r' tx heq hpending
      refine ⟨task', hacc, hsus.of_untouched ?_⟩
      exact ⟨rfl, (hothers r' heq).1, (hothers r' heq).2, rfl, fun _ => .rfl, fun _ _ => rfl,
        fun _ _ => .rfl⟩

/-- The state in which a new request is executed for the first time. -/
def System.admitted (s : System N D) (task : RequestData) : System N D :=
  { s with
    rt := admitRequest s.accepted.length s.rt
    accepted := s.accepted ++ [(u32Succ s.rt.requestCounter, task)] }

/-- A new request with an unused id is poised. -/
theorem Isolated.admitted {s : System N D} {task : RequestData} (h : Isolated w s)
    (hunused : unusedRequestId s (.request task)) :
    Poised w (s.admitted task) s.accepted.length (u32Succ s.rt.requestCounter) task := by
  obtain ⟨hnonzero, hfree, hunmapped, huntimed⟩ := hunused
  set r := u32Succ s.rt.requestCounter with hr
  have hidle : ∀ op ∈ s.rt.asyncOps, op.requestId ≠ r := by
    intro op hop heq
    have := h.ordered.ops op hop
    simp [heq, hfree] at this
  have hnoReplies : (s.admitted task).repliesTo s.accepted.length = [] := by
    refine List.filter_eq_nil_iff.mpr fun a ha hchannel => ?_
    exact absurd (h.ordered.known a ha _ (by simpa using hchannel)) (lt_irrefl _)
  have hsame : ∀ r', r' ≠ r → Untouched s.rt (s.admitted task).rt r' := by
    intro r' hne
    refine ⟨?_, rfl, ?_, rfl, fun _ => .rfl, fun _ _ => rfl, fun _ _ => .rfl⟩ <;>
      simp [System.admitted, admitRequest, ← hr, hne]
  refine ⟨⟨?_, ?_, h.ordered.oneOp, h.ordered.mapped, ?_, ?_⟩, ?_, ?_, ?_, ?_, hidle, ?_, ?_⟩
  · simpa [System.admitted] using h.ordered.channels.admitted hfree
  · intro op hop
    rw [(hsame op.requestId (hidle op hop)).pending]
    exact h.ordered.ops op hop
  · intro id r' hmap
    rw [System.admitted, List.map_append]
    exact List.mem_append_left _ (h.ordered.owners id r' hmap)
  · intro a ha tx htx
    have := h.ordered.known a ha tx htx
    simp only [System.admitted, List.length_append, List.length_singleton]
    omega
  · simp [System.admitted, admitRequest, ← hr]
  · simp [System.admitted, hr]
  · rw [hnoReplies]
    exact ⟨rfl, fun k hk => absurd hk (Nat.not_lt_zero k), Nat.zero_le _⟩
  · rw [hnoReplies]
    refine ⟨hnonzero, by simp [System.admitted, admitRequest, ← hr], ⟨?_, ?_⟩, ?_⟩
    · intro j v hj
      cases hj
    · exact fun id v hmap _ => absurd hmap (hunmapped id)
    · have huntimed' : (s.admitted task).rt.requestTimings r = none := huntimed
      rw [huntimed']
      rfl
  · intro r' tx hne hpending
    have hpending' : s.rt.pendingRequests r' = some tx := (hsame r' hne).pending ▸ hpending
    obtain ⟨task', hacc, hsus⟩ := h.suspended r' tx hpending'
    refine ⟨task', ?_, hsus.of_untouched (hsame r' hne)⟩
    exact List.getElem?_append_left (h.ordered.channels.bound r' tx hpending') ▸ hacc
  · intro tx result hmem
    obtain ⟨r', task', hacc, hdecided⟩ := h.responses tx result hmem
    refine ⟨r', task', ?_, hdecided⟩
    obtain ⟨hlt, -⟩ := List.getElem?_eq_some_iff.mp hacc
    exact (List.getElem?_append_left hlt).trans hacc

/-- Processing a new request keeps the invariant. -/
theorem Isolated.request (hqueue : ∀ op, w.trySend op = true)
    (hprop : ∀ name action, w.actions name = some action → ∀ data, (action data).Propagates)
    {s s' : System N D} {task : RequestData} (h : Isolated w s)
    (hok : keepsApart w s (.request task)) (hnext : s.next w (.request task) = some s') :
    Isolated w s' := by
  obtain ⟨hunused, hexec⟩ := hok
  obtain rfl := Option.some.inj hnext
  have hpoised := h.admitted hunused
  set r := u32Succ s.rt.requestCounter with hr
  have hdone := hpoised.execute (execute_solo hqueue hprop hpoised.replayed.nonzero
    hpoised.replayed.stored hpoised.ordered.mapped (System.driftIdsFree_of_drawsFree hexec rfl))
  simp only [handleNewRequest, ← hr]
  split
  · rename_i hanswered
    refine hdone.finish hpoised.accepted (fun r' hne => ⟨rfl, PartialMap.erase_of_ne _ hne⟩)
      fun hpending => ?_
    have hpending' : ((executeActionOptimized w r task
        (admitRequest s.accepted.length s.rt)).pendingRequests r).isSome := hpending
    rw [Option.isNone_iff_eq_none.mp hanswered] at hpending'
    cases hpending'
  · exact hdone.finish hpoised.accepted (fun r' hne => ⟨PartialMap.insert_of_ne _ _ hne, rfl⟩)
      fun _ => ⟨PartialMap.insert_self _ _ _, rfl⟩

/-- The state in which the action of a resumed request is executed again. -/
def System.resumed (s : System N D) (i : ℕ) (op : AsyncOpRequest) (result : Value N) (duration : D) :
    System N D :=
  { s with
    rt := rewindCounter op.requestId (recordDrift op.driftId op.requestId result duration
      { s.rt with asyncOps := s.rt.asyncOps.eraseIdx i })
    answers := s.answers ++ [⟨op.channel, op.call, result, duration⟩] }

/-- Only the request that issued the operation gets the answer. -/
theorem repliesTo_resumed (s : System N D) (i : ℕ) (op : AsyncOpRequest) (result : Value N)
    (duration : D) (tx : ℕ) :
    (s.resumed i op result duration).repliesTo tx =
      s.repliesTo tx ++ if op.channel = some tx then [⟨op.channel, op.call, result, duration⟩] else [] := by
  simp only [System.repliesTo, System.resumed, List.filter_append, List.filter_cons, beq_iff_eq,
    List.filter_nil]

/-- One more result for a request that was waiting for it. -/
theorem Received.snoc {task : RequestData} {replies : List (Answer N D)} {a : Answer N D}
    (h : Received w task replies) (hcall : a.call = replies.length)
    (hundecided : soloVerdict w task (replies.map (·.result)) = none)
    (hlt : replies.length < 2 ^ 32) : Received w task (replies ++ [a]) where
  calls := by
    simp only [List.map_append, h.calls, List.map_cons, hcall, List.map_nil, List.length_append,
      List.length_singleton, List.range_succ]
  undecided k hk := by
    rw [List.length_append, List.length_singleton] at hk
    rw [List.map_append, List.take_append_of_le_length (by rw [List.length_map]; omega)]
    rcases Nat.lt_succ_iff_lt_or_eq.mp hk with hk | rfl
    · exact h.undecided k hk
    · rw [List.take_of_length_le (by rw [List.length_map])]
      exact hundecided
  short := by
    rw [List.length_append, List.length_singleton]
    exact hlt

/-- Storing the result that a request waits for. -/
theorem Replayed.record {rt : TitanRuntime N D} {r start driftId : ℕ}
    {replies : List (Answer N D)} {a : Answer N D} {ops : List AsyncOpRequest}
    (h : Replayed rt r start replies) (hlt : replies.length < 2 ^ 32)
    (hid : driftId = driftIdAt start replies.length) (hmap : rt.driftToRequest driftId = some r) :
    Replayed (rewindCounter r (recordDrift driftId r a.result a.duration { rt with asyncOps := ops }))
      r start (replies ++ [a]) where
  nonzero := h.nonzero
  startCounter := h.startCounter
  timings := by
    simp only [rewindCounter, recordDrift, PartialMap.insert_self, Option.getD_some, h.timings,
      List.map_append, List.map_cons, List.map_nil]
    rfl
  stored := by
    constructor
    · intro j v hj
      rw [List.map_append] at hj
      rcases Nat.lt_or_ge j replies.length with hjlt | hge
      · rw [List.getElem?_append_left (by rwa [List.length_map])] at hj
        obtain ⟨hresult, hmine⟩ := h.stored.stored j v hj
        refine ⟨?_, hmine⟩
        have hne : driftIdAt start j ≠ driftId := hid ▸ driftIdAt_ne hjlt hlt
        exact (PartialMap.insert_of_ne _ _ hne).trans hresult
      · rw [List.getElem?_append_right (by rwa [List.length_map]), List.length_map] at hj
        have hj0 : j = replies.length := by
          obtain ⟨hlast, -⟩ := List.getElem?_eq_some_iff.mp hj
          simp only [List.map_cons, List.map_nil, List.length_singleton] at hlast
          omega
        subst hj0
        rw [Nat.sub_self] at hj
        obtain rfl : a.result = v := by simpa using hj
        rw [← hid]
        exact ⟨PartialMap.insert_self _ _ _, hmap⟩
    · intro id v hmine hv
      by_cases heq : id = driftId
      · exact ⟨replies.length, by simp, heq.trans hid⟩
      · obtain ⟨j, hj, hjd⟩ := h.stored.only id v hmine ((PartialMap.insert_of_ne _ _ heq).symm.trans hv)
        refine ⟨j, ?_, hjd⟩
        rw [List.length_map] at hj
        simp only [List.map_append, List.length_append, List.length_map, List.map_cons, List.map_nil,
          List.length_singleton]
        omega

/-- The result of its operation in flight makes a suspended request poised. -/
theorem Isolated.poise {s : System N D} {i : ℕ} {op : AsyncOpRequest} (h : Isolated w s)
    (hop : s.rt.asyncOps[i]? = some op) (result : Value N) (duration : D) :
    ∃ channel task, s.rt.driftToRequest op.driftId = some op.requestId ∧
      s.rt.activeRequests op.requestId = some task ∧
      Poised w (s.resumed i op result duration) channel op.requestId task := by
  have hmem : op ∈ s.rt.asyncOps := List.mem_of_getElem? hop
  obtain ⟨channel, hpending⟩ := Option.isSome_iff_exists.mp (h.ordered.ops op hmem)
  obtain ⟨task, haccepted, hsus⟩ := h.suspended op.requestId channel hpending
  obtain ⟨start, hreplayed, hwaiting⟩ := hsus.entries
  obtain ⟨hundecided, hchannel, hid, hcall, hlt, hmap⟩ := hwaiting.inFlight op hmem rfl
  set r := op.requestId with hr
  set replies := s.repliesTo channel with hreplies
  have hreplies' : (s.resumed i op result duration).repliesTo channel =
      replies ++ [⟨op.channel, op.call, result, duration⟩] := by
    rw [repliesTo_resumed, if_pos hchannel]
  have hotherReplies : ∀ tx, tx ≠ channel →
      (s.resumed i op result duration).repliesTo tx = s.repliesTo tx := by
    intro tx hne
    rw [repliesTo_resumed, hchannel, if_neg (fun heq => hne (Option.some.inj heq).symm),
      List.append_nil]
  have hcounter : (s.resumed i op result duration).rt.driftCounter = start := by
    simp [System.resumed, rewindCounter, recordDrift, ← hr, hreplayed.startCounter]
  have hsame : ∀ r', r' ≠ r → Untouched s.rt (s.resumed i op result duration).rt r' := by
    intro r' hne
    refine ⟨rfl, rfl, rfl, PartialMap.insert_of_ne _ _ hne, fun _ => .rfl, fun id hid' => ?_,
      fun op' hop' => ⟨fun hin => List.mem_of_mem_eraseIdx hin, fun hin => ?_⟩⟩
    · refine PartialMap.insert_of_ne _ _ fun heq => ?_
      rw [heq, hmap] at hid'
      exact hne (Option.some.inj hid').symm
    · obtain ⟨j, hj⟩ := List.getElem?_of_mem hin
      refine List.mem_eraseIdx_iff_getElem?.mpr ⟨j, ?_, hj⟩
      rintro rfl
      obtain rfl := Option.some.inj (hop.symm.trans hj)
      exact hne (hop'.symm.trans hr.symm)
  have hidle : ∀ op' ∈ (s.resumed i op result duration).rt.asyncOps, op'.requestId ≠ r := by
    intro op' hop' heq
    obtain ⟨j, hne, hj⟩ := List.mem_eraseIdx_iff_getElem?.mp hop'
    have hij : (s.rt.asyncOps.map (·.requestId))[j]? = (s.rt.asyncOps.map (·.requestId))[i]? := by
      rw [List.getElem?_map, List.getElem?_map, hj, hop, Option.map_some, Option.map_some, heq]
    obtain ⟨hjlt, -⟩ := List.getElem?_eq_some_iff.mp hj
    exact hne ((List.getElem?_inj (by simpa using hjlt) h.ordered.oneOp).mp hij)
  refine ⟨channel, task, hmap, hsus.active, ⟨?_, ?_, ?_, ?_, h.ordered.owners, ?_⟩, hpending,
    haccepted, ?_, ?_, hidle, ?_, ?_⟩
  · exact h.ordered.channels.congr rfl rfl
  · exact fun op' hop' => h.ordered.ops op' (List.mem_of_mem_eraseIdx hop')
  · exact h.ordered.oneOp.sublist ((List.eraseIdx_sublist _ _).map _)
  · intro id v hv
    by_cases heq : id = op.driftId
    · exact ⟨r, heq ▸ hmap⟩
    · exact h.ordered.mapped id v ((PartialMap.insert_of_ne _ _ heq).symm.trans hv)
  · intro a ha tx htx
    rcases List.mem_append.mp ha with ha | ha
    · exact h.ordered.known a ha tx htx
    · obtain rfl := List.mem_singleton.mp ha
      obtain rfl : channel = tx := Option.some.inj (hchannel.symm.trans htx)
      exact h.ordered.channels.bound r channel hpending
  · rw [hreplies']
    exact hsus.received.snoc hcall hundecided hlt
  · rw [hreplies', hcounter]
    exact hreplayed.record (a := ⟨op.channel, op.call, result, duration⟩) hlt hid hmap
  · intro r' tx hne hpending'
    have hpending₀ : s.rt.pendingRequests r' = some tx := hpending'
    obtain ⟨task', hacc, hsus'⟩ := h.suspended r' tx hpending₀
    have htx : tx ≠ channel := fun heq =>
      hne (h.ordered.channels.unique r' r channel (heq ▸ hpending₀) hpending)
    rw [hotherReplies tx htx]
    exact ⟨task', hacc, hsus'.of_untouched (hsame r' hne)⟩
  · intro tx result' hsent
    have htx : tx ≠ channel := by
      rintro rfl
      have hzero := h.ordered.channels.waiting r tx hpending
      exact List.count_eq_zero.mp hzero (List.mem_map_of_mem (f := Prod.fst) hsent)
    rw [hotherReplies tx htx]
    exact h.responses tx result' hsent

/-- Processing a resume keeps the invariant. -/
theorem Isolated.resume (hqueue : ∀ op, w.trySend op = true)
    (hprop : ∀ name action, w.actions name = some action → ∀ data, (action data).Propagates)
    {s s' : System N D} {i : ℕ} {result : Value N} {duration : D} (h : Isolated w s)
    (hok : keepsApart w s (.resume i result duration))
    (hnext : s.next w (.resume i result duration) = some s') : Isolated w s' := by
  obtain ⟨-, hexec⟩ := hok
  obtain ⟨op, hop, rfl⟩ := Option.map_eq_some_iff.mp hnext
  obtain ⟨channel, task, hmap, hactive, hpoised⟩ := h.poise hop result duration
  set r := op.requestId with hr
  have hexecution : s.execution (.resume i result duration) =
      some (r, task, (s.resumed i op result duration).rt) := by
    simp only [System.execution, hop, Option.bind_some, hmap, Option.getD_some, hactive,
      Option.map_some]
    rfl
  have hdone := hpoised.execute (execute_solo hqueue hprop hpoised.replayed.nonzero
    hpoised.replayed.stored hpoised.ordered.mapped (System.driftIdsFree_of_drawsFree hexec hexecution))
  have hactive' : (recordDrift op.driftId r result duration
      { s.rt with asyncOps := s.rt.asyncOps.eraseIdx i }).activeRequests r = some task := hactive
  simp only [handleResume, hmap, Option.getD_some, hactive']
  have hbooks := execute_books (w := w) r task (s.resumed i op result duration).rt
  have hkept : (executeActionOptimized w r task (s.resumed i op result duration).rt).activeRequests r =
      some task := by
    rw [hbooks.1]
    exact hactive
  unfold forgetAnswered
  split
  · rename_i hanswered
    refine hdone.finish hpoised.accepted
      (fun r' hne => ⟨PartialMap.erase_of_ne _ hne, PartialMap.erase_of_ne _ hne⟩) fun hpending => ?_
    have hpending' : ((executeActionOptimized w r task
        (s.resumed i op result duration).rt).pendingRequests r).isSome := hpending
    have hnone : (executeActionOptimized w r task
        (s.resumed i op result duration).rt).pendingRequests r = none :=
      Option.isNone_iff_eq_none.mp hanswered.2
    rw [hnone] at hpending'
    cases hpending'
  · exact hdone.finish hpoised.accepted (fun _ _ => ⟨rfl, rfl⟩) fun _ => ⟨hkept, rfl⟩

/-- In a run whose steps keep the requests apart the invariant holds throughout. -/
theorem isolated_of_run (hqueue : ∀ op, w.trySend op = true)
    (hprop : ∀ name action, w.actions name = some action → ∀ data, (action data).Propagates)
    {cmds : List (Command N D)} {s : System N D}
    (hrun : GuardedRun (System.next w) (keepsApart w) .init cmds s) : Isolated w s := by
  refine hrun.invariant (fun s cmd s' h hok hnext => ?_) isolated_init
  cases cmd with
  | request task => exact h.request hqueue hprop hok hnext
  | resume i result duration => exact h.resume hqueue hprop hok hnext

end FrameworkBenchmarks.TitanPl
