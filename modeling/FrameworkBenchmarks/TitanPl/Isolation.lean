import FrameworkBenchmarks.TitanPl.Solo

/-!
# Isolation of the suspended requests from each other

The invariant of runs in which no drift call gets an id that is mapped to another request: the
entries of every suspended request are what its own results make them, and every response sent is
what the results of its request decide.
-/

namespace FrameworkBenchmarks.TitanPl

open Common

variable {N D : Type} {w : Worker N}

/-- The results that reached the operations of one request, in the order in which they came. -/
def System.repliesTo (s : System N D) (channel : ℕ) : List (Answer N D) :=
  s.answers.filter (·.channel == some channel)

/-- The entry of the timings that a result leaves behind. -/
def Answer.timing (a : Answer N D) : String × D := (timingType a.result, a.duration)

/-- A new request gets an id that is not zero and that no pending request, no drift id and no list
of timings uses. -/
def unusedRequestId (s : System N D) : Command N D → Prop
  | .request _ =>
    let requestId := u32Succ s.rt.requestCounter
    requestId ≠ 0 ∧ s.rt.pendingRequests requestId = none ∧
      (∀ id, s.rt.driftToRequest id ≠ some requestId) ∧ s.rt.requestTimings requestId = none
  | .resume .. => True

/-- The side condition of a step under which requests stay apart: a new request gets an unused id,
and no drift call of the execution that the step starts gets a foreign one. -/
def keepsApart (w : Worker N) (s : System N D) (cmd : Command N D) : Prop :=
  unusedRequestId s cmd ∧ s.drawsFree foreignDriftId w cmd = true

/-- The results came to the drift calls of the action one after the other, and each but the last was
not enough to decide the request. -/
structure Received (w : Worker N) (task : RequestData) (replies : List (Answer N D)) : Prop where
  calls : replies.map (·.call) = List.range replies.length
  undecided : ∀ k < replies.length, soloVerdict w task ((replies.map (·.result)).take k) = none
  short : replies.length ≤ 2 ^ 32

/-- The entries of a request from which its action is executed next. -/
structure Replayed (rt : TitanRuntime N D) (r start : ℕ) (replies : List (Answer N D)) : Prop where
  nonzero : r ≠ 0
  startCounter : rt.requestStartCounters r = some start
  stored : Stored rt r start (replies.map (·.result))
  timings : (rt.requestTimings r).getD [] = replies.map Answer.timing

/-- Whether an operation of a request is in flight: exactly if the request waits for its result. -/
structure Waiting (w : Worker N) (rt : TitanRuntime N D) (channel r start : ℕ) (task : RequestData)
    (replies : List (Answer N D)) : Prop where
  verdict : soloVerdict w task (replies.map (·.result)) = none ∨
    soloVerdict w task (replies.map (·.result)) = some .suspended
  issued : soloVerdict w task (replies.map (·.result)) = none →
    ∃ op ∈ rt.asyncOps, op.requestId = r
  inFlight : ∀ op ∈ rt.asyncOps, op.requestId = r →
    soloVerdict w task (replies.map (·.result)) = none ∧ op.channel = some channel ∧
      op.driftId = driftIdAt start replies.length ∧ op.call = replies.length ∧
      replies.length < 2 ^ 32 ∧ rt.driftToRequest op.driftId = some r

/-- A suspended request. -/
structure Suspended (w : Worker N) (rt : TitanRuntime N D) (channel r : ℕ) (task : RequestData)
    (replies : List (Answer N D)) : Prop where
  active : rt.activeRequests r = some task
  received : Received w task replies
  entries : ∃ start, Replayed rt r start replies ∧ Waiting w rt channel r start task replies

theorem Replayed.of_untouched {rt rt' : TitanRuntime N D} {r start : ℕ}
    {replies : List (Answer N D)} (h : Replayed rt r start replies) (hsame : Untouched rt rt' r) :
    Replayed rt' r start replies where
  nonzero := h.nonzero
  startCounter := hsame.startCounter.trans h.startCounter
  stored := h.stored.of_untouched hsame
  timings := by rw [hsame.timings, h.timings]

theorem Waiting.of_untouched {rt rt' : TitanRuntime N D} {channel r start : ℕ} {task : RequestData}
    {replies : List (Answer N D)} (h : Waiting w rt channel r start task replies)
    (hsame : Untouched rt rt' r) : Waiting w rt' channel r start task replies where
  verdict := h.verdict
  issued hnone := by
    obtain ⟨op, hop, hr⟩ := h.issued hnone
    exact ⟨op, (hsame.ops op hr).mpr hop, hr⟩
  inFlight op hop hr := by
    obtain ⟨hnone, hchannel, hid, hcall, hlt, hmap⟩ := h.inFlight op ((hsame.ops op hr).mp hop) hr
    exact ⟨hnone, hchannel, hid, hcall, hlt, (hsame.mapping _).mpr hmap⟩

theorem Suspended.of_untouched {rt rt' : TitanRuntime N D} {channel r : ℕ} {task : RequestData}
    {replies : List (Answer N D)} (h : Suspended w rt channel r task replies)
    (hsame : Untouched rt rt' r) : Suspended w rt' channel r task replies where
  active := hsame.active.trans h.active
  received := h.received
  entries := by
    obtain ⟨start, hreplayed, hwaiting⟩ := h.entries
    exact ⟨start, hreplayed.of_untouched hsame, hwaiting.of_untouched hsame⟩

/-- The response is what the results of the request decide. -/
def Decided (w : Worker N) (task : RequestData) (replies : List (Answer N D))
    (result : WorkerResult N D) : Prop :=
  Received w task replies ∧
    (soloVerdict w task (replies.map (·.result))).bind
      (·.response (replies.map Answer.timing)) = some result

/-- The part of the invariant that does not single out any request. -/
structure Ordered (s : System N D) : Prop where
  channels : ChannelsOk s.accepted.length s.rt
  ops : ∀ op ∈ s.rt.asyncOps, (s.rt.pendingRequests op.requestId).isSome
  oneOp : (s.rt.asyncOps.map (·.requestId)).Nodup
  mapped : ResultsMapped s.rt
  owners : ∀ id r, s.rt.driftToRequest id = some r → r ∈ s.accepted.map Prod.fst
  known : ∀ a ∈ s.answers, ∀ tx, a.channel = some tx → tx < s.accepted.length

/-- The responses sent so far are what the results of their requests decide. -/
def ResponsesDecided (w : Worker N) (s : System N D) : Prop :=
  ∀ tx result, (tx, result) ∈ s.rt.sent →
    ∃ r task, s.accepted[tx]? = some (r, task) ∧ Decided w task (s.repliesTo tx) result

/-- The invariant of runs in which requests stay apart. -/
structure Isolated (w : Worker N) (s : System N D) : Prop where
  ordered : Ordered s
  suspended : ∀ r tx, s.rt.pendingRequests r = some tx →
    ∃ task, s.accepted[tx]? = some (r, task) ∧ Suspended w s.rt tx r task (s.repliesTo tx)
  responses : ResponsesDecided w s

/-- The state just before the action of request `r` is executed. -/
structure Poised (w : Worker N) (s : System N D) (channel r : ℕ) (task : RequestData) : Prop where
  ordered : Ordered s
  pending : s.rt.pendingRequests r = some channel
  accepted : s.accepted[channel]? = some (r, task)
  received : Received w task (s.repliesTo channel)
  replayed : Replayed s.rt r s.rt.driftCounter (s.repliesTo channel)
  idle : ∀ op ∈ s.rt.asyncOps, op.requestId ≠ r
  others : ∀ r' tx, r' ≠ r → s.rt.pendingRequests r' = some tx →
    ∃ task, s.accepted[tx]? = some (r', task) ∧ Suspended w s.rt tx r' task (s.repliesTo tx)
  responses : ResponsesDecided w s

/-- After the execution: the request has been answered, or it is suspended with its entries. -/
structure Resolved (w : Worker N) (s : System N D) (channel r : ℕ) (task : RequestData) : Prop where
  ordered : Ordered s
  self : s.rt.pendingRequests r = none ∨
    s.rt.pendingRequests r = some channel ∧ Received w task (s.repliesTo channel) ∧
      ∃ start, Replayed s.rt r start (s.repliesTo channel) ∧
        Waiting w s.rt channel r start task (s.repliesTo channel)
  others : ∀ r' tx, r' ≠ r → s.rt.pendingRequests r' = some tx →
    ∃ task, s.accepted[tx]? = some (r', task) ∧ Suspended w s.rt tx r' task (s.repliesTo tx)
  responses : ResponsesDecided w s

/-- An execution keeps the order of channels and operations. -/
theorem Ordered.execute {s : System N D} {r start : ℕ} {results : List (Value N)}
    {v : Option (Verdict N)} {rt' : TitanRuntime N D} (h : Ordered s)
    (hpending : (s.rt.pendingRequests r).isSome) (hknown : r ∈ s.accepted.map Prod.fst)
    (hidle : ∀ op ∈ s.rt.asyncOps, op.requestId ≠ r)
    (hexec : Executed s.rt r start results v rt') : Ordered { s with rt := rt' } := by
  have hmapped := hexec.resultsMapped h.mapped
  have howners : ∀ id r', rt'.driftToRequest id = some r' → r' ∈ s.accepted.map Prod.fst := by
    intro id r' hmap
    by_cases heq : r' = r
    · exact heq ▸ hknown
    · exact h.owners id r' (((hexec.untouched heq).mapping id).mp hmap)
  have hsame := fun (r' : ℕ) (hne : r' ≠ r) => (hexec.untouched hne).pending
  cases hexec with
  | settled v counter =>
    have hcounter : ChannelsOk s.accepted.length { s.rt with driftCounter := counter } :=
      h.channels.congr rfl rfl
    have hops := (settle_books r v { s.rt with driftCounter := counter }).2.2.2
    refine ⟨hcounter.settle r v, fun op hop => ?_, ?_, hmapped, howners, h.known⟩
    · rw [hops] at hop
      rw [hsame op.requestId (hidle op hop)]
      exact h.ops op hop
    · rw [hops]
      exact h.oneOp
  | issued op opType hcall hid hnew =>
    refine ⟨h.channels.congr rfl rfl, fun op' hop' => ?_, ?_, hmapped, howners, h.known⟩
    · rcases List.mem_append.mp hop' with hop' | hop'
      · exact h.ops op' hop'
      · rw [List.mem_singleton.mp hop']
        exact hpending
    · simp only [issueAt, List.map_append, List.map_cons, List.map_nil]
      refine List.nodup_append.mpr ⟨h.oneOp, List.pairwise_singleton _ r, fun r' hr' r'' hr'' heq => ?_⟩
      obtain ⟨op', hop', rfl⟩ := List.mem_map.mp hr'
      exact hidle op' hop' (heq.trans (List.mem_singleton.mp hr''))

/-- A response sent after an execution is what the results of its request decide. -/
theorem ResponsesDecided.execute {s : System N D} {channel r start : ℕ} {task : RequestData}
    {rt' : TitanRuntime N D} (h : ResponsesDecided w s)
    (hpending : s.rt.pendingRequests r = some channel)
    (haccepted : s.accepted[channel]? = some (r, task))
    (hreceived : Received w task (s.repliesTo channel))
    (htimings : (s.rt.requestTimings r).getD [] = (s.repliesTo channel).map Answer.timing)
    (hexec : Executed s.rt r start ((s.repliesTo channel).map (·.result))
      (soloVerdict w task ((s.repliesTo channel).map (·.result))) rt') :
    ResponsesDecided w { s with rt := rt' } := by
  generalize hv : soloVerdict w task ((s.repliesTo channel).map (·.result)) = v at hexec
  cases hexec with
  | settled v counter =>
    cases hresponse : v.response ((s.repliesTo channel).map Answer.timing) with
    | none =>
      have hsuspended : v = .suspended := by cases v <;> first | rfl | cases hresponse
      rw [hsuspended]
      exact h
    | some result =>
      let rt₁ : TitanRuntime N D := { s.rt with driftCounter := counter }
      have hpending₁ : rt₁.pendingRequests r = some channel := hpending
      have hsent := (settle_of_response hpending₁ (htimings ▸ hresponse)).2
      intro tx result' hmem
      rw [hsent] at hmem
      rcases List.mem_append.mp hmem with hmem | hmem
      · exact h tx result' hmem
      · obtain ⟨rfl, rfl⟩ := Prod.mk.inj (List.mem_singleton.mp hmem)
        refine ⟨r, task, haccepted, hreceived, ?_⟩
        have hboth : (soloVerdict w task ((s.repliesTo tx).map (·.result))).bind
            (·.response ((s.repliesTo tx).map Answer.timing)) = some result' := by
          rw [hv]
          exact hresponse
        exact hboth
  | issued op opType hcall hid hnew => exact h

/-- An execution that meets no foreign id takes a poised request to a resolved one. -/
theorem Poised.execute {s : System N D} {channel r : ℕ} {task : RequestData} {rt' : TitanRuntime N D}
    (h : Poised w s channel r task)
    (hexec : Executed s.rt r s.rt.driftCounter ((s.repliesTo channel).map (·.result))
      (soloVerdict w task ((s.repliesTo channel).map (·.result))) rt') :
    Resolved w { s with rt := rt' } channel r task where
  ordered := h.ordered.execute (by simp [h.pending])
    (List.mem_map_of_mem (f := Prod.fst) (List.mem_of_getElem? h.accepted)) h.idle hexec
  others r' tx hne hpending := by
    have hsame := hexec.untouched hne
    obtain ⟨task', hacc, hsus⟩ := h.others r' tx hne (hsame.pending ▸ hpending)
    exact ⟨task', hacc, hsus.of_untouched hsame⟩
  responses := h.responses.execute h.pending h.accepted h.received h.replayed.timings hexec
  self := by
    have hreplayed := h.replayed
    generalize hv : soloVerdict w task ((s.repliesTo channel).map (·.result)) = v at hexec
    cases hexec with
    | settled v counter =>
      cases hresponse : v.response ((s.repliesTo channel).map Answer.timing) with
      | none =>
        right
        have hsuspended : v = .suspended := by cases v <;> first | rfl | cases hresponse
        subst hsuspended
        refine ⟨h.pending, h.received, s.rt.driftCounter, ⟨hreplayed.nonzero,
          hreplayed.startCounter, ⟨hreplayed.stored.1, hreplayed.stored.2⟩, hreplayed.timings⟩, ?_⟩
        refine ⟨.inr hv, fun hnone => ?_, fun op hop hr => absurd hr (h.idle op hop)⟩
        have hnone' : soloVerdict w task ((s.repliesTo channel).map (·.result)) = none := hnone
        rw [hv] at hnone'
        cases hnone'
      | some result =>
        left
        let rt₁ : TitanRuntime N D := { s.rt with driftCounter := counter }
        have hpending₁ : rt₁.pendingRequests r = some channel := h.pending
        have hpending := (settle_of_response hpending₁ (hreplayed.timings ▸ hresponse)).1
        rw [hpending]
        exact PartialMap.erase_self _ _
    | issued op opType hcall hid hnew =>
      right
      rw [List.length_map] at hcall hid hnew
      refine ⟨h.pending, h.received, s.rt.driftCounter, ?_, ?_⟩
      · refine ⟨hreplayed.nonzero, hreplayed.startCounter, ⟨fun j v' hj => ?_, fun id v' hmap hres => ?_⟩,
          hreplayed.timings⟩
        · obtain ⟨hres, hmap⟩ := hreplayed.stored.stored j v' hj
          refine ⟨hres, ?_⟩
          simp only [issueAt, PartialMap.insert_apply]
          split
          · rfl
          · exact hmap
        · by_cases heq : id = driftIdAt s.rt.driftCounter (s.repliesTo channel).length
          · exact absurd (heq ▸ hres : s.rt.completedDrifts _ = some v') (by simp [hnew])
          · refine hreplayed.stored.only id v' ?_ hres
            simpa [issueAt, heq] using hmap
      · refine ⟨.inl hv, fun _ => ⟨_, List.mem_append_right _ (List.mem_singleton_self _), rfl⟩, ?_⟩
        intro op' hop' hr
        rcases List.mem_append.mp hop' with hop' | hop'
        · exact absurd hr (h.idle op' hop')
        · obtain rfl := List.mem_singleton.mp hop'
          refine ⟨hv, h.pending, by rw [List.length_map]; rfl, List.length_map _, hcall, ?_⟩
          simp [issueAt]

end FrameworkBenchmarks.TitanPl
