import FrameworkBenchmarks.BeetleX.Requests
import FrameworkBenchmarks.Common.GuardedRun

/-!
# The order of the responses

Each call of `Receive` starts a loop of its own over the queue. As long as no second loop is started while
one is suspended, and no database call fails, the responses are whole and in the order of the requests.
-/

namespace FrameworkBenchmarks.BeetleX

open Common

/-! ### Responses in order -/

section

variable (rawDb : RawDb) (date : List UInt8)

/-- What a request does. -/
def Request.work (request : Request) : Work :=
  BeetleX.work rawDb date (analysisUrl request.url).2 (analysisUrl request.url).1

/-- The responses to requests, the first database call having the given number. -/
def responses : ℕ → List Request → List UInt8
  | _, [] => []
  | call, request :: requests =>
    match request.work rawDb date with
    | .answer bytes => bytes ++ responses call requests
    | .await bytes => bytes call ++ responses (call + 1) requests

/-- The number of database calls that requests make. -/
def callCount : List Request → ℕ
  | [] => 0
  | request :: requests =>
    match request.work rawDb date with
    | .answer _ => callCount requests
    | .await _ => callCount requests + 1

/-- The bytes written are the responses to the first of the complete requests, in their order; while no
call is suspended, to all of them, and they are flushed. -/
def InOrder (requests : List Request) (received : List UInt8) (handler : HttpHandler) : Prop :=
  ∃ answered waiting, completeRequests requests received = answered ++ waiting ∧
    handler.written = responses rawDb date 0 answered ∧
    (handler.suspended = [] → waiting = [] ∧ handler.flushed = handler.written)

/-- The bytes that the events bring. -/
def receivedBytes (events : List HttpHandler.Event) : List UInt8 :=
  events.flatMap fun
    | .received bytes => bytes
    | .completed _ => []

/-- No second loop is started: while a call is suspended, nothing is left in the queue, and what arrives
completes no request. -/
def OneLoop (handler : HttpHandler) : HttpHandler.Event → Prop
  | .received bytes => handler.suspended = [] ∨
      handler.requests = [] ∧ [] ∉ (lines.frames (handler.unread ++ bytes)).1
  | .completed _ => True

variable {rawDb date}

theorem responses_append (call : ℕ) (first second : List Request) :
    responses rawDb date call (first ++ second) = responses rawDb date call first ++
      responses rawDb date (call + callCount rawDb date first) second := by
  induction first generalizing call with
  | nil => rfl
  | cons request first ih =>
    simp only [List.cons_append, responses, callCount]
    cases request.work rawDb date with
    | answer bytes => simp only [ih, List.append_assoc]
    | await bytes => simp only [ih, List.append_assoc, Nat.add_assoc, Nat.add_comm 1]

theorem callCount_append (first second : List Request) :
    callCount rawDb date (first ++ second) = callCount rawDb date first + callCount rawDb date second := by
  induction first with
  | nil => simp [callCount]
  | cons request first ih =>
    simp only [List.cons_append, callCount]
    cases request.work rawDb date with
    | answer bytes => exact ih
    | await bytes => simp only [ih, Nat.add_right_comm]

/-! ### One loop -/

/-- A handler that has answered some requests: it is idle, or its loop is suspended at the next one. -/
inductive Serving (rawDb : RawDb) (date : List UInt8) (answered : List Request) :
    List Request → HttpHandler → Prop
  | idle {handler : HttpHandler} (hsuspended : handler.suspended = []) (hrequests : handler.requests = [])
      (hcalls : handler.calls = callCount rawDb date answered)
      (hwritten : handler.written = responses rawDb date 0 answered)
      (hflushed : handler.flushed = handler.written) : Serving rawDb date answered [] handler
  | waiting {handler : HttpHandler} {request : Request} {rest : List Request} {bytes : ℕ → List UInt8}
      (hwork : request.work rawDb date = .await bytes)
      (hsuspended : handler.suspended = [(callCount rawDb date answered, bytes)])
      (hrequests : handler.requests = rest.map fun request => some request.data)
      (hcalls : handler.calls = callCount rawDb date answered + 1)
      (hwritten : handler.written = responses rawDb date 0 answered) :
      Serving rawDb date answered (request :: rest) handler

namespace HttpHandler

@[simp] theorem calls_write (handler : HttpHandler) (bytes : List UInt8) :
    (handler.write bytes).calls = handler.calls := rfl

theorem serve_action (action : ActionType) (queryString : Option (List UInt8))
    (requests : List (Option RequestData)) (handler : HttpHandler) :
    handler.serve rawDb date (some ⟨some action, queryString⟩ :: requests) =
      match work rawDb date queryString action with
      | .answer bytes => (handler.write bytes).serve rawDb date requests
      | .await bytes =>
        if rawDb.completed handler.calls then
          match { handler with calls := handler.calls + 1 }.answered rawDb handler.calls bytes with
          | .error handler => { handler with requests := requests }
          | .ok handler => handler.serve rawDb date requests
        else { handler with
          calls := handler.calls + 1
          requests := requests
          suspended := handler.suspended ++ [(handler.calls, bytes)] } := rfl

/-- What serving the queue leaves alone. -/
theorem serve_frame (rawDb : RawDb) (date : List UInt8) (requests : List (Option RequestData))
    (handler : HttpHandler) :
    (handler.serve rawDb date requests).unread = handler.unread ∧
      (handler.serve rawDb date requests).readRequest = handler.readRequest ∧
      handler.calls ≤ (handler.serve rawDb date requests).calls := by
  induction requests generalizing handler with
  | nil => exact ⟨rfl, rfl, Nat.le_refl _⟩
  | cons data requests ih =>
    match data with
    | none => exact ⟨rfl, rfl, Nat.le_refl _⟩
    | some ⟨none, _⟩ => exact ⟨rfl, rfl, Nat.le_refl _⟩
    | some ⟨some action, queryString⟩ =>
      rw [serve_action]
      cases work rawDb date queryString action with
      | answer bytes => exact ih (handler.write bytes)
      | await bytes =>
        by_cases hcompleted : rawDb.completed handler.calls = true
        · simp only [if_pos hcompleted, answered]
          cases rawDb.failure handler.calls with
          | some message => exact ⟨rfl, rfl, Nat.le_succ _⟩
          | none =>
            obtain ⟨hunread, hreadRequest, hcalls⟩ :=
              ih ({ handler with calls := handler.calls + 1 }.write (bytes handler.calls))
            exact ⟨hunread, hreadRequest, Nat.le_of_succ_le hcalls⟩
        · simp only [if_neg hcompleted, true_and, Nat.le_add_right]

/-- The loop serves the queue in order, up to the first call that has not completed. -/
theorem serve_serving {waiting answered : List Request} (handler : HttpHandler)
    (hsuspended : handler.suspended = [])
    (hcalls : handler.calls = callCount rawDb date answered)
    (hwritten : handler.written = responses rawDb date 0 answered)
    (hdb : ∀ call < (handler.serve rawDb date (waiting.map fun request => some request.data)).calls,
      rawDb.failure call = none) :
    ∃ answered' waiting', answered ++ waiting = answered' ++ waiting' ∧
      Serving rawDb date answered' waiting'
        (handler.serve rawDb date (waiting.map fun request => some request.data)) := by
  induction waiting generalizing answered handler with
  | nil => exact ⟨answered, [], rfl, .idle hsuspended rfl hcalls hwritten rfl⟩
  | cons request waiting ih =>
    rw [List.map_cons, Request.data, serve_action] at hdb ⊢
    cases hwork : request.work rawDb date with
    | answer bytes =>
      have hbranch := hwork
      rw [Request.work] at hbranch
      simp only [hbranch] at hdb ⊢
      have hcount : callCount rawDb date (answered ++ [request]) = callCount rawDb date answered := by
        rw [callCount_append, callCount, hwork]
        rfl
      have hresponses : responses rawDb date 0 (answered ++ [request]) = handler.written ++ bytes := by
        rw [responses_append, responses, hwork, hwritten]
        simp only [responses, List.append_nil]
      obtain ⟨answered', waiting', hsplit, hserving⟩ := @ih (answered ++ [request])
        (handler.write bytes) hsuspended (hcalls.trans hcount.symm) hresponses.symm hdb
      rw [List.append_assoc, List.singleton_append] at hsplit
      exact ⟨answered', waiting', hsplit, hserving⟩
    | await bytes =>
      have hbranch := hwork
      rw [Request.work] at hbranch
      simp only [hbranch] at hdb ⊢
      have hcount : callCount rawDb date (answered ++ [request]) = handler.calls + 1 := by
        rw [callCount_append, callCount, hwork, hcalls]
        rfl
      by_cases hcompleted : rawDb.completed handler.calls = true
      · rw [if_pos hcompleted] at hdb ⊢
        have hfailure : rawDb.failure handler.calls = none := by
          by_contra hne
          obtain ⟨message, hmessage⟩ := Option.ne_none_iff_exists'.mp hne
          simp only [HttpHandler.answered, hmessage] at hdb
          have := hdb handler.calls (Nat.lt_succ_self _)
          rw [hmessage] at this
          cases this
        have hresponses : responses rawDb date 0 (answered ++ [request]) =
            handler.written ++ bytes handler.calls := by
          rw [responses_append, responses, hwork, hwritten, hcalls]
          simp only [responses, List.append_nil, Nat.zero_add]
        simp only [HttpHandler.answered, hfailure] at hdb ⊢
        obtain ⟨answered', waiting', hsplit, hserving⟩ := @ih (answered ++ [request])
          ({ handler with calls := handler.calls + 1 }.write (bytes handler.calls)) hsuspended hcount.symm hresponses.symm hdb
        rw [List.append_assoc, List.singleton_append] at hsplit
        exact ⟨answered', waiting', hsplit, hserving⟩
      · rw [if_neg hcompleted]
        refine ⟨answered, request :: waiting, rfl, .waiting hwork ?_ rfl ?_ hwritten⟩
        · simp only [hsuspended, hcalls, List.nil_append]
        · simp only [hcalls]

end HttpHandler

/-! ### Steps -/

/-- What holds of a connection between two events. -/
structure Sound (rawDb : RawDb) (date : List UInt8) (requests : List Request) (received : List UInt8)
    (handler : HttpHandler) : Prop where
  unread : handler.unread = (lines.frames received).2
  read : (lines.frames received).1.foldlM onLine (none, []) = some (handler.readRequest,
    (completeRequests requests received).map fun request => some request.data)
  served : ∃ answered waiting, completeRequests requests received = answered ++ waiting ∧
    Serving rawDb date answered waiting handler

theorem Sound.initial (requests : List Request) : Sound rawDb date requests [] {} := by
  have hnone : completeRequests requests [] = [] := by
    cases requests with
    | nil => rfl
    | cons request requests =>
      rw [completeRequests, if_neg]
      simp [Request.bytes, Request.lines]
  have hempty : lines.frames [] = ([], []) := Framer.frames_of_none rfl
  constructor
  · rw [hempty]
  · rw [hempty, hnone]
    rfl
  · exact ⟨[], [], hnone, .idle rfl rfl rfl rfl rfl⟩

namespace HttpHandler

theorem receive_eq (rawDb : RawDb) (date : List UInt8) (handler : HttpHandler) (bytes : List UInt8)
    {readRequest : Option RequestData} {queue : List (Option RequestData)}
    (h : (lines.frames (handler.unread ++ bytes)).1.foldlM onLine (handler.readRequest, handler.requests) =
      some (readRequest, queue)) :
    handler.receive rawDb date bytes =
      if queue.length > 0 then
        { handler with
          unread := (lines.frames (handler.unread ++ bytes)).2
          readRequest := readRequest
          requests := queue }.serve rawDb date queue
      else { handler with
        unread := (lines.frames (handler.unread ++ bytes)).2
        readRequest := readRequest
        requests := queue } := by
  have hread := readLines_eq { handler with unread := handler.unread ++ bytes }
    (Nat.lt_succ_self _) h
  rw [receive]
  simp only [hread]
  rfl

end HttpHandler

/-- What is queued by further bytes. -/
theorem Sound.more {requests : List Request} {received : List UInt8} {handler : HttpHandler}
    (h : Sound rawDb date requests received handler) {bytes : List UInt8}
    (hbytes : received ++ bytes <+: requests.flatMap Request.bytes) :
    ∃ more readRequest, completeRequests requests (received ++ bytes) =
        completeRequests requests received ++ more ∧
      (lines.frames (received ++ bytes)).1.foldlM onLine (none, []) = some (readRequest,
        (completeRequests requests (received ++ bytes)).map fun request => some request.data) ∧
      (lines.frames (handler.unread ++ bytes)).2 = (lines.frames (received ++ bytes)).2 ∧
      ∀ queue, (lines.frames (handler.unread ++ bytes)).1.foldlM onLine (handler.readRequest, queue) =
        some (readRequest, queue ++ more.map fun request => some request.data) := by
  obtain ⟨more, hmore⟩ := completeRequests_append requests received bytes
  obtain ⟨readRequest, hread⟩ := foldlM_onLine_frames hbytes
  have hframes := Framer.frames_append lines received bytes
  rw [← h.unread] at hframes
  have hnew := hread
  rw [hframes, List.foldlM_append, h.read] at hnew
  have hqueue (queue : List (Option RequestData)) := foldlM_onLine_append
    (lines.frames (handler.unread ++ bytes)).1 handler.readRequest queue []
  simp only [List.append_nil] at hqueue
  rw [Option.bind_eq_bind, Option.bind_some, hqueue] at hnew
  obtain ⟨⟨readRequest', added⟩, hadded, heq⟩ := Option.map_eq_some_iff.mp hnew
  obtain ⟨rfl, hadds⟩ := Prod.mk.inj heq
  rw [← hmore, List.map_append] at hadds
  obtain rfl := List.append_cancel_left hadds
  refine ⟨more, readRequest', hmore.symm, hread, by rw [hframes], ?_⟩
  intro queue
  rw [hqueue, hadded]
  rfl

/-- Bytes arrive. -/
theorem Sound.received {requests : List Request} {received : List UInt8} {handler : HttpHandler}
    (h : Sound rawDb date requests received handler) {bytes : List UInt8}
    (hbytes : received ++ bytes <+: requests.flatMap Request.bytes)
    (hguard : OneLoop handler (.received bytes))
    (hdb : ∀ call < (handler.receive rawDb date bytes).calls, rawDb.failure call = none) :
    Sound rawDb date requests (received ++ bytes) (handler.receive rawDb date bytes) := by
  obtain ⟨more, readRequest, hmore, hread, hunread, hnew⟩ := h.more hbytes
  obtain ⟨answered, waiting, hsplit, hserving⟩ := h.served
  have hreceive := HttpHandler.receive_eq rawDb date handler bytes (hnew handler.requests)
  rw [hreceive, hunread] at hdb ⊢
  cases hserving with
  | idle hsuspended hrequests hcalls hwritten hflushed =>
    rw [List.append_nil] at hsplit
    rw [hrequests, List.nil_append] at hdb ⊢
    cases more with
    | nil =>
      rw [List.append_nil, hsplit] at hmore
      exact ⟨rfl, hread, answered, [], by rw [hmore, List.append_nil],
        .idle hsuspended rfl hcalls hwritten hflushed⟩
    | cons request more =>
      have hpositive : ((request :: more).map fun request => some request.data).length > 0 :=
        Nat.succ_pos _
      rw [if_pos hpositive] at hdb ⊢
      obtain ⟨answered', waiting', hsplit', hserving'⟩ := HttpHandler.serve_serving
        { handler with
          unread := (lines.frames (received ++ bytes)).2
          readRequest := readRequest
          requests := (request :: more).map fun request => some request.data }
        hsuspended hcalls hwritten hdb
      obtain ⟨hframe, hframe', _⟩ := HttpHandler.serve_frame rawDb date _ _
      exact ⟨hframe, by rw [hframe', hread], answered', waiting', by rw [hmore, hsplit, hsplit'], hserving'⟩
  | waiting hwork hsuspended hrequests hcalls hwritten =>
    rename_i request rest awaited
    cases hguard with
    | inl hnone =>
      rw [hsuspended] at hnone
      cases hnone
    | inr hquiet =>
      have hnone : handler.requests ++ more.map (fun request => some request.data) = handler.requests :=
        foldlM_onLine_of_ne_nil hquiet.2 (hnew handler.requests)
      have hmoreNil : more = [] := List.map_eq_nil_iff.mp (List.append_right_eq_self.mp hnone)
      have hpositive : ¬handler.requests.length > 0 := by
        rw [hquiet.1]
        exact Nat.lt_irrefl 0
      rw [hnone, if_neg hpositive]
      rw [hmoreNil, List.append_nil, hsplit] at hmore
      exact ⟨rfl, hread, answered, request :: rest, hmore,
        .waiting hwork hsuspended hrequests hcalls hwritten⟩

/-- A call completes. -/
theorem Sound.completed {requests : List Request} {received : List UInt8} {handler handler' : HttpHandler}
    (h : Sound rawDb date requests received handler) {call : ℕ}
    (hnext : handler.complete rawDb date call = some handler')
    (hdb : ∀ call < handler'.calls, rawDb.failure call = none) :
    Sound rawDb date requests received handler' := by
  obtain ⟨answered, waiting, hsplit, hserving⟩ := h.served
  cases hserving with
  | idle hsuspended hrequests hcalls hwritten hflushed =>
    rw [HttpHandler.complete, hsuspended] at hnext
    cases hnext
  | waiting hwork hsuspended hrequests hcalls hwritten =>
    rename_i request rest bytes
    by_cases hcall : callCount rawDb date answered = call
    · subst hcall
      have hcomplete : handler.complete rawDb date (callCount rawDb date answered) =
          some (match { handler with suspended := [] }.answered rawDb (callCount rawDb date answered)
              bytes with
            | .error handler => handler
            | .ok handler => handler.onStartRequest rawDb date) := by
        have hfind : ([(callCount rawDb date answered, bytes)].find? fun awaited =>
            awaited.1 = callCount rawDb date answered) = some (callCount rawDb date answered, bytes) := by
          simp
        have hfilter : ([(callCount rawDb date answered, bytes)].filter fun other =>
            other.1 ≠ callCount rawDb date answered) = [] := by
          simp
        rw [HttpHandler.complete, hsuspended, hfind, hfilter]
        rfl
      rw [hcomplete] at hnext
      obtain rfl := Option.some.inj hnext
      have hfailure : rawDb.failure (callCount rawDb date answered) = none := by
        by_contra hne
        obtain ⟨message, hmessage⟩ := Option.ne_none_iff_exists'.mp hne
        simp only [HttpHandler.answered, hmessage] at hdb
        have := hdb (callCount rawDb date answered) (by simp [hcalls])
        rw [hmessage] at this
        cases this
      have hcount : callCount rawDb date (answered ++ [request]) = handler.calls := by
        rw [callCount_append, callCount, hwork, hcalls]
        rfl
      have hresponses : responses rawDb date 0 (answered ++ [request]) =
          handler.written ++ bytes (callCount rawDb date answered) := by
        rw [responses_append, responses, hwork, hwritten]
        simp only [responses, List.append_nil, Nat.zero_add]
      simp only [HttpHandler.answered, hfailure, HttpHandler.onStartRequest] at hdb ⊢
      have hqueue : ({ handler with suspended := [] }.write (bytes (callCount rawDb date answered))).requests =
          rest.map fun request => some request.data := hrequests
      rw [hqueue] at hdb ⊢
      obtain ⟨answered', waiting', hsplit', hserving'⟩ := HttpHandler.serve_serving
        ({ handler with suspended := [] }.write (bytes (callCount rawDb date answered)))
        rfl hcount.symm hresponses.symm hdb
      obtain ⟨hframe, hframe', _⟩ := HttpHandler.serve_frame rawDb date
        (rest.map fun request => some request.data)
        ({ handler with suspended := [] }.write (bytes (callCount rawDb date answered)))
      refine ⟨hframe.trans h.unread, hframe'.symm ▸ h.read, answered', waiting', ?_, hserving'⟩
      rw [hsplit, ← hsplit', List.append_assoc, List.singleton_append]
    · rw [HttpHandler.complete, hsuspended] at hnext
      simp [hcall] at hnext

/-! ### Runs -/

namespace HttpHandler

/-- Reading lines makes no call, whether an exception ends it or not. -/
theorem readLines_calls (fuel : ℕ) (handler : HttpHandler) :
    (∃ handler', handler.readLines fuel = .ok handler' ∧ handler'.calls = handler.calls) ∨
      ∃ handler', handler.readLines fuel = .error handler' ∧ handler'.calls = handler.calls := by
  induction fuel generalizing handler with
  | zero => exact .inl ⟨handler, rfl, rfl⟩
  | succ fuel ih =>
    rw [readLines]
    cases indexOfLine handler.unread with
    | none => exact .inl ⟨handler, rfl, rfl⟩
    | some length =>
      simp only
      by_cases hempty : (handler.unread.take length).length = 2
      · rw [if_pos hempty]
        exact ih _
      · rw [if_neg hempty]
        by_cases haction : (handler.readRequest.getD {}).action = none
        · rw [if_pos haction]
          cases analysisAction (handler.unread.take length) with
          | none => exact .inr ⟨_, rfl, rfl⟩
          | some target => exact ih _
        · rw [if_neg haction]
          exact ih _

/-- No event undoes a call. -/
theorem next_calls {handler handler' : HttpHandler} {event : Event}
    (hnext : handler.next rawDb date event = some handler') : handler.calls ≤ handler'.calls := by
  cases event with
  | received bytes =>
    obtain rfl := Option.some.inj hnext
    rw [receive]
    obtain ⟨middle, hread, hcalls⟩ | ⟨middle, hread, hcalls⟩ := readLines_calls
      ({ handler with unread := handler.unread ++ bytes }.unread.length + 1)
      { handler with unread := handler.unread ++ bytes }
    · simp only [hread]
      by_cases hqueue : middle.requests.length > 0
      · rw [if_pos hqueue, ← hcalls]
        exact (serve_frame rawDb date middle.requests middle).2.2
      · rw [if_neg hqueue]
        exact Nat.le_of_eq hcalls.symm
    · simp only [hread]
      exact Nat.le_of_eq hcalls.symm
  | completed call =>
    obtain ⟨awaited, _, rfl⟩ := Option.map_eq_some_iff.mp hnext
    simp only [answered]
    cases rawDb.failure call with
    | some message => exact Nat.le_refl _
    | none =>
      let middle := { handler with
        suspended := handler.suspended.filter fun other => other.1 ≠ call }.write (awaited.2 call)
      exact (serve_frame rawDb date middle.requests middle).2.2

end HttpHandler

theorem receivedBytes_cons (event : HttpHandler.Event) (events : List HttpHandler.Event) :
    receivedBytes (event :: events) = receivedBytes [event] ++ receivedBytes events := by
  simp [receivedBytes]

/-- One event. -/
theorem Sound.next {requests : List Request} {received : List UInt8} {handler handler' : HttpHandler}
    (h : Sound rawDb date requests received handler) {event : HttpHandler.Event}
    (hguard : OneLoop handler event) (hnext : handler.next rawDb date event = some handler')
    (hbytes : received ++ receivedBytes [event] <+: requests.flatMap Request.bytes)
    (hdb : ∀ call < handler'.calls, rawDb.failure call = none) :
    Sound rawDb date requests (received ++ receivedBytes [event]) handler' := by
  cases event with
  | received bytes =>
    have hbytes' : receivedBytes [.received bytes] = bytes := by simp [receivedBytes]
    rw [hbytes'] at hbytes ⊢
    obtain rfl := Option.some.inj hnext
    exact h.received hbytes hguard hdb
  | completed call =>
    have hnone : receivedBytes [.completed call] = [] := by simp [receivedBytes]
    rw [hnone, List.append_nil]
    exact h.completed hnext hdb

/-- Every run in which no second loop is started. -/
theorem Sound.run {requests : List Request} {received : List UInt8} {handler handler' : HttpHandler}
    {events : List HttpHandler.Event} (h : Sound rawDb date requests received handler)
    (hrun : GuardedRun (HttpHandler.next rawDb date) OneLoop handler events handler')
    (hbytes : received ++ receivedBytes events <+: requests.flatMap Request.bytes)
    (hdb : ∀ call < handler'.calls, rawDb.failure call = none) :
    Sound rawDb date requests (received ++ receivedBytes events) handler' := by
  induction hrun generalizing received with
  | nil handler =>
    have hnone : receivedBytes [] = [] := rfl
    rwa [hnone, List.append_nil]
  | cons hguard hnext hrest ih =>
    rename_i handler middle final event events
    have hmonotone : middle.calls ≤ final.calls :=
      hrest.invariant (I := fun reached => middle.calls ≤ reached.calls)
        (fun _ _ _ hreached _ hnext => Nat.le_trans hreached (HttpHandler.next_calls hnext))
        (Nat.le_refl _)
    rw [receivedBytes_cons, ← List.append_assoc] at hbytes ⊢
    have hmiddle := h.next hguard hnext ((List.prefix_append _ _).trans hbytes)
      fun call hcall => hdb call (Nat.lt_of_lt_of_le hcall hmonotone)
    exact ih hmiddle hbytes hdb

theorem Sound.inOrder {requests : List Request} {received : List UInt8} {handler : HttpHandler}
    (h : Sound rawDb date requests received handler) : InOrder rawDb date requests received handler := by
  obtain ⟨answered, waiting, hsplit, hserving⟩ := h.served
  refine ⟨answered, waiting, hsplit, ?_⟩
  cases hserving with
  | idle hsuspended hrequests hcalls hwritten hflushed => exact ⟨hwritten, fun _ => ⟨rfl, hflushed⟩⟩
  | waiting hwork hsuspended hrequests hcalls hwritten =>
    refine ⟨hwritten, ?_⟩
    intro hnone
    rw [hsuspended] at hnone
    cases hnone

/-- Over every way of splitting a stream of requests and every interleaving with the database calls, the
bytes written are the responses in the order of the requests, as long as no second loop is started while
one is suspended and the calls made do not fail. -/
theorem responses_in_order {requests : List Request} {events : List HttpHandler.Event}
    {handler : HttpHandler} (hrun : GuardedRun (HttpHandler.next rawDb date) OneLoop {} events handler)
    (hbytes : receivedBytes events <+: requests.flatMap Request.bytes)
    (hdb : ∀ call < handler.calls, rawDb.failure call = none) :
    InOrder rawDb date requests (receivedBytes events) handler :=
  ((Sound.initial requests).run hrun hbytes hdb).inOrder

end

/-- A request for a url, without headers. -/
def getRequest (url : List UInt8) (hspace : 32 ∉ url) (hreturn : CR ∉ url) : Request where
  method := ascii "GET"
  url := url
  version := ascii "HTTP/1.1"
  headers := []
  method_space := by decide +kernel
  url_space := hspace
  firstLine_lineEnd := by
    have hmethod : CR ∉ ascii "GET" := by decide +kernel
    have hversion : CR ∉ ascii "HTTP/1.1" := by decide +kernel
    have hline : CR ∉ ascii "GET" ++ 32 :: (url ++ 32 :: ascii "HTTP/1.1") := by
      have hspace : CR ≠ 32 := by decide
      simp [hmethod, hversion, hreturn, hspace]
    exact fun hends => hline (hends.subset List.mem_cons_self)
  headers_lines := by simp

def getDb : Request := getRequest (ascii "/db") (by decide +kernel) (by decide +kernel)

def getJson : Request := getRequest (ascii "/json") (by decide +kernel) (by decide +kernel)

/-- A database whose calls are suspended and find the row of their number. -/
def rowDb : RawDb where
  completed _ := false
  failure _ := none
  loadSingleQueryRow call := ⟨call, call⟩
  loadMultipleQueriesRows _ _ := []
  loadMultipleUpdatesRows _ _ := []
  loadCachedQueries _ _ := []
  loadFortunesRows _ := []

theorem responses_in_order_getDb : ∃ handler,
    (HttpHandler.receive rowDb [] {} getDb.bytes).complete rowDb [] 0 = some handler ∧
      InOrder rowDb [] [getDb, getJson] (receivedBytes [.received getDb.bytes, .completed 0]) handler := by
  have hsome : ((HttpHandler.receive rowDb [] {} getDb.bytes).complete rowDb [] 0).isSome = true := by
    decide +kernel
  obtain ⟨handler, hcomplete⟩ := Option.isSome_iff_exists.mp hsome
  have hrun : GuardedRun (HttpHandler.next rowDb []) OneLoop {}
      [.received getDb.bytes, .completed 0] handler :=
    .cons (.inl rfl) rfl (.cons trivial hcomplete (.nil handler))
  have hbytes : receivedBytes [.received getDb.bytes, .completed 0] <+:
      [getDb, getJson].flatMap Request.bytes := by
    simp [receivedBytes]
  exact ⟨handler, hcomplete, responses_in_order hrun hbytes fun _ _ => rfl⟩

/-- The second request arrives while the database call of the first is suspended, and is answered before
it. -/
theorem responses_out_of_order : ∃ handler,
    exec (HttpHandler.next rowDb []) {}
      [.received getDb.bytes, .received getJson.bytes, .completed 0] = some handler ∧
    handler.written = json [] ++ db rowDb [] 0 ∧
    ¬InOrder rowDb [] [getDb, getJson] (getDb.bytes ++ getJson.bytes) handler := by
  have hreached : (exec (HttpHandler.next rowDb []) {}
      [.received getDb.bytes, .received getJson.bytes, .completed 0]).map
        (fun handler => (handler.suspended.length, handler.written)) =
      some (0, json [] ++ db rowDb [] 0) := by
    decide +kernel
  have hexpected : json [] ++ db rowDb [] 0 ≠ responses rowDb [] 0
      (completeRequests [getDb, getJson] (getDb.bytes ++ getJson.bytes)) := by
    decide +kernel
  obtain ⟨handler, hexec, hstate⟩ := Option.map_eq_some_iff.mp hreached
  obtain ⟨hsuspended, hwritten⟩ := Prod.mk.inj hstate
  refine ⟨handler, hexec, hwritten, ?_⟩
  rintro ⟨answered, waiting, hsplit, hanswered, hidle⟩
  rw [(hidle (List.eq_nil_of_length_eq_zero hsuspended)).1, List.append_nil] at hsplit
  rw [hwritten, ← hsplit] at hanswered
  exact hexpected hanswered

end FrameworkBenchmarks.BeetleX
