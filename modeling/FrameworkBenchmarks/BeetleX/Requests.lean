import FrameworkBenchmarks.BeetleX.HttpHandler

/-!
# Requests on a beetlex connection

The requests of a stream are queued once their last line is there, however the stream is split over the
calls of `Receive`.
-/

namespace FrameworkBenchmarks.BeetleX

open Common

/-! ### Requests -/

/-- A request without body. -/
structure Request where
  method : List UInt8
  url : List UInt8
  version : List UInt8
  headers : List (List UInt8)
  method_space : 32 ∉ method
  url_space : 32 ∉ url
  firstLine_lineEnd : ¬lineEnd <:+: method ++ 32 :: (url ++ 32 :: version)
  headers_lines : ∀ header ∈ headers, header ≠ [] ∧ ¬lineEnd <:+: header

namespace Request

def firstLine (request : Request) : List UInt8 :=
  request.method ++ 32 :: (request.url ++ 32 :: request.version)

def lines (request : Request) : List (List UInt8) := request.firstLine :: (request.headers ++ [[]])

def bytes (request : Request) : List UInt8 := request.lines.flatMap fun line => line ++ lineEnd

/-- What is queued for a request. -/
def data (request : Request) : RequestData :=
  ⟨some (analysisUrl request.url).1, (analysisUrl request.url).2⟩

end Request

/-- The requests of a stream that are complete in what has been received of it. -/
def completeRequests : List Request → List UInt8 → List Request
  | [], _ => []
  | request :: requests, received =>
    if request.bytes.isPrefixOf received then
      request :: completeRequests requests (received.drop request.bytes.length)
    else []

theorem positionOf_append {value : UInt8} {a : List UInt8} (h : value ∉ a) (b : List UInt8) :
    positionOf (a ++ value :: b) value = some a.length := by
  rw [positionOf, List.findIdx?_append, List.findIdx?_eq_none_iff.mpr]
  · simp [List.findIdx?_cons]
  · intro c hc
    exact decide_eq_false fun heq => h (heq ▸ hc)

/-- The url is what stands between the first two spaces. -/
theorem analysisAction_firstLine (request : Request) :
    analysisAction (request.firstLine ++ lineEnd) = some (analysisUrl request.url) := by
  have hline : request.firstLine ++ lineEnd =
      request.method ++ 32 :: (request.url ++ 32 :: (request.version ++ lineEnd)) := by
    simp [Request.firstLine]
  have hrest : (request.firstLine ++ lineEnd).drop (request.method.length + 1) =
      request.url ++ 32 :: (request.version ++ lineEnd) := by
    rw [hline, ← List.drop_drop, List.drop_left]
    rfl
  have hfirst : positionOf (request.firstLine ++ lineEnd) 32 = some request.method.length := by
    rw [hline]
    exact positionOf_append request.method_space _
  unfold analysisAction
  simp only [hfirst, Option.bind_some, hrest, positionOf_append request.url_space, Option.map_some,
    List.take_left]

/-! ### Lines -/

/-- What a line does to the request that is read and to the queue. -/
def onLine (state : Option RequestData × List (Option RequestData)) (line : List UInt8) :
    Option (Option RequestData × List (Option RequestData)) :=
  if line = [] then some (none, state.2 ++ [state.1])
  else if (state.1.getD {}).action = none then
    (analysisAction (line ++ lineEnd)).map fun target => (some ⟨some target.1, target.2⟩, state.2)
  else some (some (state.1.getD {}), state.2)

/-- What is queued already makes no difference. -/
theorem foldlM_onLine_append (ls : List (List UInt8)) (readRequest : Option RequestData)
    (queue more : List (Option RequestData)) :
    ls.foldlM onLine (readRequest, queue ++ more) =
      (ls.foldlM onLine (readRequest, more)).map fun state => (state.1, queue ++ state.2) := by
  induction ls generalizing readRequest more with
  | nil => rfl
  | cons line ls ih =>
    rw [List.foldlM_cons, List.foldlM_cons]
    unfold onLine
    by_cases hempty : line = []
    · simp only [if_pos hempty, Option.bind_eq_bind, Option.bind_some, List.append_assoc]
      exact ih none (more ++ [readRequest])
    · by_cases haction : (readRequest.getD {}).action = none
      · simp only [if_neg hempty, if_pos haction]
        cases analysisAction (line ++ lineEnd) with
        | none => rfl
        | some target => exact ih _ more
      · simp only [if_neg hempty, if_neg haction]
        exact ih _ more

/-- Without an empty line nothing is queued. -/
theorem foldlM_onLine_of_ne_nil {ls : List (List UInt8)} (h : [] ∉ ls)
    {state state' : Option RequestData × List (Option RequestData)}
    (hfold : ls.foldlM onLine state = some state') : state'.2 = state.2 := by
  induction ls generalizing state with
  | nil =>
    obtain rfl : state = state' := Option.some.inj hfold
    rfl
  | cons line ls ih =>
    rw [List.mem_cons, not_or] at h
    rw [List.foldlM_cons] at hfold
    obtain ⟨middle, hline, hfold⟩ := Option.bind_eq_some_iff.mp hfold
    rw [ih h.2 hfold]
    rw [onLine, if_neg (Ne.symm h.1)] at hline
    by_cases haction : (state.1.getD {}).action = none
    · rw [if_pos haction] at hline
      obtain ⟨target, _, rfl⟩ := Option.map_eq_some_iff.mp hline
      rfl
    · rw [if_neg haction] at hline
      obtain rfl := Option.some.inj hline
      rfl

/-- Further header lines change nothing. -/
theorem foldlM_onLine_headers (request : Request) {headers : List (List UInt8)}
    (h : [] ∉ headers) (queue : List (Option RequestData)) :
    headers.foldlM onLine (some request.data, queue) = some (some request.data, queue) := by
  induction headers with
  | nil => rfl
  | cons header headers ih =>
    rw [List.mem_cons, not_or] at h
    have hline : onLine (some request.data, queue) header = some (some request.data, queue) := by
      rw [onLine, if_neg (Ne.symm h.1), if_neg]
      · rfl
      · simp [Request.data]
    rw [List.foldlM_cons, hline]
    exact ih h.2

theorem onLine_firstLine (request : Request) (queue : List (Option RequestData)) :
    onLine (none, queue) request.firstLine = some (some request.data, queue) := by
  have hne : request.firstLine ≠ [] := by simp [Request.firstLine]
  have haction : ((none : Option RequestData).getD {}).action = none := rfl
  rw [onLine, if_neg hne, if_pos haction, analysisAction_firstLine]
  rfl

theorem nil_not_mem_headers (request : Request) : [] ∉ request.headers := fun h =>
  (request.headers_lines [] h).1 rfl

/-- All lines of a request queue it. -/
theorem foldlM_onLine_lines (request : Request) (queue : List (Option RequestData)) :
    request.lines.foldlM onLine (none, queue) = some (none, queue ++ [some request.data]) := by
  rw [Request.lines, List.foldlM_cons, onLine_firstLine]
  simp only [Option.bind_eq_bind, Option.bind_some, List.foldlM_append,
    foldlM_onLine_headers request (nil_not_mem_headers request)]
  rfl

theorem splitLine_lines (request : Request) :
    ∀ line ∈ request.lines, ∀ t, lines.next (lines.text line ++ t) = some (line, t) := by
  intro line hline t
  have hlineEnd : ¬lineEnd <:+: line := by
    rw [Request.lines, List.mem_cons, List.mem_append, List.mem_singleton] at hline
    obtain rfl | hheader | rfl := hline
    · exact request.firstLine_lineEnd
    · exact (request.headers_lines line hheader).2
    · decide
  have htext : lines.text line ++ t = line ++ (lineEnd ++ t) := List.append_assoc _ _ _
  rw [htext]
  exact splitLine_line hlineEnd t

theorem frames_bytes (request : Request) (t : List UInt8) :
    lines.frames (request.bytes ++ t) = (request.lines ++ (lines.frames t).1, (lines.frames t).2) :=
  Framer.frames_flatMap (splitLine_lines request) t

/-- Of an incomplete request nothing is queued. -/
theorem foldlM_onLine_incomplete {request : Request} {received : List UInt8}
    (h : received <+: request.bytes) (hne : received ≠ request.bytes) :
    ∃ readRequest, (lines.frames received).1.foldlM onLine (none, []) = some (readRequest, []) := by
  have hempty : lines.frames [] = ([], []) := Framer.frames_of_none rfl
  have hframes := frames_bytes request []
  rw [List.append_nil, hempty, List.append_nil] at hframes
  have hbegin := Framer.frames_isPrefix lines h
  have hsplit := Framer.flatMap_frames lines received
  rw [hframes, Request.lines, ← List.cons_append, List.prefix_concat_iff] at hbegin
  cases hbegin with
  | inl hall =>
    have hlonger : request.bytes <+: received := by
      rw [← hsplit, hall]
      exact List.prefix_append _ _
    exact absurd (h.eq_of_length_le hlonger.length_le) hne
  | inr hsome =>
    cases hlines : (lines.frames received).1 with
    | nil => exact ⟨none, rfl⟩
    | cons line ls =>
      rw [hlines, List.cons_prefix_cons] at hsome
      obtain ⟨rfl, hheaders⟩ := hsome
      refine ⟨some request.data, ?_⟩
      rw [List.foldlM_cons, onLine_firstLine]
      apply foldlM_onLine_headers
      exact fun hmem => nil_not_mem_headers request (hheaders.subset hmem)

/-- The complete requests of what has been received are queued. -/
theorem foldlM_onLine_frames {requests : List Request} {received : List UInt8}
    (h : received <+: requests.flatMap Request.bytes) :
    ∃ readRequest, (lines.frames received).1.foldlM onLine (none, []) =
      some (readRequest, (completeRequests requests received).map fun request => some request.data) := by
  induction requests generalizing received with
  | nil =>
    obtain rfl : received = [] := List.prefix_nil.mp h
    refine ⟨none, ?_⟩
    rw [Framer.frames_of_none (F := lines) rfl]
    rfl
  | cons request requests ih =>
    rw [completeRequests]
    rw [List.flatMap_cons] at h
    by_cases hcomplete : request.bytes <+: received
    · obtain ⟨rest, rfl⟩ := hcomplete
      obtain ⟨readRequest, hrest⟩ := ih (List.prefix_append_right_inj _ |>.mp h)
      refine ⟨readRequest, ?_⟩
      have hqueue := foldlM_onLine_append (lines.frames rest).1 none [some request.data] []
      rw [List.append_nil] at hqueue
      rw [if_pos (by simp), frames_bytes, List.foldlM_append, foldlM_onLine_lines]
      simp only [Option.bind_eq_bind, Option.bind_some, List.nil_append, hqueue, hrest,
        Option.map_some, List.drop_left, List.map_cons, List.singleton_append]
    · rw [if_neg (by simpa using hcomplete)]
      have hshorter : received <+: request.bytes := by
        cases List.prefix_or_prefix_of_prefix h (List.prefix_append request.bytes _) with
        | inl h => exact h
        | inr h => exact absurd h hcomplete
      apply foldlM_onLine_incomplete hshorter
      rintro rfl
      exact hcomplete (List.prefix_refl _)

/-- More bytes complete more requests. -/
theorem completeRequests_append (requests : List Request) (received more : List UInt8) :
    completeRequests requests received <+: completeRequests requests (received ++ more) := by
  induction requests generalizing received with
  | nil => exact List.prefix_refl _
  | cons request requests ih =>
    rw [completeRequests, completeRequests]
    by_cases hcomplete : request.bytes <+: received
    · obtain ⟨rest, rfl⟩ := hcomplete
      rw [if_pos (by simp), if_pos (by simp), List.drop_left, List.append_assoc, List.drop_left,
        List.cons_prefix_cons]
      exact ⟨rfl, ih rest⟩
    · rw [if_neg (by simpa using hcomplete)]
      exact List.nil_prefix

/-! ### Reading -/

namespace HttpHandler

theorem indexOfLine_eq (unread : List UInt8) :
    indexOfLine unread = (splitLine unread).map fun split => split.1.length + 2 := by
  cases hfind : find unread lineEnd with
  | none => rw [indexOfLine, splitLine_eq_find, hfind, Option.map_none, Option.map_none, Option.map_none]
  | some i =>
    have hsplit : splitLine unread = some (unread.take i, unread.drop (i + 2)) := by
      rw [splitLine_eq_find, hfind, Option.map_some]
    have hlength := congrArg List.length (splitLine_eq_append hsplit)
    simp only [List.length_append, List.length_take, List.length_drop, List.length_cons,
      List.length_nil] at hlength
    simp only [indexOfLine, hfind, hsplit, Option.map_some, List.length_take, Option.some.injEq]
    omega

/-- The loop of `Receive` handles the complete lines. -/
theorem readLines_eq {fuel : ℕ} (handler : HttpHandler) (hfuel : handler.unread.length < fuel)
    {readRequest : Option RequestData} {queue : List (Option RequestData)}
    (h : (lines.frames handler.unread).1.foldlM onLine (handler.readRequest, handler.requests) =
      some (readRequest, queue)) :
    handler.readLines fuel = .ok { handler with
      unread := (lines.frames handler.unread).2
      readRequest := readRequest
      requests := queue } := by
  induction fuel generalizing handler with
  | zero => omega
  | succ fuel ih =>
    rw [readLines, indexOfLine_eq]
    cases hline : splitLine handler.unread with
    | none =>
      rw [Framer.frames_of_none (F := lines) hline] at h ⊢
      obtain ⟨rfl, rfl⟩ := Prod.mk.inj (Option.some.inj h)
      rfl
    | some split =>
      obtain ⟨line, rest⟩ := split
      have hunread : handler.unread = line ++ lineEnd ++ rest := splitLine_eq_append hline
      have htake : handler.unread.take (line.length + 2) = line ++ lineEnd := by
        rw [hunread]
        exact List.take_left' (by simp)
      have hdrop : handler.unread.drop (line.length + 2) = rest := by
        rw [hunread]
        exact List.drop_left' (by simp)
      have hlength : (line ++ lineEnd).length = 2 ↔ line = [] := by
        simp
      have hshorter : rest.length < fuel := by
        have := lines.length_lt hline
        omega
      rw [Framer.frames_of_some (F := lines) hline, List.foldlM_cons] at h
      obtain ⟨middle, hfirst, h⟩ := Option.bind_eq_some_iff.mp h
      rw [Framer.frames_of_some (F := lines) hline]
      simp only [Option.map_some, htake, hdrop, hlength]
      unfold onLine at hfirst
      by_cases hempty : line = []
      · rw [if_pos hempty] at hfirst ⊢
        obtain rfl := Option.some.inj hfirst
        exact ih _ hshorter h
      · rw [if_neg hempty] at hfirst ⊢
        by_cases haction : (handler.readRequest.getD {}).action = none
        · simp only [if_pos haction] at hfirst ⊢
          obtain ⟨target, htarget, rfl⟩ := Option.map_eq_some_iff.mp hfirst
          simp only [htarget]
          exact ih _ hshorter h
        · simp only [if_neg haction] at hfirst ⊢
          obtain rfl := Option.some.inj hfirst
          exact ih _ hshorter h

end HttpHandler

end FrameworkBenchmarks.BeetleX
