import FrameworkBenchmarks.Userver.Readings

/-!
# Answers under every segmentation

A failure loses the responses that are buffered when it is found. Over every segmentation the responses of
the requests in front of the first failure are sent, exactly when each of these requests ends a whole
buffer before the failure, and has a value for the parameter that is read from its url.
-/

namespace FrameworkBenchmarks.Userver

open Common

/-! ### Urls -/

/-- One of the handlers is found for the url. -/
def routable (url : List UInt8) : Bool :=
  [kPlainTextUrlPrefix, kJsonUrlPrefix, kSingleQueryUrlPrefix, kMultipleQueriesUrlPrefix,
    kUpdatesUrlPrefix, kCachedQueriesUrlPrefix, kFortunesUrlPrefix].any (startsWith url)

/-- The handlers that read a parameter, and its name. -/
def parameters : List (List UInt8 × List UInt8) :=
  [(kMultipleQueriesUrlPrefix, ascii "queries"), (kUpdatesUrlPrefix, ascii "queries"),
    (kCachedQueriesUrlPrefix, ascii "count")]

/-- The name of the parameter is first found at the very end of the url. -/
def LacksValue (url : List UInt8) : Prop :=
  ∃ parameter ∈ parameters, startsWith url parameter.1 = true ∧
    ∃ pos, find (url.drop parameter.1.length) parameter.2 = some pos ∧
      (url.drop parameter.1.length).length ≤ pos + parameter.2.length

theorem startsWith_unique {url first second : List UInt8} (hfirst : startsWith url first = true)
    (hsecond : startsWith url second = true) (hlength : 1 < first.length ∧ 1 < second.length) :
    first[1]? = second[1]? := by
  rw [← eq_of_beq hfirst, ← eq_of_beq hsecond]
  simp [hlength]

theorem not_lacksValue {url pattern : List UInt8} (hstart : startsWith url pattern = true)
    (hpattern : 1 < pattern.length ∧ ∀ parameter ∈ parameters, pattern[1]? ≠ parameter.1[1]?) :
    ¬LacksValue url := by
  rintro ⟨parameter, hmem, hparameter, _⟩
  have hlength : 1 < parameter.1.length := by
    have hall : ∀ parameter ∈ parameters, 1 < parameter.1.length := by decide
    exact hall parameter hmem
  exact hpattern.2 parameter hmem (startsWith_unique hstart hparameter ⟨hpattern.1, hlength⟩)

theorem lacksValue_iff {url : List UInt8} (parameter : List UInt8 × List UInt8)
    (hmem : parameter ∈ parameters) (hstart : startsWith url parameter.1 = true) :
    LacksValue url ↔ ∃ pos, find (url.drop parameter.1.length) parameter.2 = some pos ∧
      (url.drop parameter.1.length).length ≤ pos + parameter.2.length := by
  constructor
  · rintro ⟨other, hother, hstart', hend⟩
    have hlengths : ∀ parameter ∈ parameters, 1 < parameter.1.length := by decide
    have hunique : ∀ first ∈ parameters, ∀ second ∈ parameters,
        first.1[1]? = second.1[1]? → first = second := by decide
    have hsame := startsWith_unique hstart hstart' ⟨hlengths _ hmem, hlengths _ hother⟩
    rwa [hunique _ hmem _ hother hsame]
  · exact fun h => ⟨parameter, hmem, hstart, h⟩

theorem parseParamFromQuery_isOk_iff {α : Type} {url name : List UInt8} (f : ℕ → α) :
    ((parseParamFromQuery url name).map f).isOk = true ↔
      ¬∃ pos, find url name = some pos ∧ url.length ≤ pos + name.length := by
  unfold parseParamFromQuery
  cases hfind : find url name with
  | none => simp [Except.map, Except.isOk, Except.toBool]
  | some pos =>
    by_cases hlength : url.length < pos + name.length + 1
    · simp only [if_pos hlength, Option.some.injEq, exists_eq_left', Nat.le_of_lt_succ hlength]
      simp [Except.map, Except.isOk, Except.toBool]
    · simp only [if_neg hlength, Option.some.injEq, exists_eq_left']
      simp only [Except.map, Except.isOk, Except.toBool, true_iff]
      omega

theorem routable_of_startsWith {url pattern : List UInt8} (hstart : startsWith url pattern = true)
    (hmem : pattern ∈ [kPlainTextUrlPrefix, kJsonUrlPrefix, kSingleQueryUrlPrefix,
      kMultipleQueriesUrlPrefix, kUpdatesUrlPrefix, kCachedQueriesUrlPrefix, kFortunesUrlPrefix]) :
    routable url = true :=
  List.any_eq_true.mpr ⟨pattern, hmem, hstart⟩

/-- An answer is found when there is a handler and its parameter has a value. -/
theorem routeRequest_isOk_iff (handlers : Handlers) (url : List UInt8) :
    (routeRequest handlers url).isOk = true ↔ routable url = true ∧ ¬LacksValue url := by
  unfold routeRequest
  by_cases hplain : startsWith url kPlainTextUrlPrefix = true
  · rw [if_pos hplain]
    exact iff_of_true rfl ⟨routable_of_startsWith hplain (by decide), not_lacksValue hplain (by decide)⟩
  rw [if_neg hplain]
  by_cases hjson : startsWith url kJsonUrlPrefix = true
  · rw [if_pos hjson]
    exact iff_of_true rfl ⟨routable_of_startsWith hjson (by decide), not_lacksValue hjson (by decide)⟩
  rw [if_neg hjson]
  by_cases hsingle : startsWith url kSingleQueryUrlPrefix = true
  · rw [if_pos hsingle]
    exact iff_of_true rfl
      ⟨routable_of_startsWith hsingle (by decide), not_lacksValue hsingle (by decide)⟩
  rw [if_neg hsingle]
  by_cases hmultiple : startsWith url kMultipleQueriesUrlPrefix = true
  · rw [if_pos hmultiple, parseParamFromQuery_isOk_iff]
    have hlacks := lacksValue_iff (kMultipleQueriesUrlPrefix, ascii "queries")
      (by decide) hmultiple
    rw [← hlacks, routable_of_startsWith hmultiple (by decide)]
    simp
  rw [if_neg hmultiple]
  by_cases hupdates : startsWith url kUpdatesUrlPrefix = true
  · rw [if_pos hupdates, parseParamFromQuery_isOk_iff]
    have hlacks := lacksValue_iff (kUpdatesUrlPrefix, ascii "queries")
      (by decide) hupdates
    have hlength : kUpdatesUrlPrefix.length = kMultipleQueriesUrlPrefix.length := by decide
    rw [hlength] at hlacks
    rw [← hlacks, routable_of_startsWith hupdates (by decide)]
    simp
  rw [if_neg hupdates]
  by_cases hcached : startsWith url kCachedQueriesUrlPrefix = true
  · rw [if_pos hcached, parseParamFromQuery_isOk_iff]
    have hlacks := lacksValue_iff (kCachedQueriesUrlPrefix, ascii "count")
      (by decide) hcached
    rw [← hlacks, routable_of_startsWith hcached (by decide)]
    simp
  rw [if_neg hcached]
  by_cases hfortunes : startsWith url kFortunesUrlPrefix = true
  · rw [if_pos hfortunes]
    exact iff_of_true rfl
      ⟨routable_of_startsWith hfortunes (by decide), not_lacksValue hfortunes (by decide)⟩
  · have hnone : routable url = false := by
      simp [routable, hplain, hjson, hsingle, hmultiple, hupdates, hcached, hfortunes]
    rw [if_neg hfortunes, hnone]
    simp [Except.isOk, Except.toBool]

/-! ### Buffers -/

/-- The response to a url. -/
def answer (handlers : Handlers) (date url : List UInt8) : Option (List UInt8) :=
  match routeRequest handlers url with
  | .error _ => none
  | .ok response => some (responseHeaders date response ++ response.body)

/-- An answer is found. -/
def answerable (handlers : Handlers) (url : List UInt8) : Bool := (routeRequest handlers url).isOk

/-- The responses to some urls. -/
def answers (handlers : Handlers) (date : List UInt8) (urls : List (List UInt8)) : List UInt8 :=
  urls.flatMap fun url => (answer handlers date url).getD []

/-- The bytes that are buffered. -/
def ResponseBuffers.pending (buffers : ResponseBuffers) : List UInt8 :=
  buffers.responses.flatMap Response.bytes

/-- The bytes that have been sent or are buffered. -/
def ResponseBuffers.all (buffers : ResponseBuffers) : List UInt8 := buffers.sent ++ buffers.pending

/-- The buffers after some urls have been answered. -/
structure Answered (handlers : Handlers) (date : List UInt8) (urls : List (List UInt8))
    (buffers buffers' : ResponseBuffers) : Prop where
  all_eq : buffers'.all = buffers.all ++ answers handlers date urls
  pending_iff : buffers'.pending = [] ↔ buffers.pending = [] ∧ urls = []

section

variable {handlers : Handlers} {date : List UInt8}

theorem Answered.refl (buffers : ResponseBuffers) : Answered handlers date [] buffers buffers := by
  constructor
  · simp [answers]
  · simp

theorem Answered.trans {urls urls' : List (List UInt8)} {b b' b'' : ResponseBuffers}
    (h : Answered handlers date urls b b') (h' : Answered handlers date urls' b' b'') :
    Answered handlers date (urls ++ urls') b b'' := by
  constructor
  · rw [h'.all_eq, h.all_eq, answers, answers, answers, List.flatMap_append, List.append_assoc]
  · rw [h'.pending_iff, h.pending_iff, List.append_eq_nil_iff, and_assoc]

@[simp] theorem ResponseBuffers.all_send (buffers : ResponseBuffers) : buffers.send.all = buffers.all := by
  simp [ResponseBuffers.send, ResponseBuffers.all, ResponseBuffers.pending]

theorem ResponseBuffers.all_next (buffers : ResponseBuffers) (response : Response) :
    (buffers.next response).all = buffers.all ++ response.bytes := by
  unfold ResponseBuffers.next
  by_cases hfull : buffers.responses.length = kMaxResponses
  · simp [if_pos hfull, ResponseBuffers.send, ResponseBuffers.all, ResponseBuffers.pending]
  · simp [if_neg hfull, ResponseBuffers.all, ResponseBuffers.pending]

theorem ResponseBuffers.pending_next {response : Response} (h : response.bytes ≠ [])
    (buffers : ResponseBuffers) : (buffers.next response).pending ≠ [] := by
  simp [ResponseBuffers.next, ResponseBuffers.pending, h]

theorem responseHeaders_ne_nil (date : List UInt8) (response : SimpleResponse) :
    responseHeaders date response ≠ [] := by
  have hcommon : kCommonHeaders ≠ [] := by decide
  simp [responseHeaders, hcommon]

theorem handleRequest_of_answerable (date : List UInt8) {url : List UInt8}
    (h : answerable handlers url = true) (buffers : ResponseBuffers) :
    ∃ buffers', handleRequest handlers date buffers url = .ok buffers' ∧
      Answered handlers date [url] buffers buffers' := by
  cases hroute : routeRequest handlers url with
  | error e =>
    rw [answerable, hroute] at h
    cases h
  | ok response =>
    refine ⟨buffers.next ⟨responseHeaders date response, response.body⟩, ?_, ?_, ?_⟩
    · rw [handleRequest, hroute]
    · rw [ResponseBuffers.all_next]
      simp [answers, answer, hroute, Response.bytes]
    · have hbytes : Response.bytes ⟨responseHeaders date response, response.body⟩ ≠ [] := by
        simp [Response.bytes, responseHeaders_ne_nil]
      simp [ResponseBuffers.pending_next hbytes]

theorem handleRequest_of_not_answerable {url : List UInt8} (h : answerable handlers url = false)
    (buffers : ResponseBuffers) : handleRequest handlers date buffers url = .error buffers := by
  cases hroute : routeRequest handlers url with
  | error e => rw [handleRequest, hroute]
  | ok response =>
    rw [answerable, hroute] at h
    cases h

/-- Urls that can all be answered. -/
theorem handleRequests_ok (date : List UInt8) {urls : List (List UInt8)} (h : ∀ url ∈ urls, answerable handlers url = true)
    (buffers : ResponseBuffers) :
    ∃ buffers', urls.foldlM (handleRequest handlers date) buffers = .ok buffers' ∧
      Answered handlers date urls buffers buffers' := by
  induction urls generalizing buffers with
  | nil => exact ⟨buffers, rfl, Answered.refl buffers⟩
  | cons url urls ih =>
    obtain ⟨hurl, hrest⟩ := List.forall_mem_cons.mp h
    obtain ⟨middle, hfirst, hanswered⟩ := handleRequest_of_answerable date hurl buffers
    obtain ⟨buffers', hloop, hanswered'⟩ := ih hrest middle
    refine ⟨buffers', ?_, hanswered.trans hanswered'⟩
    rw [List.foldlM_cons, hfirst]
    exact hloop

/-- Urls of which one cannot be answered: the ones in front of it are. -/
theorem handleRequests_error (date : List UInt8) {urls : List (List UInt8)}
    (h : ∃ url ∈ urls, answerable handlers url = false) (buffers : ResponseBuffers) :
    ∃ buffers', urls.foldlM (handleRequest handlers date) buffers = .error buffers' ∧
      Answered handlers date (urls.takeWhile (answerable handlers)) buffers buffers' := by
  induction urls generalizing buffers with
  | nil =>
    obtain ⟨url, hmem, _⟩ := h
    cases hmem
  | cons url urls ih =>
    cases hurl : answerable handlers url with
    | false =>
      refine ⟨buffers, ?_, ?_⟩
      · rw [List.foldlM_cons, handleRequest_of_not_answerable hurl]
        rfl
      · rw [List.takeWhile_cons, hurl]
        exact Answered.refl buffers
    | true =>
      have hrest : ∃ url ∈ urls, answerable handlers url = false := by
        obtain ⟨refused, hmem, hrefused⟩ := h
        cases List.mem_cons.mp hmem with
        | inl heq =>
          rw [heq, hurl] at hrefused
          cases hrefused
        | inr hmem => exact ⟨refused, hmem, hrefused⟩
      obtain ⟨middle, hfirst, hanswered⟩ := handleRequest_of_answerable date hurl buffers
      obtain ⟨buffers', hloop, hanswered'⟩ := ih hrest middle
      refine ⟨buffers', ?_, ?_⟩
      · rw [List.foldlM_cons, hfirst]
        exact hloop
      · rw [List.takeWhile_cons, hurl]
        exact hanswered.trans hanswered'

variable {σ : Type} {llhttp : Llhttp σ}

/-- The calls of one byte answer the requests that it completes. -/
theorem onCallbacks_eq (callbacks : List Callback) (parser : HttpParser σ) (buffers : ResponseBuffers) :
    callbacks.foldlM (onCallback handlers date) (parser, buffers) =
      ((completedUrls parser.url callbacks).2.foldlM (handleRequest handlers date) buffers).map
        fun buffers => ({ parser with url := (completedUrls parser.url callbacks).1 }, buffers) := by
  induction callbacks generalizing parser buffers with
  | nil => rfl
  | cons callback callbacks ih =>
    rw [List.foldlM_cons]
    cases callback with
    | onMessageBegin => exact ih _ _
    | onUrl data => exact ih _ _
    | onMessageComplete =>
      simp only [onCallback, completedUrls, List.foldlM_cons]
      cases handleRequest handlers date buffers parser.url with
      | error buffers => rfl
      | ok buffers => exact ih _ _

theorem executeByte_eq (parser : HttpParser σ) (buffers : ResponseBuffers) (byte : UInt8) :
    executeByte llhttp handlers date (parser, buffers) byte =
      match (completedUrls parser.url (llhttp.execute parser.parser byte).1).2.foldlM
          (handleRequest handlers date) buffers with
      | .error buffers => .error buffers
      | .ok buffers =>
        match (llhttp.execute parser.parser byte).2 with
        | none => .error buffers
        | some next => .ok
            (⟨next, (completedUrls parser.url (llhttp.execute parser.parser byte).1).1⟩, buffers) := by
  simp only [executeByte, onCallbacks_eq]
  cases (completedUrls parser.url (llhttp.execute parser.parser byte).1).2.foldlM
    (handleRequest handlers date) buffers with
  | error buffers => rfl
  | ok buffers => rfl

theorem map_snd_mk (pos : ℕ) (urls : List (List UInt8)) :
    (urls.map (Prod.mk pos)).map Prod.snd = urls := by
  rw [List.map_map]
  exact List.map_id urls

variable {parser : HttpParser σ} {a : List UInt8} {pos : ℕ}

/-- A piece without a failure is answered. -/
theorem execute_ok (date : List UInt8)
    (h : (parser.read llhttp pos a).failure (answerable handlers) = none) (buffers : ResponseBuffers) :
    ∃ parser' buffers', parser.after llhttp a = some parser' ∧
      execute llhttp handlers date (parser, buffers) a = .ok (parser', buffers') ∧
      Answered handlers date ((parser.read llhttp pos a).requests.map Prod.snd) buffers buffers' := by
  induction a generalizing parser pos buffers with
  | nil => exact ⟨parser, buffers, rfl, rfl, Answered.refl buffers⟩
  | cons byte a ih =>
    obtain ⟨hall, herror⟩ := Reading.failure_eq_none_iff.mp h
    cases hnext : (llhttp.execute parser.parser byte).2 with
    | none => simp [HttpParser.read, hnext] at herror
    | some next =>
      simp only [HttpParser.read, hnext] at hall herror ⊢
      have hurls : ∀ url ∈ (completedUrls parser.url (llhttp.execute parser.parser byte).1).2,
          answerable handlers url = true := fun url hurl =>
        hall (pos, url) (List.mem_append_left _ (List.mem_map_of_mem hurl))
      obtain ⟨middle, hfirst, hanswered⟩ := handleRequests_ok date hurls buffers
      obtain ⟨parser', buffers', hafter, hexecute, hanswered'⟩ := ih (Reading.failure_eq_none_iff.mpr
        ⟨fun request hrequest => hall request (List.mem_append_right _ hrequest), herror⟩) middle
      refine ⟨parser', buffers', ?_, ?_, ?_⟩
      · rw [HttpParser.after, hnext]
        exact hafter
      · rw [execute, List.foldlM_cons, executeByte_eq, hfirst, hnext]
        exact hexecute
      · rw [List.map_append, map_snd_mk]
        exact hanswered.trans hanswered'

/-- In a piece with a failure the requests in front of it are answered. -/
theorem execute_error (date : List UInt8) {f : ℕ}
    (h : (parser.read llhttp pos a).failure (answerable handlers) = some f) (buffers : ResponseBuffers) :
    ∃ buffers', execute llhttp handlers date (parser, buffers) a = .error buffers' ∧
      Answered handlers date
        (((parser.read llhttp pos a).preceding (answerable handlers)).map Prod.snd) buffers buffers' := by
  induction a generalizing parser pos buffers with
  | nil => cases h
  | cons byte a ih =>
    have htake (urls : List (List UInt8)) :
        ((urls.map (Prod.mk pos)).takeWhile fun request => answerable handlers request.2).map Prod.snd =
          urls.takeWhile (answerable handlers) := by
      rw [List.takeWhile_map]
      simp [Function.comp_def]
    by_cases hall : ∀ url ∈ (completedUrls parser.url (llhttp.execute parser.parser byte).1).2,
        answerable handlers url = true
    · obtain ⟨middle, hfirst, hanswered⟩ := handleRequests_ok date hall buffers
      have hself := List.takeWhile_eq_self_iff.mpr hall
      cases hnext : (llhttp.execute parser.parser byte).2 with
      | none =>
        refine ⟨middle, ?_, ?_⟩
        · rw [execute, List.foldlM_cons, executeByte_eq, hfirst, hnext]
          rfl
        · simp only [HttpParser.read, hnext, Reading.preceding, htake, hself]
          exact hanswered
      | some next =>
        have hall' : ∀ request ∈ (completedUrls parser.url
            (llhttp.execute parser.parser byte).1).2.map (Prod.mk pos),
            answerable handlers request.2 = true := by
          intro request hrequest
          obtain ⟨url, hurl, rfl⟩ := List.mem_map.mp hrequest
          exact hall url hurl
        simp only [HttpParser.read, hnext] at h ⊢
        rw [(Reading.append_of_all hall').2] at h
        obtain ⟨buffers', hexecute, hanswered'⟩ := ih h middle
        refine ⟨buffers', ?_, ?_⟩
        · rw [execute, List.foldlM_cons, executeByte_eq, hfirst, hnext]
          exact hexecute
        · rw [(Reading.append_of_all hall').1, List.map_append]
          rw [map_snd_mk]
          exact hanswered.trans hanswered'
    · simp only [not_forall, Bool.not_eq_true] at hall
      obtain ⟨url, hurl, hrefused⟩ := hall
      obtain ⟨buffers', hfirst, hanswered⟩ := handleRequests_error date
        ⟨url, hurl, hrefused⟩ buffers
      refine ⟨buffers', ?_, ?_⟩
      · rw [execute, List.foldlM_cons, executeByte_eq, hfirst]
        rfl
      · have hmem : ∃ request ∈ (completedUrls parser.url
            (llhttp.execute parser.parser byte).1).2.map (Prod.mk pos),
            answerable handlers request.2 = false := ⟨(pos, url), List.mem_map_of_mem hurl, hrefused⟩
        cases hnext : (llhttp.execute parser.parser byte).2 with
        | none =>
          simp only [HttpParser.read, hnext, Reading.preceding, htake]
          exact hanswered
        | some next =>
          simp only [HttpParser.read, hnext]
          rw [(Reading.append_of_failure none hmem).1, Reading.preceding, htake]
          exact hanswered

/-! ### Pieces -/

/-- Whatever the pieces are, the requests in front of the first failure are answered. -/
theorem processFrom_all (llhttp : Llhttp σ) (handlers : Handlers) (date : List UInt8)
    (pieces : List (List UInt8)) (parser : HttpParser σ) (pos : ℕ)
    (buffers : ResponseBuffers) :
    (processFrom llhttp handlers date (parser, buffers) pieces).all = buffers.all ++ answers handlers date
      (((parser.read llhttp pos pieces.flatten).preceding (answerable handlers)).map Prod.snd) := by
  induction pieces generalizing parser pos buffers with
  | nil =>
    rw [processFrom]
    simp [HttpParser.read, Reading.preceding, answers]
  | cons data pieces ih =>
    rw [processFrom, List.flatten_cons]
    cases hfailure : (parser.read llhttp pos data).failure (answerable handlers) with
    | none =>
      obtain ⟨parser', buffers', hafter, hexecute, hanswered⟩ := execute_ok date hfailure buffers
      obtain ⟨next, hnext, hpreceding, _⟩ :=
        HttpParser.read_append_of_failure_none pieces.flatten hfailure
      obtain rfl : parser' = next := Option.some.inj (hafter.symm.trans hnext)
      simp only [hexecute]
      rw [ih parser' (pos + data.length), hpreceding, ResponseBuffers.all_send, hanswered.all_eq]
      simp only [answers, List.map_append, List.flatMap_append, List.append_assoc]
    | some f =>
      obtain ⟨buffers', hexecute, hanswered⟩ := execute_error date hfailure buffers
      simp only [hexecute]
      rw [hanswered.all_eq, (HttpParser.read_append_of_failure pieces.flatten hfailure).1]

/-- With a whole buffer between the answered requests and the failure, nothing is lost. -/
theorem processFrom_pending (date : List UInt8) {pieces : List (List UInt8)}
    (hpieces : ∀ data ∈ pieces, IsPiece data) (parser : HttpParser σ) (pos : ℕ) (buffers : ResponseBuffers)
    (hempty : buffers.pending = [])
    (h : ∀ f, (parser.read llhttp pos pieces.flatten).failure (answerable handlers) = some f →
      ∀ request ∈ (parser.read llhttp pos pieces.flatten).preceding (answerable handlers),
        request.1 + kBufferSize ≤ f) :
    (processFrom llhttp handlers date (parser, buffers) pieces).pending = [] := by
  induction pieces generalizing parser pos buffers with
  | nil => exact hempty
  | cons data pieces ih =>
    obtain ⟨hdata, hrest⟩ := List.forall_mem_cons.mp hpieces
    rw [processFrom]
    rw [List.flatten_cons] at h
    cases hfailure : (parser.read llhttp pos data).failure (answerable handlers) with
    | none =>
      obtain ⟨parser', buffers', hafter, hexecute, _⟩ := execute_ok date hfailure buffers
      obtain ⟨next, hnext, hpreceding, hsame⟩ :=
        HttpParser.read_append_of_failure_none pieces.flatten hfailure
      obtain rfl : parser' = next := Option.some.inj (hafter.symm.trans hnext)
      rw [hpreceding, hsame] at h
      simp only [hexecute]
      apply ih hrest parser' (pos + data.length) buffers'.send rfl
      exact fun f hf request hrequest => h f hf request (List.mem_append_right _ hrequest)
    | some f =>
      obtain ⟨buffers', hexecute, hanswered⟩ := execute_error date hfailure buffers
      obtain ⟨hpreceding, hsame⟩ := HttpParser.read_append_of_failure pieces.flatten hfailure
      rw [hpreceding, hsame] at h
      simp only [hexecute]
      apply hanswered.pending_iff.mpr
      refine ⟨hempty, ?_⟩
      -- the piece is shorter than the distance between an answered request and the failure
      cases hlist : (parser.read llhttp pos data).preceding (answerable handlers) with
      | nil => rfl
      | cons request rest =>
        have hmem : request ∈ (parser.read llhttp pos data).preceding (answerable handlers) := by
          rw [hlist]
          exact List.mem_cons_self
        have hfar := h f rfl request hmem
        have hstart := (HttpParser.read_bounds llhttp parser pos data).1 request
          (List.takeWhile_subset _ hmem)
        have hend := HttpParser.failure_bounds hfailure
        have hlength := hdata.2
        omega

theorem isPiece_singleton (byte : UInt8) : IsPiece [byte] := by
  constructor
  · exact List.cons_ne_nil byte []
  · rw [List.length_singleton]
    decide

/-- The bytes of a stream one by one. -/
theorem flatten_singletons (s : List UInt8) : (s.map fun byte => [byte]).flatten = s ∧
    ∀ data ∈ s.map fun byte => [byte], IsPiece data := by
  constructor
  · rw [← List.flatMap_def]
    exact List.flatMap_singleton' s
  · intro data hdata
    obtain ⟨byte, _, rfl⟩ := List.mem_map.mp hdata
    exact isPiece_singleton byte

/-- With less than a buffer between an answered request and the failure, one piece has both. -/
theorem exists_pending (date : List UInt8) {s : List UInt8} {f : ℕ} {request : ℕ × List UInt8}
    (hfailure : (parser.read llhttp pos s).failure (answerable handlers) = some f)
    (hrequest : request ∈ (parser.read llhttp pos s).preceding (answerable handlers))
    (hnear : f < request.1 + kBufferSize) (buffers : ResponseBuffers) :
    ∃ pieces : List (List UInt8), pieces.flatten = s ∧ (∀ data ∈ pieces, IsPiece data) ∧
      (processFrom llhttp handlers date (parser, buffers) pieces).pending ≠ [] := by
  induction s generalizing parser pos buffers with
  | nil => cases hfailure
  | cons byte s ih =>
    have hbounds := (HttpParser.read_bounds llhttp parser pos (byte :: s)).1 request
      (List.takeWhile_subset _ hrequest)
    by_cases hhere : request.1 = pos
    · have hend := HttpParser.failure_bounds hfailure
      let data := (byte :: s).take (f + 1 - pos)
      let rest := (byte :: s).drop (f + 1 - pos)
      have hsplit : data ++ rest = byte :: s := List.take_append_drop _ _
      have hlength : data.length = f + 1 - pos := by
        rw [List.length_take]
        omega
      rw [← hsplit] at hfailure hrequest
      cases hpiece : (parser.read llhttp pos data).failure (answerable handlers) with
      | none =>
        obtain ⟨next, _, _, hsame⟩ := HttpParser.read_append_of_failure_none rest hpiece
        rw [hsame] at hfailure
        have := HttpParser.failure_bounds hfailure
        omega
      | some f' =>
        rw [(HttpParser.read_append_of_failure rest hpiece).1] at hrequest
        obtain ⟨buffers', hexecute, hanswered⟩ := execute_error date hpiece buffers
        obtain ⟨hflatten, hpieces⟩ := flatten_singletons rest
        refine ⟨data :: rest.map fun byte => [byte], ?_, ?_, ?_⟩
        · rw [List.flatten_cons, hflatten, hsplit]
        · refine List.forall_mem_cons.mpr ⟨⟨?_, ?_⟩, hpieces⟩
          · apply List.ne_nil_of_length_pos
            omega
          · rw [hlength]
            omega
        · rw [processFrom]
          simp only [hexecute]
          intro hnil
          have hurls := (hanswered.pending_iff.mp hnil).2
          rw [List.map_eq_nil_iff.mp hurls] at hrequest
          cases hrequest
    · have hsplit : byte :: s = [byte] ++ s := rfl
      rw [hsplit] at hfailure hrequest
      cases hpiece : (parser.read llhttp pos [byte]).failure (answerable handlers) with
      | some f' =>
        rw [(HttpParser.read_append_of_failure s hpiece).1] at hrequest
        have := (HttpParser.read_bounds llhttp parser pos [byte]).1 request
          (List.takeWhile_subset _ hrequest)
        rw [List.length_singleton] at this
        omega
      | none =>
        obtain ⟨hall, _⟩ := Reading.failure_eq_none_iff.mp hpiece
        obtain ⟨next, hnext, hpreceding, hsame⟩ := HttpParser.read_append_of_failure_none s hpiece
        obtain ⟨parser', buffers', hafter, hexecute, _⟩ := execute_ok date hpiece buffers
        obtain rfl : parser' = next := Option.some.inj (hafter.symm.trans hnext)
        rw [hsame] at hfailure
        rw [hpreceding] at hrequest
        cases List.mem_append.mp hrequest with
        | inl hfirst =>
          have := (HttpParser.read_bounds llhttp parser pos [byte]).1 request hfirst
          rw [List.length_singleton] at this
          omega
        | inr hrequest =>
          obtain ⟨pieces, hflatten, hpieces, hpending⟩ := ih hfailure hrequest buffers'.send
          refine ⟨[byte] :: pieces, ?_, ?_, ?_⟩
          · rw [List.flatten_cons, hflatten, hsplit]
          · exact List.forall_mem_cons.mpr ⟨isPiece_singleton byte, hpieces⟩
          · rw [processFrom]
            simp only [hexecute]
            exact hpending

/-! ### Answers -/

/-- The responses to the requests in front of the first error or url without handler. -/
def expected (handlers : Handlers) (date : List UInt8) (reading : Reading) : Option (List UInt8) :=
  ((reading.preceding routable).mapM fun request => answer handlers date request.2).map List.flatten

theorem answer_of_answerable {url : List UInt8} (h : answerable handlers url = true) :
    answer handlers date url = some ((answer handlers date url).getD []) := by
  cases hroute : routeRequest handlers url with
  | error e =>
    rw [answerable, hroute] at h
    cases h
  | ok response => simp [answer, hroute]

theorem answerable_of_answer {url response : List UInt8} (h : answer handlers date url = some response) :
    answerable handlers url = true := by
  cases hroute : routeRequest handlers url with
  | error e =>
    rw [answer, hroute] at h
    cases h
  | ok response =>
    rw [answerable, hroute]
    rfl

theorem mapM_answer {requests : List (ℕ × List UInt8)}
    (h : ∀ request ∈ requests, answerable handlers request.2 = true) :
    (requests.mapM fun request => answer handlers date request.2) =
      some (requests.map fun request => (answer handlers date request.2).getD []) := by
  induction requests with
  | nil => rfl
  | cons request requests ih =>
    obtain ⟨hfirst, hrest⟩ := List.forall_mem_cons.mp h
    rw [List.mapM_cons, answer_of_answerable hfirst, ih hrest]
    rfl

theorem answerable_of_mapM {requests : List (ℕ × List UInt8)} {responses : List (List UInt8)}
    (h : (requests.mapM fun request => answer handlers date request.2) = some responses) :
    ∀ request ∈ requests, answerable handlers request.2 = true := by
  induction requests generalizing responses with
  | nil => simp
  | cons request requests ih =>
    rw [List.mapM_cons] at h
    obtain ⟨response, hfirst, h⟩ := Option.bind_eq_some_iff.mp h
    obtain ⟨rest, hrest, _⟩ := Option.bind_eq_some_iff.mp h
    exact List.forall_mem_cons.mpr ⟨answerable_of_answer hfirst, ih hrest⟩

/-- The responses are expected when each of the urls has one. -/
theorem expected_eq_some_iff {reading : Reading} {bytes : List UInt8} :
    expected handlers date reading = some bytes ↔
      (∀ request ∈ reading.preceding routable, answerable handlers request.2 = true) ∧
        bytes = answers handlers date ((reading.preceding routable).map Prod.snd) := by
  rw [expected]
  constructor
  · intro h
    obtain ⟨responses, hmapM, _⟩ := Option.map_eq_some_iff.mp h
    have hall := answerable_of_mapM hmapM
    rw [mapM_answer hall] at h
    refine ⟨hall, ?_⟩
    rw [← Option.some.inj h, answers, List.flatMap_map, List.flatMap_def]
  · rintro ⟨hall, rfl⟩
    rw [mapM_answer hall, Option.map_some, answers, List.flatMap_map, List.flatMap_def]

/-- If the requests in front of the first url without handler can all be answered, no request fails before
it. -/
theorem Reading.preceding_routable {reading : Reading}
    (h : ∀ request ∈ reading.preceding routable, answerable handlers request.2 = true) :
    reading.preceding (answerable handlers) = reading.preceding routable ∧
      reading.failure (answerable handlers) = reading.failure routable := by
  obtain ⟨requests, error⟩ := reading
  simp only [Reading.preceding, Reading.failure] at h ⊢
  induction requests with
  | nil => exact ⟨rfl, rfl⟩
  | cons request requests ih =>
    cases hroutable : routable request.2 with
    | false =>
      have hrefused : answerable handlers request.2 = false := by
        by_contra hanswerable
        rw [Bool.not_eq_false] at hanswerable
        rw [((routeRequest_isOk_iff handlers _).mp hanswerable).1] at hroutable
        cases hroutable
      simp [hroutable, hrefused]
    | true =>
      simp only [List.takeWhile_cons, hroutable, if_true, List.forall_mem_cons] at h
      obtain ⟨hpreceding, hfailure⟩ := ih h.2
      simp only [List.takeWhile_cons, List.dropWhile_cons, hroutable, h.1, if_true, hpreceding, hfailure,
        and_self]

end

/-- Over every segmentation of a stream the connection sends the responses to the requests in front of the
first error or url without handler, exactly when no url among them lacks the value of its parameter, and
each of them ends at least a buffer before the failure. -/
theorem process_correct_iff {σ : Type} (llhttp : Llhttp σ) (handlers : Handlers)
    (date s : List UInt8) :
    (∀ pieces : List (List UInt8), pieces.flatten = s → (∀ data ∈ pieces, IsPiece data) →
      expected handlers date (HttpParser.read llhttp ⟨llhttp.init, []⟩ 0 s) =
        some (process llhttp handlers date pieces)) ↔
      ∀ request ∈ (HttpParser.read llhttp ⟨llhttp.init, []⟩ 0 s).preceding routable,
        ¬LacksValue request.2 ∧
          ∀ f, (HttpParser.read llhttp ⟨llhttp.init, []⟩ 0 s).failure routable = some f →
            request.1 + kBufferSize ≤ f := by
  constructor
  · intro h
    obtain ⟨hflatten, hpieces⟩ := flatten_singletons s
    obtain ⟨hall, _⟩ := expected_eq_some_iff.mp (h _ hflatten hpieces)
    obtain ⟨hpreceding, hfailure⟩ := Reading.preceding_routable hall
    intro request hrequest
    refine ⟨((routeRequest_isOk_iff handlers _).mp (hall request hrequest)).2, ?_⟩
    intro f hf
    by_contra hnear
    rw [← hpreceding] at hrequest
    rw [← hfailure] at hf
    obtain ⟨pieces, hflatten, hpieces, hpending⟩ :=
      exists_pending date hf hrequest (Nat.lt_of_not_le hnear) {}
    obtain ⟨_, hsent⟩ := expected_eq_some_iff.mp (h pieces hflatten hpieces)
    have hall := processFrom_all llhttp handlers date pieces ⟨llhttp.init, []⟩ 0 {}
    rw [hflatten, hpreceding, ← hsent, process] at hall
    apply hpending
    simpa [ResponseBuffers.all, ResponseBuffers.pending] using hall
  · rintro h pieces rfl hpieces
    have hall : ∀ request ∈ (HttpParser.read llhttp ⟨llhttp.init, []⟩ 0 pieces.flatten).preceding routable,
        answerable handlers request.2 = true := by
      intro request hrequest
      apply (routeRequest_isOk_iff handlers _).mpr
      refine ⟨?_, (h request hrequest).1⟩
      simpa using List.mem_takeWhile_imp hrequest
    obtain ⟨hpreceding, hfailure⟩ := Reading.preceding_routable hall
    apply expected_eq_some_iff.mpr
    refine ⟨hall, ?_⟩
    have hpending := processFrom_pending date hpieces ⟨llhttp.init, []⟩ 0 {} rfl (by
      rw [hfailure, hpreceding]
      exact fun f hf request hrequest => (h request hrequest).2 f hf)
    have hsent := processFrom_all llhttp handlers date pieces ⟨llhttp.init, []⟩ 0 {}
    rw [hpreceding, ResponseBuffers.all, hpending, List.append_nil] at hsent
    rw [process, hsent]
    rfl

/-- Where a request without headers is. -/
inductive Phase
  | method (left : List UInt8)
  | url
  | version (left : List UInt8)
  deriving DecidableEq, Repr

/-- llhttp on GET requests without headers. -/
def headerless : Llhttp Phase where
  init := .method (ascii "GET ")
  execute
    | .method left, byte =>
      if left.head? = some byte then
        (if left = ascii "GET " then [.onMessageBegin] else [],
          some (if left.tail = [] then .url else .method left.tail))
      else ([], none)
    | .url, byte =>
      if byte = 32 then ([], some (.version (ascii "HTTP/1.1\r\n\r\n")))
      else ([.onUrl [byte]], some .url)
    | .version left, byte =>
      if left.head? = some byte then
        if left.tail = [] then ([.onMessageComplete], some (.method (ascii "GET ")))
        else ([], some (.version left.tail))
      else ([], none)

/-- A request and an invalid byte: received apart, the request is answered; received together, it is
not. -/
theorem process_of_invalid_byte :
    process headerless ⟨ascii "Hello, World!", ascii "\x7b\x7d", [], fun _ => [], fun _ => [], fun _ => [], []⟩ []
      [ascii "GET /json HTTP/1.1\r\n\r\n", ascii "x"] ≠ [] ∧
    process headerless ⟨ascii "Hello, World!", ascii "\x7b\x7d", [], fun _ => [], fun _ => [], fun _ => [], []⟩ []
      [ascii "GET /json HTTP/1.1\r\n\r\nx"] = [] := by
  decide +kernel

end FrameworkBenchmarks.Userver
