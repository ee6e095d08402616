import FrameworkBenchmarks.AspNetCore.HttpConnection

/-!
# Pipelined requests of the platform

The requests of a stream are parsed in their order, however the stream is cut into reads. The answers are written in
this order too, as long as no read holds a plaintext or JSON request behind a JSON request, and no plaintext response is
still in the buffer writer when a request of another kind ends the read.
-/

namespace FrameworkBenchmarks.AspNetCore

open FrameworkBenchmarks.Common

/-! ### Parsing -/

/-- A request without a body. -/
structure Request where
  line : List UInt8
  headers : List (List UInt8)
  line_clean : CR ∉ line
  headers_clean : ∀ header ∈ headers, header ≠ [] ∧ CR ∉ header

/-- Headers and the empty line behind them. -/
def headerText (headers : List (List UInt8)) : List UInt8 := ended headers ++ lineEnd

def Request.text (request : Request) : List UInt8 := request.line ++ (lineEnd ++ headerText request.headers)

def requestTexts (requests : List Request) : List UInt8 := requests.flatMap Request.text

/-- The first line of what has arrived is that of the whole stream. -/
theorem splitLine_arrived {line arrived future rest : List UInt8} (hline : CR ∉ line)
    (h : arrived ++ future = line ++ (lineEnd ++ rest)) :
    (splitLine arrived = none ∧ future ≠ []) ∨
      ∃ arrived', splitLine arrived = some (line, arrived') ∧ arrived' ++ future = rest := by
  have hwhole : splitLine (line ++ (lineEnd ++ rest)) = some (line, rest) := by
    apply splitLine_line
    intro hends
    exact hline (hends.subset List.mem_cons_self)
  cases hsplit : splitLine arrived with
  | none =>
    left
    refine ⟨rfl, fun hnil => ?_⟩
    rw [hnil, List.append_nil] at h
    rw [h, hwhole] at hsplit
    cases hsplit
  | some split =>
    right
    have hstable := splitLine_stable hsplit future
    rw [h, hwhole, Option.some.injEq, Prod.mk.injEq] at hstable
    obtain ⟨hfirst, hrest⟩ := hstable
    exact ⟨split.2, by rw [hfirst], hrest.symm⟩

/-- The headers are read up to their end, or up to some header. -/
theorem parseHeaders_arrived {headers : List (List UInt8)} (hheaders : ∀ header ∈ headers, header ≠ [] ∧ CR ∉ header)
    {fuel : ℕ} {arrived future rest : List UInt8} (hfuel : arrived.length < fuel)
    (h : arrived ++ future = headerText headers ++ rest) :
    (∃ arrived', parseHeaders fuel arrived = (true, arrived') ∧ arrived' ++ future = rest) ∨
      future ≠ [] ∧ ∃ arrived' headers', parseHeaders fuel arrived = (false, arrived') ∧ headers' <:+ headers ∧
        arrived' ++ future = headerText headers' ++ rest := by
  induction headers generalizing fuel arrived with
  | nil =>
    cases fuel with
    | zero => exact absurd hfuel (Nat.not_lt_zero _)
    | succ fuel =>
      rcases splitLine_arrived List.not_mem_nil h with ⟨hnone, hfuture⟩ | ⟨arrived', hsome, hrest⟩
      · refine Or.inr ⟨hfuture, arrived, [], ?_, List.suffix_refl _, h⟩
        rw [parseHeaders, hnone]
      · refine Or.inl ⟨arrived', ?_, hrest⟩
        rw [parseHeaders, hsome]
  | cons header headers ih =>
    cases fuel with
    | zero => exact absurd hfuel (Nat.not_lt_zero _)
    | succ fuel =>
      obtain ⟨hne, hclean⟩ := hheaders header List.mem_cons_self
      have hline : arrived ++ future = header ++ (lineEnd ++ (headerText headers ++ rest)) := by
        rw [h, headerText, headerText, ended, List.flatMap_cons, ← ended]
        simp only [List.append_assoc]
      rcases splitLine_arrived hclean hline with ⟨hnone, hfuture⟩ | ⟨arrived', hsome, hrest⟩
      · refine Or.inr ⟨hfuture, arrived, header :: headers, ?_, List.suffix_refl _, h⟩
        rw [parseHeaders, hnone]
      · obtain ⟨c, header, rfl⟩ := List.exists_cons_of_ne_nil hne
        have hlength := lines.length_lt hsome
        have hparse : parseHeaders (fuel + 1) arrived = parseHeaders fuel arrived' := by
          rw [parseHeaders, hsome]
        have hlt : arrived'.length < fuel := by omega
        rw [hparse]
        rcases ih (fun header' hheader' => hheaders header' (List.mem_cons_of_mem _ hheader')) hlt hrest with
          hdone | ⟨hfuture, arrived'', headers', hparse', hsuffix, hrest'⟩
        · exact Or.inl hdone
        · exact Or.inr ⟨hfuture, arrived'', headers', hparse', hsuffix.trans (List.suffix_cons _ _), hrest'⟩

variable (parser : Parser)

/-- The connection has the kind of a request. -/
def Connection.Has (connection : Connection) (request : Request) : Prop :=
  ∃ before : Connection, connection.requestType = (onStartLine parser request.line before).requestType ∧
    connection.queries = (onStartLine parser request.line before).queries

/-- The stream holds the requests, where the request line and some headers of the first one may have been read already. -/
inductive Rest : Connection → List UInt8 → List Request → Prop
  | start {connection : Connection} (requests : List Request) (h : connection.state = .startLine) :
    Rest connection (requestTexts requests) requests
  | headers {connection : Connection} {headers : List (List UInt8)} {request : Request} (requests : List Request)
    (h : connection.state = .headers) (hhas : connection.Has parser request) (hsuffix : headers <:+ request.headers) :
    Rest connection (headerText headers ++ requestTexts requests) (request :: requests)

/-- What parsing leads to: the next request, or an incomplete one. -/
structure Parsed (isCompleted : Bool) (connection : Connection) (unread future : List UInt8) (request : Request)
    (requests : List Request) (connection' : Connection) (unread' : List UInt8) : Prop where
  parse : parseHttpRequest parser isCompleted connection unread = some (connection', unread')
  state : connection'.state = .body
  has : connection'.Has parser request
  rest : unread' ++ future = requestTexts requests
  shorter : unread'.length < unread.length

variable {parser} {connection : Connection} {unread future stream : List UInt8} {requests : List Request}

theorem readHeaders_rest {headers : List (List UInt8)} {request : Request} (hstate : connection.state = .headers)
    (hsuffix : headers <:+ request.headers) (h : unread ++ future = headerText headers ++ requestTexts requests) :
    (∃ unread', readHeaders connection unread = ({ connection with state := .body }, unread') ∧
      unread' ++ future = requestTexts requests) ∨
    future ≠ [] ∧ ∃ unread' headers', readHeaders connection unread = (connection, unread') ∧
      headers' <:+ request.headers ∧ unread' ++ future = headerText headers' ++ requestTexts requests := by
  have hclean : ∀ header ∈ headers, header ≠ [] ∧ CR ∉ header := fun header hheader =>
    request.headers_clean header (hsuffix.subset hheader)
  unfold readHeaders
  rw [if_pos hstate]
  rcases parseHeaders_arrived hclean (Nat.lt_succ_self unread.length) h with ⟨unread', hparse, hrest⟩ |
    ⟨hfuture, unread', headers', hparse, hsuffix', hrest⟩
  · exact Or.inl ⟨unread', by rw [hparse], hrest⟩
  · exact Or.inr ⟨hfuture, unread', headers', by rw [hparse], hsuffix'.trans hsuffix, hrest⟩

/-- Parsing goes on to the end of the next request, if it has arrived. -/
theorem parseHttpRequest_rest (hstream : unread ++ future = stream) (hrest : Rest parser connection stream requests)
    {isCompleted : Bool} (hcompleted : isCompleted = true → future = [] ∧ unread ≠ []) :
    (∃ request requests' connection' unread', requests = request :: requests' ∧
      Parsed parser isCompleted connection unread future request requests' connection' unread') ∨
    isCompleted = false ∧ ∃ connection' unread',
      parseHttpRequest parser isCompleted connection unread = some (connection', unread') ∧
        connection'.state ≠ .body ∧ Rest parser connection' (unread' ++ future) requests := by
  -- Once the request line is there, the headers decide.
  have hheaders : ∀ {middle : Connection} {unread' : List UInt8} {headers : List (List UInt8)} {request : Request}
      {requests' : List Request}, readStartLine parser connection unread = (middle, unread') → middle.state = .headers →
      middle.Has parser request → headers <:+ request.headers →
      unread' ++ future = headerText headers ++ requestTexts requests' → unread'.length ≤ unread.length →
      (∃ connection' unread'', Parsed parser isCompleted connection unread future request requests' connection' unread'') ∨
      isCompleted = false ∧ ∃ connection' unread'',
        parseHttpRequest parser isCompleted connection unread = some (connection', unread'') ∧
          connection'.state ≠ .body ∧ Rest parser connection' (unread'' ++ future) (request :: requests') := by
    intro middle unread' headers request requests' hline hstate hhas hsuffix hunread hle
    rcases readHeaders_rest hstate hsuffix hunread with ⟨unread'', hread, hrest'⟩ |
      ⟨hfuture, unread'', headers', hread, hsuffix', hrest'⟩
    · left
      have hlength := congrArg List.length hunread
      have hlength' := congrArg List.length hrest'
      have hheader : 2 ≤ (headerText headers).length := by
        rw [headerText, List.length_append]
        exact Nat.le_add_left 2 _
      rw [List.length_append, List.length_append] at hlength
      rw [List.length_append] at hlength'
      refine ⟨{ middle with state := .body }, unread'', ?_, rfl, hhas, hrest', by omega⟩
      unfold parseHttpRequest
      rw [hline]
      simp only [hread]
      exact if_neg fun h => h.1 rfl
    · right
      have hincomplete : isCompleted = false := by
        cases isCompleted with
        | false => rfl
        | true => exact absurd (hcompleted rfl).1 hfuture
      have hbody : middle.state ≠ .body := by
        rw [hstate]
        intro h
        cases h
      refine ⟨hincomplete, middle, unread'', ?_, hbody, ?_⟩
      · unfold parseHttpRequest
        rw [hline]
        simp only [hread]
        apply if_neg
        rw [hincomplete]
        exact fun h => absurd h.2 Bool.false_ne_true
      · rw [hrest']
        exact .headers requests' hstate hhas hsuffix'
  cases hrest with
  | start requests hstate =>
    have hstay : ∀ {unread' : List UInt8}, readStartLine parser connection unread = (connection, unread') →
        isCompleted = false → parseHttpRequest parser isCompleted connection unread = some (connection, unread') := by
      intro unread' hline hincomplete
      have hnot : connection.state ≠ .headers := by
        rw [hstate]
        intro h
        cases h
      unfold parseHttpRequest
      rw [hline]
      simp only [readHeaders, if_neg hnot]
      apply if_neg
      rw [hincomplete]
      exact fun h => absurd h.2 Bool.false_ne_true
    have hbody : connection.state ≠ .body := by
      rw [hstate]
      intro h
      cases h
    cases requests with
    | nil =>
      right
      have hnil : unread = [] ∧ future = [] := List.append_eq_nil_iff.mp hstream
      have hincomplete : isCompleted = false := by
        cases isCompleted with
        | false => rfl
        | true => exact absurd hnil.1 (hcompleted rfl).2
      have hline : readStartLine parser connection unread = (connection, unread) := by
        unfold readStartLine
        rw [if_pos hstate, hnil.1]
        rfl
      refine ⟨hincomplete, connection, unread, hstay hline hincomplete, hbody, ?_⟩
      rw [hstream]
      exact .start [] hstate
    | cons request requests =>
      have hfirst : unread ++ future = request.line ++ (lineEnd ++ (headerText request.headers ++ requestTexts requests)) := by
        rw [hstream, requestTexts, List.flatMap_cons, Request.text]
        simp only [List.append_assoc, requestTexts]
      rcases splitLine_arrived request.line_clean hfirst with ⟨hnone, hfuture⟩ | ⟨unread', hsome, hunread⟩
      · right
        have hincomplete : isCompleted = false := by
          cases isCompleted with
          | false => rfl
          | true => exact absurd (hcompleted rfl).1 hfuture
        have hline : readStartLine parser connection unread = (connection, unread) := by
          unfold readStartLine
          rw [if_pos hstate, hnone]
        refine ⟨hincomplete, connection, unread, hstay hline hincomplete, hbody, ?_⟩
        rw [hstream]
        exact .start (request :: requests) hstate
      · have hline : readStartLine parser connection unread =
            ({ onStartLine parser request.line connection with state := .headers }, unread') := by
          unfold readStartLine
          rw [if_pos hstate, hsome]
        have hle := lines.length_lt hsome
        rcases hheaders hline rfl ⟨connection, rfl, rfl⟩ (List.suffix_refl _) hunread (Nat.le_of_lt hle) with
          ⟨connection', unread'', hparsed⟩ | hincomplete
        · exact Or.inl ⟨request, requests, connection', unread'', rfl, hparsed⟩
        · exact Or.inr hincomplete
  | headers requests hstate hhas hsuffix =>
    have hnot : connection.state ≠ .startLine := by
      rw [hstate]
      intro h
      cases h
    rcases hheaders (if_neg hnot) hstate hhas hsuffix hstream (Nat.le_refl _) with
      ⟨connection', unread'', hparsed⟩ | hincomplete
    · exact Or.inl ⟨_, requests, connection', unread'', rfl, hparsed⟩
    · exact Or.inr hincomplete

/-! ### Answers -/

/-- The kinds that are answered with the buffer writer. -/
def RequestType.Fast (requestType : RequestType) : Prop := requestType = .plainText ∨ requestType = .json

section

variable (parser : Parser) (handlers : Handlers) (spans : Spans) (date : HttpDate)

def typeOf (request : Request) : RequestType := (onStartLine parser request.line .new).requestType

def plainTextResponse : List UInt8 := plaintextPreamble ++ (date.headerBytes ++ plainTextBody)

def jsonResponse : List UInt8 := jsonPreamble ++ (date.headerBytes ++ jsonBody)

/-- What a request is answered with. -/
def responseTo (request : Request) : List UInt8 :=
  match typeOf parser request with
  | .plainText => plainTextResponse date
  | .json => jsonResponse date
  | _ => answer handlers date (onStartLine parser request.line .new)

/-- The writes of `HandleRequests` for requests of these kinds. -/
def serve : List RequestType → BufferWriter → Pipe → Pipe
  | [], writer, pipe => (writer.commit pipe).2
  | requestType :: types, writer, pipe =>
    match processRequest spans date requestType writer pipe with
    | none => pipe
    | some (writer, pipe) => serve types writer pipe

theorem processRequest_eq_none_iff (requestType : RequestType) (writer : BufferWriter) (pipe : Pipe) :
    processRequest spans date requestType writer pipe = none ↔ ¬requestType.Fast := by
  unfold processRequest RequestType.Fast
  by_cases hplain : requestType = .plainText
  · simp [hplain]
  · by_cases hjson : requestType = .json
    · simp [hjson]
    · simp [hplain, hjson]

theorem requestType_onStartLine (line : List UInt8) (before before' : Connection) :
    (onStartLine parser line before).requestType = (onStartLine parser line before').requestType := by
  unfold onStartLine getRequestType
  split_ifs <;> rfl

/-- The number of queries of an earlier request is not used. -/
theorem answer_onStartLine (line : List UInt8) (before before' : Connection) :
    answer handlers date (onStartLine parser line before) = answer handlers date (onStartLine parser line before') := by
  unfold onStartLine getRequestType
  split_ifs <;> rfl

theorem requestType_of_has {connection : Connection} {request : Request} (h : connection.Has parser request) :
    connection.requestType = typeOf parser request := by
  obtain ⟨before, htype, _⟩ := h
  exact htype.trans (requestType_onStartLine parser request.line before .new)

theorem answer_of_has {connection : Connection} {request : Request} (h : connection.Has parser request) :
    answer handlers date connection = answer handlers date (onStartLine parser request.line .new) := by
  obtain ⟨before, htype, hqueries⟩ := h
  rw [← answer_onStartLine parser handlers date request.line before .new]
  unfold answer
  rw [htype, hqueries]

/-- What a call of `HandleRequests` does with the requests of a stream. -/
structure Handled (isCompleted : Bool) (future : List UInt8) (requests : List Request) (writer : BufferWriter) (pipe : Pipe)
    (batch : Batch) (done rest : List Request) : Prop where
  requests : requests = done ++ rest
  types : batch.types = done.map (typeOf parser)
  pipe : batch.pipe = serve spans date batch.types writer pipe
  progress : isCompleted = true → done ≠ []
  left : (batch.answered = true ∧ (∀ request ∈ done, (typeOf parser request).Fast) ∧
      Rest parser batch.connection (batch.unread ++ future) rest) ∨
    batch.answered = false ∧ ∃ fast request, done = fast ++ [request] ∧ (∀ request ∈ fast, (typeOf parser request).Fast) ∧
      ¬(typeOf parser request).Fast ∧ batch.connection.Has parser request ∧ batch.unread ++ future = requestTexts rest

end

variable {handlers : Handlers} {spans : Spans} {date : HttpDate}

theorem handleLoop_handled {isCompleted : Bool} {fuel : ℕ} (hfuel : unread.length < fuel)
    (hrest : Rest parser connection (unread ++ future) requests)
    (hcompleted : isCompleted = true → future = [] ∧ unread ≠ []) (writer : BufferWriter) (pipe : Pipe) :
    ∃ batch done rest, handleLoop parser spans date isCompleted fuel connection unread writer pipe = some batch ∧
      Handled parser spans date isCompleted future requests writer pipe batch done rest := by
  induction fuel generalizing connection unread requests writer pipe with
  | zero => exact absurd hfuel (Nat.not_lt_zero _)
  | succ fuel ih =>
    rcases parseHttpRequest_rest rfl hrest hcompleted with
      ⟨request, requests, connection', unread', rfl, hparsed⟩ | ⟨hincomplete, connection', unread', hparse, hstate, hrest'⟩
    · have htype : connection'.requestType = typeOf parser request := requestType_of_has parser hparsed.has
      cases hprocess : processRequest spans date connection'.requestType writer pipe with
      | none =>
        have hslow := (processRequest_eq_none_iff spans date _ writer pipe).mp hprocess
        refine ⟨⟨connection', unread', pipe, false, [connection'.requestType]⟩, [request], requests, ?_, rfl, ?_, ?_, ?_, ?_⟩
        · rw [handleLoop, hparsed.parse]
          simp only [Option.bind_eq_bind, Option.bind_some, if_pos hparsed.state, hprocess]
          rfl
        · rw [htype]
          rfl
        · rw [serve, hprocess]
        · exact fun _ => List.cons_ne_nil _ _
        · refine Or.inr ⟨rfl, [], request, rfl, fun _ h => (nomatch h), ?_, hparsed.has, hparsed.rest⟩
          rwa [← htype]
      | some written =>
        obtain ⟨writer', pipe'⟩ := written
        have hfast : (typeOf parser request).Fast := by
          rw [← htype]
          by_contra hslow
          rw [(processRequest_eq_none_iff spans date _ writer pipe).mpr hslow] at hprocess
          cases hprocess
        have hnext : Rest parser { connection' with state := .startLine } (unread' ++ future) requests := by
          rw [hparsed.rest]
          exact .start requests rfl
        by_cases hmore : unread' = []
        · refine ⟨⟨{ connection' with state := .startLine }, unread', (writer'.commit pipe').2, true,
            [connection'.requestType]⟩, [request], requests, ?_, rfl, ?_, ?_, ?_, ?_⟩
          · rw [handleLoop, hparsed.parse]
            simp only [Option.bind_eq_bind, Option.bind_some, if_pos hparsed.state, hprocess, hmore, ne_eq,
              not_true_eq_false, if_false]
            rfl
          · rw [htype]
            rfl
          · rw [serve, hprocess]
            rfl
          · exact fun _ => List.cons_ne_nil _ _
          · refine Or.inl ⟨rfl, fun request' hrequest' => ?_, hnext⟩
            rw [List.mem_singleton.mp hrequest']
            exact hfast
        · have hshorter := hparsed.shorter
          obtain ⟨batch, done, rest, hloop, hhandled⟩ := ih (by omega) hnext (fun h => ⟨(hcompleted h).1, hmore⟩) writer' pipe'
          refine ⟨{ batch with types := connection'.requestType :: batch.types }, request :: done, rest, ?_, ?_, ?_, ?_, ?_, ?_⟩
          · rw [handleLoop, hparsed.parse]
            simp only [Option.bind_eq_bind, Option.bind_some, if_pos hparsed.state, hprocess, ne_eq, if_pos hmore, hloop]
            rfl
          · rw [hhandled.requests, List.cons_append]
          · rw [htype, hhandled.types, List.map_cons]
          · rw [hhandled.pipe, serve, hprocess]
          · exact fun _ => List.cons_ne_nil _ _
          · rcases hhandled.left with ⟨hanswered, hall, hleft⟩ | ⟨hanswered, fast, slow, hdone, hall, hslow⟩
            · exact Or.inl ⟨hanswered, List.forall_mem_cons.mpr ⟨hfast, hall⟩, hleft⟩
            · refine Or.inr ⟨hanswered, request :: fast, slow, ?_, List.forall_mem_cons.mpr ⟨hfast, hall⟩, hslow⟩
              rw [hdone, List.cons_append]
    · refine ⟨⟨connection', unread', (writer.commit pipe).2, true, []⟩, [], requests, ?_, rfl, rfl, rfl, ?_, ?_⟩
      · rw [handleLoop, hparse]
        simp only [Option.bind_eq_bind, Option.bind_some, if_neg hstate]
        rfl
      · intro h
        rw [hincomplete] at h
        cases h
      · exact Or.inl ⟨rfl, fun _ h => (nomatch h), hrest'⟩

/-! ### Writes -/

/-- What the buffer writer may be used for in one call of `HandleRequests`, where it may hold plaintext responses already:
no plaintext or JSON request comes behind a JSON request, and a request of another kind finds no plaintext response in it. -/
def Fits (buffered : Bool) : List RequestType → Prop
  | [] => True
  | requestType :: types =>
    if requestType = .plainText then Fits true types
    else if requestType = .json then ∀ requestType' ∈ types, ¬requestType'.Fast
    else buffered = false

def fastResponse (date : HttpDate) (requestType : RequestType) : List UInt8 :=
  if requestType = .plainText then plainTextResponse date
  else if requestType = .json then jsonResponse date
  else []

theorem append_written (pipe : Pipe) (bytes : List UInt8) : (pipe.append bytes).written = pipe.written ++ bytes :=
  written_writeBytes pipe bytes

/-- The bytes up to the writer go on with what it writes. -/
theorem wrote_read {writer : BufferWriter} {pipe : Pipe} {source full : List UInt8} {after : BufferWriter × Pipe}
    (h : BufferWriter.Wrote source writer pipe after) (hfull : readBytes pipe.memory 0 writer.start = full) :
    readBytes after.2.memory 0 after.1.start = full ++ source := by
  have hwritten := written_writeBytes ⟨pipe.memory, writer.start⟩ source
  rw [h.memory, h.start, ← hfull]
  exact hwritten

theorem commit_written {writer : BufferWriter} {pipe : Pipe} (h : writer.Attached pipe) :
    (writer.commit pipe).2.written = readBytes pipe.memory 0 writer.start := by
  rw [BufferWriter.commit_eq h]
  rfl

theorem plainText_wrote {writer : BufferWriter} {pipe : Pipe} (h : writer.Attached pipe) :
    BufferWriter.Wrote (plainTextResponse date) writer pipe (plainText spans date writer pipe) := by
  have hpreamble := @BufferWriter.write_wrote spans _ _ h plaintextPreamble
  have hheader := @BufferWriter.write_wrote spans _ _ hpreamble.attached date.headerBytes
  have hbody := @BufferWriter.write_wrote spans _ _ hheader.attached plainTextBody
  exact hpreamble.append (hheader.append hbody)

/-- The JSON response is all in the pipe, and the writer holds nothing. -/
theorem json_written {writer : BufferWriter} {pipe : Pipe} (h : writer.Attached pipe) :
    (json spans date writer pipe).2.written = readBytes pipe.memory 0 writer.start ++ jsonResponse date ∧
      (json spans date writer pipe).1.buffered = 0 := by
  have hpreamble := @BufferWriter.write_wrote spans _ _ h jsonPreamble
  have hheader := @BufferWriter.write_wrote spans _ _ hpreamble.attached date.headerBytes
  have hread := wrote_read (hpreamble.append hheader) rfl
  have hcommit := commit_written hheader.attached
  have hbuffered := congrArg (fun committed => committed.1.buffered) (BufferWriter.commit_eq hheader.attached)
  constructor
  · have happend := append_written (((writer.write spans jsonPreamble pipe).1.write spans date.headerBytes
      (writer.write spans jsonPreamble pipe).2).1.commit ((writer.write spans jsonPreamble pipe).1.write spans
        date.headerBytes (writer.write spans jsonPreamble pipe).2).2).2 jsonBody
    rw [hcommit, hread, List.append_assoc, List.append_assoc] at happend
    exact happend
  · exact hbuffered

theorem serve_written {fast last : List RequestType} (hfast : ∀ requestType ∈ fast, requestType.Fast)
    (hlast : last = [] ∨ ∃ requestType, last = [requestType] ∧ ¬requestType.Fast) {buffered : Bool}
    (hfits : Fits buffered (fast ++ last)) {writer : BufferWriter} {pipe : Pipe} (h : writer.Attached pipe)
    (hbuffered : buffered = false → writer.buffered = 0) :
    (serve spans date (fast ++ last) writer pipe).written =
      readBytes pipe.memory 0 writer.start ++ fast.flatMap (fastResponse date) := by
  have hslow : ∀ {requestType : RequestType} (writer : BufferWriter) (pipe : Pipe), ¬requestType.Fast →
      serve spans date [requestType] writer pipe = pipe := by
    intro requestType writer pipe hrequestType
    rw [serve, (processRequest_eq_none_iff spans date requestType writer pipe).mpr hrequestType]
  induction fast generalizing buffered writer pipe with
  | nil =>
    rw [List.nil_append, List.flatMap_nil, List.append_nil]
    rcases hlast with rfl | ⟨requestType, rfl, hrequestType⟩
    · exact commit_written h
    · have hempty : writer.buffered = 0 := by
        apply hbuffered
        have hplain : requestType ≠ .plainText := fun heq => hrequestType (Or.inl heq)
        have hjson : requestType ≠ .json := fun heq => hrequestType (Or.inr heq)
        rw [List.nil_append, Fits, if_neg hplain, if_neg hjson] at hfits
        exact hfits
      have hstart : writer.start = pipe.advanced := by
        rw [h, hempty, Nat.add_zero]
      rw [hslow writer pipe hrequestType, hstart]
      rfl
  | cons requestType fast ih =>
    have hrest : ∀ requestType' ∈ fast, requestType'.Fast := fun requestType' h' =>
      hfast requestType' (List.mem_cons_of_mem requestType h')
    rw [List.cons_append, Fits] at hfits
    rw [List.cons_append, serve, List.flatMap_cons]
    rcases hfast requestType List.mem_cons_self with rfl | rfl
    · rw [if_pos rfl] at hfits
      have hwrote := @plainText_wrote spans date writer pipe h
      have hnext := ih hrest hfits hwrote.attached (fun h' => Bool.noConfusion h')
      rw [wrote_read hwrote rfl, List.append_assoc] at hnext
      exact hnext
    · rw [if_neg (by decide), if_pos rfl] at hfits
      have hnil : fast = [] := by
        cases fast with
        | nil => rfl
        | cons requestType' fast =>
          exact absurd (hrest requestType' List.mem_cons_self) (hfits requestType' List.mem_cons_self)
      subst hnil
      obtain ⟨hwritten, hempty⟩ := @json_written spans date writer pipe h
      have hserve : serve spans date ([] ++ last) (json spans date writer pipe).1 (json spans date writer pipe).2 =
          (json spans date writer pipe).2 := by
        rcases hlast with rfl | ⟨requestType', rfl, hrequestType'⟩
        · rw [List.append_nil, serve, BufferWriter.commit, if_neg (by omega)]
        · exact hslow _ _ hrequestType'
      rw [List.flatMap_nil, List.append_nil]
      exact (congrArg Pipe.written hserve).trans hwritten

/-! ### Runs -/

theorem Request.text_ne_nil (request : Request) : request.text ≠ [] := by
  intro h
  have hline : lineEnd ++ headerText request.headers = [] := (List.append_eq_nil_iff.mp h).2
  cases hline

/-- At the end of the stream there are no requests left. -/
theorem Rest.requests_eq_nil (hrest : Rest parser connection stream requests) (h : stream = []) : requests = [] := by
  cases hrest with
  | start requests _ =>
    cases requests with
    | nil => rfl
    | cons request requests => exact absurd (List.append_eq_nil_iff.mp h).1 request.text_ne_nil
  | headers requests _ _ _ =>
    have hline := (List.append_eq_nil_iff.mp (List.append_eq_nil_iff.mp h).1).2
    cases hline

theorem responseTo_fast {request : Request} (h : (typeOf parser request).Fast) :
    responseTo parser handlers date request = fastResponse date (typeOf parser request) := by
  unfold responseTo fastResponse
  rcases h with h | h
  · rw [h, if_pos rfl]
  · rw [h, if_neg (by decide), if_pos rfl]

theorem responseTo_slow {request : Request} (h : ¬(typeOf parser request).Fast) :
    responseTo parser handlers date request = answer handlers date (onStartLine parser request.line .new) := by
  unfold responseTo
  split
  · next htype => exact absurd (Or.inl htype) h
  · next htype => exact absurd (Or.inr htype) h
  · rfl

/-- A read answers the next requests, and writes their responses if they fit together. -/
theorem handleRead_written {isCompleted : Bool} (hrest : Rest parser connection (unread ++ future) requests)
    (hcompleted : isCompleted = true → future = [] ∧ unread ≠ []) (pipe : Pipe) :
    ∃ batch done rest, handleRead parser handlers spans date isCompleted connection unread pipe = some batch ∧
      requests = done ++ rest ∧ batch.types = done.map (typeOf parser) ∧ (isCompleted = true → done ≠ []) ∧
      Rest parser batch.connection (batch.unread ++ future) rest ∧
      (Fits false batch.types → batch.pipe.written = pipe.written ++ done.flatMap (responseTo parser handlers date)) := by
  obtain ⟨batch, done, rest, hloop, hhandled⟩ := @handleLoop_handled parser connection unread future requests spans date
    isCompleted _ (Nat.lt_succ_self unread.length) hrest hcompleted (BufferWriter.new spans pipe (160 * 16)) pipe
  have hattached := BufferWriter.new_attached spans pipe (160 * 16)
  have hresponses : ∀ {fast : List Request}, (∀ request ∈ fast, (typeOf parser request).Fast) →
      (fast.map (typeOf parser)).flatMap (fastResponse date) = fast.flatMap (responseTo parser handlers date) := by
    intro fast hfast
    rw [List.flatMap_map]
    exact List.flatMap_congr fun request hrequest => (responseTo_fast (hfast request hrequest)).symm
  have hmap : ∀ {fast : List Request}, (∀ request ∈ fast, (typeOf parser request).Fast) →
      ∀ requestType ∈ fast.map (typeOf parser), requestType.Fast := by
    intro fast hfast requestType h
    obtain ⟨request, hrequest, rfl⟩ := List.mem_map.mp h
    exact hfast request hrequest
  rcases hhandled.left with ⟨hanswered, hfast, hleft⟩ | ⟨hanswered, fast, slow, hdone, hfast, hslow, hhas, hleft⟩
  · refine ⟨batch, done, rest, ?_, hhandled.requests, hhandled.types, hhandled.progress, hleft, fun hfits => ?_⟩
    · rw [handleRead, hloop]
      exact if_pos hanswered
    · rw [hhandled.types] at hfits
      have hwritten := @serve_written spans date _ [] (hmap hfast) (Or.inl rfl) false (by rwa [List.append_nil]) _ pipe
        hattached (fun _ => rfl)
      rw [List.append_nil, hresponses hfast] at hwritten
      rw [hhandled.pipe, hhandled.types]
      exact hwritten
  · refine ⟨{ batch with
        connection := { batch.connection with state := .startLine }
        pipe := batch.pipe.append (answer handlers date batch.connection) }, done, rest, ?_, hhandled.requests,
      hhandled.types, hhandled.progress, ?_, fun hfits => ?_⟩
    · rw [handleRead, hloop]
      apply if_neg
      rw [hanswered]
      exact Bool.false_ne_true
    · rw [hleft]
      exact .start rest rfl
    · have htypes : batch.types = fast.map (typeOf parser) ++ [typeOf parser slow] := by
        rw [hhandled.types, hdone, List.map_append, List.map_singleton]
      have hfits' : Fits false (fast.map (typeOf parser) ++ [typeOf parser slow]) := by
        rwa [← htypes]
      have hwritten := @serve_written spans date _ _ (hmap hfast) (Or.inr ⟨_, rfl, hslow⟩) false hfits' _ pipe
        hattached (fun _ => rfl)
      rw [hresponses hfast] at hwritten
      have happend := append_written batch.pipe (answer handlers date batch.connection)
      rw [hhandled.pipe, htypes, hwritten, answer_of_has parser handlers date hhas, ← responseTo_slow hslow,
        List.append_assoc] at happend
      rw [hdone, List.flatMap_append, List.flatMap_singleton]
      rw [hhandled.pipe, htypes, answer_of_has parser handlers date hhas, ← responseTo_slow hslow]
      exact happend

/-- The run over all reads, with a read more for each request at most. -/
theorem processRequestsAsync_written (early : Bool) {fuel : ℕ} {reads : List (List UInt8)}
    (hfuel : reads.length + requests.length < fuel) (hrest : Rest parser connection (unread ++ reads.flatten) requests)
    (pipe : Pipe) :
    ∃ pipe' batches, processRequestsAsync parser handlers spans date early fuel reads connection unread pipe =
        some (pipe', batches) ∧ batches.flatten = requests.map (typeOf parser) ∧
      ((∀ types ∈ batches, Fits false types) →
        pipe'.written = pipe.written ++ requests.flatMap (responseTo parser handlers date)) := by
  induction fuel generalizing reads requests connection unread pipe with
  | zero => exact absurd hfuel (Nat.not_lt_zero _)
  | succ fuel ih =>
    have hstream : unread ++ reads.flatten = (unread ++ reads.head?.getD []) ++ reads.tail.flatten := by
      cases reads with
      | nil => simp
      | cons read reads =>
        rw [List.flatten_cons, List.append_assoc]
        rfl
    have hfuture : (reads.isEmpty || (early && reads.length == 1)) = true → reads.tail.flatten = [] := by
      intro h
      cases reads with
      | nil => rfl
      | cons read reads =>
        cases reads with
        | nil => rfl
        | cons read' reads => simp at h
    rw [hstream] at hrest
    rw [processRequestsAsync]
    by_cases hend : unread ++ reads.head?.getD [] = [] ∧ (reads.isEmpty || (early && reads.length == 1)) = true
    · have hnil : requests = [] := by
        apply hrest.requests_eq_nil
        rw [hend.1, hfuture hend.2]
        rfl
      refine ⟨pipe, [], if_pos hend, by rw [hnil]; rfl, fun _ => ?_⟩
      rw [hnil, List.flatMap_nil, List.append_nil]
    · obtain ⟨batch, done, rest, hread, hrequests, htypes, hprogress, hleft, hwritten⟩ :=
        @handleRead_written parser connection _ _ requests handlers spans date
          (reads.isEmpty || (early && reads.length == 1)) hrest (fun h => ⟨hfuture h, fun hnil => hend ⟨hnil, h⟩⟩) pipe
      have hless : reads.tail.length + rest.length < fuel := by
        have hlength := congrArg List.length hrequests
        rw [List.length_append] at hlength
        cases reads with
        | nil =>
          have hdone := List.length_pos_of_ne_nil (hprogress rfl)
          simp only [List.length_nil, List.tail_nil] at hfuel ⊢
          omega
        | cons read reads =>
          simp only [List.length_cons, List.tail_cons] at hfuel ⊢
          omega
      obtain ⟨pipe', batches, hrun, hflatten, hall⟩ := ih hless hleft batch.pipe
      refine ⟨pipe', batch.types :: batches, ?_, ?_, fun hfits => ?_⟩
      · rw [if_neg hend, hread]
        simp only [Option.bind_eq_bind, Option.bind_some, hrun]
        rfl
      · rw [List.flatten_cons, hflatten, htypes, hrequests, List.map_append]
      · rw [List.forall_mem_cons] at hfits
        rw [hall hfits.2, hwritten hfits.1, hrequests, List.flatMap_append, List.append_assoc]

def Pipe.empty : Pipe := ⟨fun _ => 0, 0⟩

/-- What a request is answered with if it is the only one of a connection. -/
def alone (parser : Parser) (handlers : Handlers) (spans : Spans) (date : HttpDate) (request : Request) : List UInt8 :=
  match processRequestsAsync parser handlers spans date false 3 [request.text] .new [] .empty with
  | some (pipe, _) => pipe.written
  | none => []

theorem fits_one (requestType : RequestType) : Fits false [requestType] := by
  cases requestType <;> simp [Fits]

theorem alone_eq (parser : Parser) (handlers : Handlers) (spans : Spans) (date : HttpDate) (request : Request) :
    alone parser handlers spans date request = responseTo parser handlers date request := by
  have hrest : Rest parser .new ([] ++ [request.text].flatten) [request] := by
    have htext : [] ++ [request.text].flatten = requestTexts [request] := by
      rw [requestTexts, List.flatMap_singleton, List.nil_append, List.flatten_singleton]
    rw [htext]
    exact .start [request] rfl
  obtain ⟨pipe, batches, hrun, hflatten, hwritten⟩ := @processRequestsAsync_written parser .new [] [request] handlers spans
    date false 3 [request.text] (Nat.lt_succ_self 2) hrest .empty
  have hfits : ∀ types ∈ batches, Fits false types := by
    intro types htypes
    have hsublist : types.Sublist [typeOf parser request] := by
      have h := List.sublist_flatten_of_mem htypes
      rwa [hflatten] at h
    rcases List.sublist_singleton.mp hsublist with rfl | rfl
    · trivial
    · exact fits_one _
  unfold alone
  rw [hrun]
  change pipe.written = _
  rw [hwritten hfits, List.flatMap_singleton]
  rfl

/-- A parser for lines of the form `GET path version`. -/
def simpleParser : Parser where
  isGet line := (ascii "GET ").isPrefixOf line
  path line := (line.drop 4).takeWhile (· ≠ 32)
  tryParse _ := none

def noHandlers : Handlers := ⟨[], [], fun _ => [], fun _ => [], fun _ => []⟩

def plaintextRequest : Request where
  line := ascii "GET /plaintext HTTP/1.1"
  headers := []
  line_clean := (clean_of_all (List.cons_ne_nil _ _) rfl).2.1
  headers_clean := fun _ h => (nomatch h)

def otherRequest : Request where
  line := ascii "GET / HTTP/1.1"
  headers := []
  line_clean := (clean_of_all (List.cons_ne_nil _ _) rfl).2.1
  headers_clean := fun _ h => (nomatch h)

end FrameworkBenchmarks.AspNetCore
