import FrameworkBenchmarks.TouchSocket.RequestFraming
import Mathlib.Data.List.Induction
import Mathlib.Data.List.TakeWhile

/-!
# Responses under every segmentation

The scan for the url starts at the request and runs to the end of the buffer. Over every segmentation each
head block gets the response to its own first line, exactly when no block with less than two spaces in its
first line borrows its url from what follows it.
-/

namespace FrameworkBenchmarks.TouchSocket

open Common

/-! ### Urls -/

/-- The text between the first and the second space. -/
def urlOf (s : List UInt8) : Option (List UInt8) :=
  match s.dropWhile (· ≠ space) with
  | [] => none
  | _ :: rest => if space ∈ rest then some (rest.takeWhile (· ≠ space)) else none

/-- The route of the text between the first and the second space. -/
def routeOf (s : List UInt8) : RouteType :=
  match urlOf s with
  | none => .unknown
  | some url =>
    if url = ascii "/plaintext" then .plaintext
    else if url = ascii "/json" then .json
    else .unknown

theorem forall_ne {c : UInt8} {a : List UInt8} (h : c ∉ a) : ∀ d ∈ a, decide (d ≠ c) = true := by
  intro d hd
  apply decide_eq_true
  rintro rfl
  exact h hd

theorem takeWhile_ne {c : UInt8} {a : List UInt8} (h : c ∉ a) (b : List UInt8) :
    (a ++ c :: b).takeWhile (· ≠ c) = a := by
  rw [List.takeWhile_append_of_pos (forall_ne h)]
  simp

theorem dropWhile_ne {c : UInt8} {a : List UInt8} (h : c ∉ a) (b : List UInt8) :
    (a ++ c :: b).dropWhile (· ≠ c) = c :: b := by
  rw [List.dropWhile_append_of_pos (forall_ne h)]
  simp

/-- Two spaces with a url between them. -/
theorem urlOf_eq_some_iff {s url : List UInt8} : urlOf s = some url ↔
    ∃ before after, s = before ++ space :: (url ++ space :: after) ∧ space ∉ before ∧ space ∉ url := by
  constructor
  · intro h
    by_cases hfirst : space ∈ s
    · obtain ⟨before, rest, rfl, hbefore⟩ := List.eq_append_cons_of_mem hfirst
      rw [urlOf, dropWhile_ne hbefore] at h
      by_cases hsecond : space ∈ rest
      · obtain ⟨url', after, rfl, hurl⟩ := List.eq_append_cons_of_mem hsecond
        simp only [if_pos hsecond, takeWhile_ne hurl, Option.some.injEq] at h
        subst h
        exact ⟨before, after, rfl, hbefore, hurl⟩
      · simp only [if_neg hsecond] at h
        cases h
    · have hdrop : s.dropWhile (· ≠ space) = [] := by
        exact List.dropWhile_eq_nil_iff.mpr (forall_ne hfirst)
      rw [urlOf, hdrop] at h
      cases h
  · rintro ⟨before, after, rfl, hbefore, hurl⟩
    rw [urlOf, dropWhile_ne hbefore]
    simp only [takeWhile_ne hurl]
    simp

/-- What follows does not change a url. -/
theorem urlOf_append {s url : List UInt8} (h : urlOf s = some url) (t : List UInt8) :
    urlOf (s ++ t) = some url := by
  obtain ⟨before, after, rfl, hbefore, hurl⟩ := urlOf_eq_some_iff.mp h
  exact urlOf_eq_some_iff.mpr ⟨before, after ++ t, by simp, hbefore, hurl⟩

theorem routeOf_append {s : List UInt8} (h : routeOf s ≠ .unknown) (t : List UInt8) :
    routeOf (s ++ t) = routeOf s := by
  cases hurl : urlOf s with
  | none =>
    rw [routeOf, hurl] at h
    exact absurd rfl h
  | some url => rw [routeOf, routeOf, urlOf_append hurl t, hurl]

theorem urlOf_eq_none_of_not_mem {s : List UInt8} (h : space ∉ s) : urlOf s = none := by
  rw [urlOf, List.dropWhile_eq_nil_iff.mpr (forall_ne h)]

theorem urlOf_eq_none_of_one {before rest : List UInt8} (hbefore : space ∉ before)
    (hrest : space ∉ rest) : urlOf (before ++ space :: rest) = none := by
  rw [urlOf, dropWhile_ne hbefore]
  exact if_neg hrest

/-- The lengths are compared first. -/
theorem route_of_lengths (url : List UInt8) :
    (if url.length = (ascii "/plaintext").length then
      if url = ascii "/plaintext" then RouteType.plaintext else .unknown
    else if url.length = (ascii "/json").length then
      if url = ascii "/json" then .json else .unknown
    else .unknown) =
    if url = ascii "/plaintext" then .plaintext
    else if url = ascii "/json" then .json else .unknown := by
  by_cases hplain : url = ascii "/plaintext"
  · rw [if_pos hplain, if_pos (congrArg List.length hplain), if_pos hplain]
  · by_cases hjson : url = ascii "/json"
    · have hlength : url.length ≠ (ascii "/plaintext").length := by
        rw [hjson]
        decide
      rw [if_neg hlength, if_pos (congrArg List.length hjson), if_neg hplain]
    · simp only [if_neg hplain, if_neg hjson, ite_self]

theorem parseUrlFast_eq (s : List UInt8) (requestLineLength : ℕ) :
    parseUrlFast s requestLineLength = routeOf s := by
  have hunread : (⟨s, 0⟩ : SequenceReader).unread = s := rfl
  simp only [parseUrlFast]
  by_cases hfirst : space ∈ s
  · obtain ⟨before, rest, hs, hbefore⟩ := List.eq_append_cons_of_mem hfirst
    have hrest : ((⟨s, 0⟩ : SequenceReader).advance (before.length + true.toNat)).unread = rest := by
      rw [SequenceReader.unread_advance, hunread, hs, Bool.toNat_true, ← List.drop_drop,
        List.drop_left]
      rfl
    simp only [SequenceReader.tryAdvanceTo_append _ hbefore (hunread.trans hs)]
    by_cases hsecond : space ∈ rest
    · obtain ⟨url, after, hsplit, hurl⟩ := List.eq_append_cons_of_mem hsecond
      have hroute : urlOf s = some url :=
        urlOf_eq_some_iff.mpr ⟨before, after, by rw [hs, hsplit], hbefore, hurl⟩
      have hslice : (s.drop (before.length + 1)).take url.length = url := by
        rw [hs, hsplit, ← List.drop_drop, List.drop_left, List.drop_succ_cons, List.drop_zero,
          List.take_left]
      simp only [SequenceReader.tryAdvanceTo_append _ hurl (hrest.trans hsplit)]
      simp only [SequenceReader.advance, Bool.toNat_true, Bool.toNat_false, Nat.add_zero, Nat.zero_add,
        Nat.add_sub_cancel_left, hslice, routeOf, hroute]
      exact route_of_lengths url
    · have hnone : space ∉
          ((⟨s, 0⟩ : SequenceReader).advance (before.length + true.toNat)).unread := by
        rwa [hrest]
      simp only [SequenceReader.tryAdvanceTo_eq_none _ hnone]
      rw [hs, routeOf, urlOf_eq_none_of_one hbefore hsecond]
  · rw [SequenceReader.tryAdvanceTo_eq_none _ (hunread ▸ hfirst), routeOf,
      urlOf_eq_none_of_not_mem hfirst]

/-! ### Buffers -/

/-- The responses to the blocks of a buffer, each with the url found from its start on. -/
def routed (dateHeader : List UInt8) : List HeadBlock → List UInt8 → List UInt8
  | [], _ => []
  | block :: blocks, left =>
    writeResponseSync dateHeader (routeOf (block.text ++ (blocks.flatMap HeadBlock.text ++ left))) ++
      routed dateHeader blocks left

/-- The outer loop takes the complete blocks off the buffer and writes their responses. -/
theorem processRequestsFrom_eq {dateHeader : List UInt8} {fuel : ℕ} {reader : SequenceReader}
    (hfuel : reader.unread.length + 1 < fuel) (done : Processed) :
    processRequestsFrom dateHeader fuel reader done = some
      { totalConsumed := done.totalConsumed +
          ((headBlocks.frames reader.unread).1.flatMap HeadBlock.text).length
        written := done.written ++
          routed dateHeader (headBlocks.frames reader.unread).1 (headBlocks.frames reader.unread).2
        responseCount := done.responseCount + (headBlocks.frames reader.unread).1.length } := by
  induction fuel generalizing reader done with
  | zero => omega
  | succ fuel ih =>
    rw [processRequestsFrom]
    cases hnext : headBlocks.next reader.unread with
    | none =>
      have hdone : done = ⟨done.totalConsumed + 0, done.written ++ [], done.responseCount + 0⟩ := by
        simp
      simp only [Framer.frames_of_none hnext, List.flatMap_nil, List.length_nil, routed, ← hdone]
      by_cases hatEnd : reader.atEnd = true
      · rw [if_pos hatEnd]
      · rw [if_neg hatEnd, tryReadLine_eq (by omega)]
        cases hline : splitLine reader.unread with
        | none => rfl
        | some split =>
          obtain ⟨line, rest⟩ := split
          have hunread := unread_advance_line hline
          have hheaders : splitHeaders (reader.advance (line.length + 2)).unread = none := by
            rw [hunread]
            exact headBlocks_next_eq_none hnext hline
          have hshorter : (reader.advance (line.length + 2)).unread.length + 1 < fuel := by
            rw [hunread]
            rw [splitLine_eq_append hline] at hfuel
            simp only [List.length_append, List.length_cons, List.length_nil] at hfuel
            omega
          obtain ⟨reader', hreader'⟩ := readHeaders_eq_false
            (reader.advance (line.length + 2)).consumed hshorter hheaders
          simp only [hreader']
    | some result =>
      obtain ⟨block, rest⟩ := result
      obtain ⟨rest', hline, hheaders⟩ := headBlocks_next hnext
      have hunread := unread_advance_line hline
      have hblock : reader.unread = block.text ++ rest := headBlocks.eq_append hnext
      have hatEnd : reader.atEnd = false := by
        rw [SequenceReader.atEnd, splitLine_eq_append hline]
        simp
      have hlength : reader.unread.length = block.firstLine.length + 2 + rest'.length := by
        rw [splitLine_eq_append hline]
        simp only [List.length_append, List.length_cons, List.length_nil]
      have hshorter : (reader.advance (block.firstLine.length + 2)).unread.length + 1 < fuel := by
        rw [hunread]
        omega
      have htext : block.text.length = block.firstLine.length + 2 + block.headers.length := by
        simp only [HeadBlock.text, List.length_append, List.length_cons, List.length_nil]
      have hadvance : (reader.advance (block.firstLine.length + 2)).advance block.headers.length =
          reader.advance block.text.length := by
        rw [htext, SequenceReader.advance, SequenceReader.advance, SequenceReader.advance,
          Nat.add_assoc]
      have hrest : (reader.advance block.text.length).unread = rest := by
        rw [reader.unread_advance, hblock, List.drop_left]
      have hfuel' : (reader.advance block.text.length).unread.length + 1 < fuel := by
        have := headBlocks.length_lt hnext
        rw [hrest]
        omega
      have hroute : routeOf reader.unread = routeOf (block.text ++
          ((headBlocks.frames rest).1.flatMap HeadBlock.text ++ (headBlocks.frames rest).2)) := by
        have hframes : _ ++ _ = rest := Framer.flatMap_frames headBlocks rest
        exact congrArg routeOf (hblock.trans (congrArg _ hframes.symm))
      rw [hatEnd, tryReadLine_eq (by omega), hline]
      simp only [Bool.false_eq_true, if_false, readHeaders_eq_true hshorter (hunread ▸ hheaders),
        hadvance, parseUrlFast_eq]
      rw [ih hfuel', hrest, Framer.frames_of_some hnext]
      simp only [routed, List.flatMap_cons, List.length_append, List.length_cons, ← hroute,
        List.append_assoc, SequenceReader.unread, SequenceReader.advance, Option.some.injEq,
        Processed.mk.injEq, true_and]
      omega

/-! ### Segmentations -/

/-- The responses to the complete blocks of a stream, each to its own first line. -/
def ownResponses (dateHeader : List UInt8) (blocks : List HeadBlock) : List UInt8 :=
  blocks.flatMap fun block => writeResponseSync dateHeader (routeOf block.firstLine)

/-- The url found from the start of a block on gives the same route as its first line alone. -/
def OwnUrls (blocks : List HeadBlock) (left : List UInt8) : Prop :=
  ∀ before block after, blocks = before ++ block :: after →
    routeOf (block.text ++ (after.flatMap HeadBlock.text ++ left)) = routeOf block.firstLine

theorem ownUrls_cons {block : HeadBlock} {blocks : List HeadBlock} {left : List UInt8} :
    OwnUrls (block :: blocks) left ↔
      routeOf (block.text ++ (blocks.flatMap HeadBlock.text ++ left)) = routeOf block.firstLine ∧
        OwnUrls blocks left := by
  constructor
  · intro h
    exact ⟨h [] block blocks rfl, fun before b after heq => h (block :: before) b after (by rw [heq]; rfl)⟩
  · rintro ⟨hfirst, h⟩ before b after heq
    cases before with
    | nil =>
      obtain ⟨rfl, rfl⟩ := List.cons.inj heq
      exact hfirst
    | cons c before => exact h before b after (List.cons.inj heq).2

theorem ownUrls_append {before after : List HeadBlock} {left : List UInt8}
    (h : OwnUrls (before ++ after) left) : OwnUrls after left :=
  fun front b back heq => h (before ++ front) b back (by rw [heq, List.append_assoc])

/-- A first line with two spaces has the url, whatever follows it. -/
theorem routeOf_text (block : HeadBlock) (t : List UInt8) :
    routeOf (block.text ++ t) = routeOf block.firstLine ∨ routeOf block.firstLine = .unknown := by
  by_cases h : routeOf block.firstLine = .unknown
  · exact .inr h
  · left
    rw [HeadBlock.text, List.append_assoc, List.append_assoc]
    exact routeOf_append h _

/-- With less of the stream to look at, no other url is found. -/
theorem ownUrls_of_append {blocks more : List HeadBlock} {left left' t : List UInt8}
    (hleft : left ++ t = more.flatMap HeadBlock.text ++ left')
    (h : OwnUrls (blocks ++ more) left') : OwnUrls blocks left := by
  intro before block after heq
  have howns := h before block (after ++ more) (by rw [heq]; simp)
  have hwhole : block.text ++ ((after ++ more).flatMap HeadBlock.text ++ left') =
      block.text ++ (after.flatMap HeadBlock.text ++ left) ++ t := by
    simp only [List.flatMap_append, List.append_assoc, hleft]
  rw [hwhole] at howns
  obtain hsame | hunknown := routeOf_text block (after.flatMap HeadBlock.text ++ left)
  · exact hsame
  · by_contra hne
    rw [hunknown] at hne howns
    rw [routeOf_append hne] at howns
    exact hne howns

theorem routed_eq {dateHeader : List UInt8} {blocks : List HeadBlock} {left : List UInt8}
    (h : OwnUrls blocks left) : routed dateHeader blocks left = ownResponses dateHeader blocks := by
  induction blocks with
  | nil => rfl
  | cons block blocks ih =>
    obtain ⟨hfirst, hrest⟩ := ownUrls_cons.mp h
    rw [routed, hfirst, ih hrest]
    rfl

theorem writeResponseSync_ne_nil (dateHeader : List UInt8) {routeType : RouteType}
    (h : routeType ≠ .unknown) : 0 < (writeResponseSync dateHeader routeType).length := by
  have hplain : plainTextBody ≠ [] := by decide
  have hjson : jsonBody ≠ [] := by decide
  cases routeType with
  | unknown => exact absurd rfl h
  | plaintext =>
    apply List.length_pos_of_ne_nil
    simp [writeResponseSync, hplain]
  | json =>
    apply List.length_pos_of_ne_nil
    simp [writeResponseSync, hjson]

theorem length_ownResponses_le (dateHeader : List UInt8) (blocks : List HeadBlock) (left : List UInt8) :
    (ownResponses dateHeader blocks).length ≤ (routed dateHeader blocks left).length := by
  induction blocks with
  | nil => exact Nat.le_refl _
  | cons block blocks ih =>
    rw [ownResponses, List.flatMap_cons, routed, List.length_append, List.length_append]
    apply Nat.add_le_add _ ih
    obtain hsame | hunknown := routeOf_text block (blocks.flatMap HeadBlock.text ++ left)
    · rw [hsame]
    · rw [hunknown]
      exact Nat.zero_le _

/-- A borrowed url adds a response. -/
theorem ownUrls_of_routed_eq {dateHeader : List UInt8} {blocks : List HeadBlock} {left : List UInt8}
    (h : routed dateHeader blocks left = ownResponses dateHeader blocks) : OwnUrls blocks left := by
  induction blocks with
  | nil =>
    intro before block after heq
    simp at heq
  | cons block blocks ih =>
    have hcons : ownResponses dateHeader (block :: blocks) =
        writeResponseSync dateHeader (routeOf block.firstLine) ++ ownResponses dateHeader blocks := rfl
    have hfirst : routeOf (block.text ++ (blocks.flatMap HeadBlock.text ++ left)) =
        routeOf block.firstLine := by
      obtain hsame | hunknown := routeOf_text block (blocks.flatMap HeadBlock.text ++ left)
      · exact hsame
      · by_contra hne
        rw [hunknown] at hne
        have hpos := writeResponseSync_ne_nil dateHeader hne
        have hle := length_ownResponses_le dateHeader blocks left
        have hlength := congrArg List.length h
        rw [hcons, hunknown, routed, List.length_append, List.length_append] at hlength
        simp only [writeResponseSync, List.length_nil] at hlength hpos
        omega
    rw [hcons, routed, hfirst] at h
    exact ownUrls_cons.mpr ⟨hfirst, ih (List.append_cancel_left h)⟩

/-- One read: the complete blocks of what was left over and the new bytes. -/
theorem Session.receive_eq (dateHeader : List UInt8) (session : Session) (new : List UInt8) {fuel : ℕ}
    (hfuel : (session.unconsumed ++ new).length + 1 < fuel) :
    session.receive dateHeader fuel new = some
      ⟨(headBlocks.frames (session.unconsumed ++ new)).2, session.written ++
        routed dateHeader (headBlocks.frames (session.unconsumed ++ new)).1
          (headBlocks.frames (session.unconsumed ++ new)).2⟩ := by
  have hunread : (⟨session.unconsumed ++ new, 0⟩ : SequenceReader).unread = session.unconsumed ++ new :=
    rfl
  have hsplit : (headBlocks.frames (session.unconsumed ++ new)).1.flatMap HeadBlock.text ++
      (headBlocks.frames (session.unconsumed ++ new)).2 = session.unconsumed ++ new :=
    Framer.flatMap_frames headBlocks _
  have hdrop : (session.unconsumed ++ new).drop
      ((headBlocks.frames (session.unconsumed ++ new)).1.flatMap HeadBlock.text).length =
      (headBlocks.frames (session.unconsumed ++ new)).2 := by
    have h := congrArg (List.drop ((headBlocks.frames (session.unconsumed ++ new)).1.flatMap
      HeadBlock.text).length) hsplit
    rw [List.drop_left] at h
    exact h.symm
  rw [Session.receive, processRequests, processRequestsFrom_eq (hunread ▸ hfuel), hunread]
  simp only [Option.map_some, Nat.zero_add, List.nil_append, hdrop]

/-- Over the reads of a stream in which every block has its own url. -/
theorem receiveLoop_of_ownUrls (dateHeader : List UInt8) {fuel : ℕ} {reads : List (List UInt8)}
    (hfuel : reads.flatten.length + 1 < fuel)
    (h : OwnUrls (headBlocks.frames reads.flatten).1 (headBlocks.frames reads.flatten).2) :
    receiveLoop dateHeader fuel reads = some ⟨(headBlocks.frames reads.flatten).2,
      ownResponses dateHeader (headBlocks.frames reads.flatten).1⟩ := by
  induction reads using List.reverseRecOn with
  | nil =>
    have hempty : headBlocks.frames ([] : List UInt8) = ([], []) := Framer.frames_of_none rfl
    rw [List.flatten_nil, hempty]
    rfl
  | append_singleton reads new ih =>
    have hflatten : (reads ++ [new]).flatten = reads.flatten ++ new := by simp
    rw [hflatten] at hfuel h ⊢
    have happend := Framer.frames_append headBlocks reads.flatten new
    rw [happend] at h ⊢
    have hleft := Framer.flatMap_frames headBlocks ((headBlocks.frames reads.flatten).2 ++ new)
    have hreads := ih (by rw [List.length_append] at hfuel; omega) (ownUrls_of_append hleft.symm h)
    have hshorter : ((headBlocks.frames reads.flatten).2 ++ new).length + 1 < fuel := by
      have hsplit := congrArg List.length (Framer.flatMap_frames headBlocks reads.flatten)
      rw [List.length_append] at hsplit hfuel ⊢
      omega
    rw [receiveLoop, List.foldlM_append]
    rw [receiveLoop] at hreads
    rw [hreads]
    simp only [bind, Option.bind, List.foldlM_cons, List.foldlM_nil]
    rw [Session.receive_eq dateHeader _ _ hshorter, routed_eq (ownUrls_append h)]
    simp [ownResponses, pure]

/-- Over every segmentation of a stream the loop ends, leaves the bytes of the incomplete block, and
writes the response of each complete block to its own first line, exactly when every block has its own
url. -/
theorem receiveLoop_correct_iff (dateHeader s : List UInt8) :
    (∀ reads : List (List UInt8), reads.flatten = s → ∀ fuel, s.length + 1 < fuel →
      receiveLoop dateHeader fuel reads =
        some ⟨(headBlocks.frames s).2, ownResponses dateHeader (headBlocks.frames s).1⟩) ↔
      OwnUrls (headBlocks.frames s).1 (headBlocks.frames s).2 := by
  constructor
  · intro h
    have hone := h [s] (by simp) (s.length + 2) (by omega)
    have hreceive := Session.receive_eq dateHeader {} s
      (show ([] ++ s).length + 1 < s.length + 2 by simp)
    rw [receiveLoop, List.foldlM_cons, hreceive] at hone
    simp only [bind, Option.bind, List.foldlM_nil, pure, List.nil_append, Option.some.injEq,
      Session.mk.injEq, true_and] at hone
    exact ownUrls_of_routed_eq hone
  · rintro h reads rfl fuel hfuel
    exact receiveLoop_of_ownUrls dateHeader hfuel h

/-- A first line without spaces, with a header that has two: the plaintext response is written. -/
theorem receiveLoop_of_header :
    (receiveLoop [] 40 [ascii "GET\r\nX: /plaintext b\r\n\r\n"]).map Session.written =
      some (writeResponseSync [] .plaintext) ∧
    ownResponses [] (headBlocks.frames (ascii "GET\r\nX: /plaintext b\r\n\r\n")).1 = [] := by
  decide +kernel

end FrameworkBenchmarks.TouchSocket
