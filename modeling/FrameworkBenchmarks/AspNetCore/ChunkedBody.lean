import FrameworkBenchmarks.AspNetCore.ChunkedPipeWriter

/-!
# What the chunked pipe writer emits

The width of a chunk header is fixed by the length of the memory, the offsets behind it by the number
of buffered bytes. A chunk is well formed when `CountHexDigits` agrees on both and the memory has
room for the line end. Between two calls the writer then carries complete chunks in its output and a
reserved header with the bytes of the next chunk in its memory.
-/

namespace FrameworkBenchmarks.AspNetCore

open FrameworkBenchmarks.Common

variable {memories : Memories} {w : ChunkedPipeWriter} {payload : List UInt8}

/-! ### Digits, additions and copies -/

/-- Above sixteen the digits are counted by the logarithm to the base sixteen. -/
theorem countHexDigits_of_lt {n : ℕ} (h : 16 < n) : countHexDigits n = Nat.log 16 n + 1 := by
  have hlog : Nat.log 16 n = Nat.log 2 n / 4 := Nat.log_pow_left 2 4 n
  rw [countHexDigits, if_neg (by omega), hlog, Nat.shiftRight_eq_div_pow]

/-- `CountHexDigits` is one short at sixteen and right elsewhere. -/
theorem length_digits {n : ℕ} (hpos : 0 < n) (h : n ≠ 16) :
    (Nat.digits 16 n).length = countHexDigits n := by
  rw [Nat.length_digits 16 n (by norm_num) hpos.ne']
  by_cases hlt : 16 < n
  · rw [countHexDigits_of_lt hlt]
  · have hlog : Nat.log 16 n = 0 := Nat.log_of_lt (by omega)
    rw [countHexDigits, if_pos (by omega), hlog]

/-- A longer memory has no shorter header. -/
theorem countHexDigits_mono {m n : ℕ} (h : m ≤ n) : countHexDigits m ≤ countHexDigits n := by
  by_cases hm : 16 < m
  · rw [countHexDigits_of_lt hm, countHexDigits_of_lt (by omega)]
    exact Nat.add_le_add_right (Nat.log_mono_right h) 1
  · have hone : countHexDigits m = 1 := if_pos (by omega)
    rw [hone]
    unfold countHexDigits
    split <;> omega

/-- In a memory of the smallest size the header takes at least two digits. -/
theorem two_le_countHexDigits {n : ℕ} (h : 64 ≤ n) : 2 ≤ countHexDigits n := by
  have hsmall : countHexDigits 64 = 2 := by
    have hlog : Nat.log 16 64 = 1 := Nat.log_eq_of_pow_le_of_lt_pow (by norm_num) (by norm_num)
    rw [countHexDigits_of_lt (by norm_num), hlog]
  exact hsmall ▸ countHexDigits_mono h

/-- A header leaves room for content. -/
theorem countHexDigits_add_lt {n : ℕ} (h : 64 ≤ n) : countHexDigits n + 4 < n := by
  have hlog : Nat.log 2 n < n := Nat.log_lt_self 2 (by omega)
  unfold countHexDigits
  rw [if_neg (by omega), Nat.shiftRight_eq_div_pow]
  omega

/-- An addition that does not overflow. -/
theorem addInt_eq {a b : ℕ} (h : a + b < 2 ^ 31) : addInt a b = (a + b : ℕ) := by
  have hlow : -(4294967296 : ℤ) ≤ ((a : ℤ) + b) * 2 := by omega
  have hhigh : ((a : ℤ) + b) * 2 < 4294967296 := by omega
  unfold addInt
  rw [Nat.cast_add]
  exact Int.bmod_eq_of_le_mul_two (y := 2 ^ 32) (by simpa using hlow) (by simpa using hhigh)

/-- Bytes copied over as many bytes leave what is before and behind them. -/
theorem copyTo_append (front : List UInt8) {old bytes : List UInt8} (back : List UInt8)
    (h : old.length = bytes.length) :
    copyTo bytes (front ++ old ++ back) front.length = .ok (front ++ bytes ++ back) := by
  have hfits : ¬(front ++ old ++ back).length < front.length := by
    simp only [List.length_append]
    omega
  have hroom : ¬(front ++ old ++ back).length < front.length + bytes.length := by
    simp only [List.length_append]
    omega
  have htake : (front ++ old ++ back).take front.length = front := by
    simp
  have hdrop : (front ++ old ++ back).drop (front.length + bytes.length) = back := by
    rw [← h, ← List.length_append, List.drop_left]
  rw [copyTo, if_neg hfits, if_neg hroom, htake, hdrop]

/-- Bytes copied to the start of a memory that is long enough. -/
theorem copyTo_zero (bytes memory : List UInt8) (h : bytes.length ≤ memory.length) :
    copyTo bytes memory 0 = .ok (bytes ++ memory.drop bytes.length) := by
  have hroom : ¬memory.length < 0 + bytes.length := by omega
  rw [copyTo, if_neg (by omega), if_neg hroom, List.take_zero, List.nil_append, Nat.zero_add]

/-! ### The invariant -/

/-- The reserved header of a memory of a given length. -/
def emptyHeader (length : ℕ) : List UInt8 := List.replicate (countHexDigits length) 48 ++ crlf

theorem length_emptyHeader (length : ℕ) : (emptyHeader length).length = countHexDigits length + 2 := by
  simp [emptyHeader, crlf]

namespace ChunkedPipeWriter

/-- The output has been advanced over the chunks of some bytes, and the memory holds a reserved
header and further bytes: together they are the payload. -/
structure Carries (w : ChunkedPipeWriter) (payload : List UInt8) : Prop where
  notEnded : w.ended = false
  hint : 64 ≤ w.chunkSizeHint
  size : 64 ≤ w.currentFullChunk.length
  format : w.hexFormat ≤ countHexDigits w.currentFullChunk.length
  start : w.currentChunkStart = countHexDigits w.currentFullChunk.length + 2 + w.buffered
  content : ∃ coded committed pending free calls, w.output = some ⟨coded, calls⟩ ∧
    CodedChunks coded committed ∧
    w.currentFullChunk = emptyHeader w.currentFullChunk.length ++ pending ++ free ∧
    pending.length = w.buffered ∧ payload = committed ++ pending

/-- The state in which a commit of buffered bytes is well formed. -/
def CommitFits (w : ChunkedPipeWriter) : Prop :=
  countHexDigits w.buffered = countHexDigits w.currentFullChunk.length ∧ 2 ≤ w.currentChunkLength

instance (w : ChunkedPipeWriter) : Decidable w.CommitFits :=
  inferInstanceAs (Decidable (_ ∧ _))

/-- The iterations of the loop of `WriteMultiBuffer`. -/
inductive Iterates (memories : Memories) :
    List UInt8 → ChunkedPipeWriter → List UInt8 → ChunkedPipeWriter → Prop
  | refl (source : List UInt8) (w : ChunkedPipeWriter) : Iterates memories source w source w
  | step {source rest rest' : List UInt8} {w w' w'' : ChunkedPipeWriter} (hmore : source ≠ [])
      (hiteration : w.writeIteration memories source = .ok (rest, w'))
      (hrest : Iterates memories rest w' rest' w'') : Iterates memories source w rest' w''

/-- Before every iteration there is room for a line end, and where that is all the room there is, the
commit is well formed. -/
def WriteFits (memories : Memories) (source : List UInt8) (w : ChunkedPipeWriter) : Prop :=
  ∀ rest w', Iterates memories source w rest w' → rest ≠ [] →
    2 ≤ w'.currentChunkLength ∧ (w'.currentChunkLength = 2 → w'.CommitFits)

/-- The states in which a call may be made. -/
def CallFits (memories : Memories) (w : ChunkedPipeWriter) : Call → Prop
  | .write source => source.length + 2 < 2 ^ 31 ∧
      (w.currentChunkLength < source.length + 2 → w.WriteFits memories source)
  | .getMemory sizeHint =>
      (w.currentChunkLength : ℤ) ≤ sizeHint → 0 < w.buffered → w.CommitFits
  | .advance bytes => bytes.length ≤ w.currentChunkLength
  | .flushAsync => 0 < w.buffered → w.CommitFits

/-- The states in which the body may be completed. -/
def CompleteFits (w : ChunkedPipeWriter) : Prop :=
  0 < w.buffered ∧ w.CommitFits ∧ w.currentChunkStart + 7 < 2 ^ 31

instance (w : ChunkedPipeWriter) : Decidable w.CompleteFits :=
  inferInstanceAs (Decidable (_ ∧ _ ∧ _))

/-- Every call of a response, and its completion, is made in a state in which it may be. -/
def BodyFits (memories : Memories) (fuel : ℕ) : ChunkedPipeWriter → List Call → Prop
  | w, [] => w.CompleteFits
  | w, c :: cs => w.CallFits memories c ∧
      ∀ w', w.call memories fuel c = .ok w' → BodyFits memories fuel w' cs

/-! ### Chunks -/

theorem throwIfEnded_ok (h : w.ended = false) : w.throwIfEnded = .ok () := by
  rw [throwIfEnded, h]
  rfl

/-- The format is updated so that it never asks for more digits than the header has. -/
theorem hexFormat_le {isFirst : Bool} {old new hint format : ℕ}
    (hfirst : isFirst = true → defaultChunkSizeHint = hint → format ≤ new)
    (hlater : isFirst = false → format ≤ old) :
    (if (isFirst = false ∧ (if isFirst then -1 else (old : ℤ)) ≠ new) ∨
        (isFirst = true ∧ defaultChunkSizeHint ≠ hint) then new else format) ≤ new := by
  cases isFirst with
  | true =>
    by_cases hdefault : defaultChunkSizeHint = hint
    · simpa [hdefault] using hfirst rfl hdefault
    · simp [hdefault]
  | false =>
    by_cases hsame : old = new
    · simpa [hsame] using hsame ▸ hlater rfl
    · simp [hsame]

/-- A new chunk is a reserved header in a memory of at least the hinted size. -/
theorem startNewChunk_spec (memories : Memories) {coded : List UInt8} {getMemoryCalls : ℕ}
    (isFirst : Bool) (sizeHint : ℤ)
    (hended : w.ended = false) (houtput : w.output = some ⟨coded, getMemoryCalls⟩)
    (hhint : 64 ≤ w.chunkSizeHint)
    (hfirst : isFirst = true → w.hexFormat = defaultHexFormat)
    (hlater : isFirst = false → w.hexFormat ≤ countHexDigits w.currentFullChunk.length) :
    ∃ full hexFormat free, w.startNewChunk memories sizeHint isFirst = .ok { w with
        output := some ⟨coded, getMemoryCalls + 1⟩
        currentFullChunk := full
        currentChunkStart := countHexDigits full.length + 2
        hexFormat := hexFormat } ∧
      64 ≤ full.length ∧ hexFormat ≤ countHexDigits full.length ∧
      full = emptyHeader full.length ++ free := by
  set size := (max (w.chunkSizeHint : ℤ) sizeHint).toNat with hsize
  have hlength : w.chunkSizeHint ≤ (memories.memory getMemoryCalls size).length := by
    have := memories.length_ge getMemoryCalls size
    omega
  set memory := memories.memory getMemoryCalls size with hmemory
  have hroom := countHexDigits_add_lt (hhint.trans hlength)
  set digits := countHexDigits memory.length with hdigits
  -- The two copies of the header replace the first bytes of the memory.
  have hzeros : copyTo (List.replicate digits 48) memory 0 =
      .ok (List.replicate digits 48 ++ memory.drop digits) := by
    have h := copyTo_zero (List.replicate digits 48) memory
      (by rw [List.length_replicate]; omega)
    rwa [List.length_replicate] at h
  have hsplit : memory.drop digits = (memory.drop digits).take 2 ++ memory.drop (digits + 2) := by
    rw [← List.drop_drop, List.take_append_drop]
  have hcrlf : copyTo crlf (List.replicate digits 48 ++ memory.drop digits) digits =
      .ok (List.replicate digits 48 ++ crlf ++ memory.drop (digits + 2)) := by
    have hlength : ((memory.drop digits).take 2).length = crlf.length := by
      simp only [List.length_take, List.length_drop, crlf, List.length_cons, List.length_nil]
      omega
    have h := copyTo_append (List.replicate digits 48) (memory.drop (digits + 2)) hlength
    rwa [List.length_replicate, List.append_assoc, ← hsplit] at h
  set full := List.replicate digits 48 ++ crlf ++ memory.drop (digits + 2) with hfull
  have hfullLength : full.length = memory.length := by
    simp only [hfull, List.length_append, List.length_replicate, crlf, List.length_cons,
      List.length_nil, List.length_drop]
    omega
  refine ⟨full, if (isFirst = false ∧
      (if isFirst then -1 else (countHexDigits w.currentFullChunk.length : ℤ)) ≠ digits) ∨
      (isFirst = true ∧ defaultChunkSizeHint ≠ w.chunkSizeHint)
      then getHexFormat memory.length else w.hexFormat, memory.drop (digits + 2), ?_, ?_, ?_, ?_⟩
  · simp only [startNewChunk, throwIfEnded_ok hended, outputGetMemory, houtput, ← hsize, ← hmemory,
      ← hdigits, hzeros, hcrlf, hfullLength, bind, Except.bind, pure, Except.pure]
    rfl
  · omega
  · rw [hfullLength, hdigits]
    apply hexFormat_le
    · intro htrue hdefault
      rw [hfirst htrue]
      exact countHexDigits_mono (hdefault ▸ hlength)
    · exact hlater
  · rw [hfullLength, emptyHeader]

/-- The digits of a commit that fits are as many as the reserved header has. -/
theorem CommitFits.length_formatHex (hfits : w.CommitFits) (hbuffered : 0 < w.buffered)
    (hsize : 64 ≤ w.currentFullChunk.length)
    (hformat : w.hexFormat ≤ countHexDigits w.currentFullChunk.length) :
    (formatHex w.buffered w.hexFormat).length = countHexDigits w.buffered := by
  have hne : w.buffered ≠ 16 := by
    intro hsixteen
    have htwo := two_le_countHexDigits hsize
    have hone : countHexDigits 16 = 1 := rfl
    rw [← hfits.1, hsixteen] at htwo
    omega
  rw [Common.length_formatHex, length_digits hbuffered hne]
  exact max_eq_left (hfits.1 ▸ hformat)

/-- A commit that fits makes a chunk of the buffered bytes at the start of the memory. -/
theorem finishChunk_spec {pending free : List UInt8} (hfits : w.CommitFits)
    (hbuffered : 0 < w.buffered) (hsize : 64 ≤ w.currentFullChunk.length)
    (hformat : w.hexFormat ≤ countHexDigits w.currentFullChunk.length)
    (hstart : w.currentChunkStart = countHexDigits w.currentFullChunk.length + 2 + w.buffered)
    (hfull : w.currentFullChunk = emptyHeader w.currentFullChunk.length ++ pending ++ free)
    (hpending : pending.length = w.buffered) :
    w.finishChunk = .ok ({ w with
      currentFullChunk := encodeChunk w.hexFormat pending ++ free.drop 2 },
      (encodeChunk w.hexFormat pending).length) ∧
    (encodeChunk w.hexFormat pending).length = w.currentChunkStart + 2 ∧
    (encodeChunk w.hexFormat pending ++ free.drop 2).length = w.currentFullChunk.length := by
  have hdigits := hfits.length_formatHex hbuffered hsize hformat
  have hroom : 2 ≤ free.length := by
    have htwo := hfits.2
    have hlength := congrArg List.length hfull
    simp only [List.length_append, length_emptyHeader] at hlength
    rw [currentChunkLength] at htwo
    omega
  set formatted := formatHex w.buffered w.hexFormat with hformatted
  set zeros := List.replicate (countHexDigits w.currentFullChunk.length) (48 : UInt8) with hzeros
  have hwidth : zeros.length = formatted.length := by
    rw [hzeros, List.length_replicate, hdigits, hfits.1]
  have hencode : encodeChunk w.hexFormat pending = formatted ++ crlf ++ pending ++ crlf := by
    rw [encodeChunk, hpending]
  -- The digits replace the zeros, and the line end replaces the first two free bytes.
  have hheader : copyTo formatted w.currentFullChunk 0 =
      .ok (formatted ++ crlf ++ pending ++ free) := by
    have h := copyTo_append [] (crlf ++ pending ++ free) hwidth
    rw [hfull, emptyHeader]
    simpa using h
  have hsplit : free = free.take 2 ++ free.drop 2 := (List.take_append_drop 2 free).symm
  have hend : copyTo crlf (formatted ++ crlf ++ pending ++ free)
      (countHexDigits w.buffered + 2 + w.buffered) =
      .ok (formatted ++ crlf ++ pending ++ crlf ++ free.drop 2) := by
    have hlength : (free.take 2).length = crlf.length := by
      rw [List.length_take, Nat.min_eq_left hroom]
      rfl
    have h := copyTo_append (formatted ++ crlf ++ pending) (free.drop 2) hlength
    have hoffset : (formatted ++ crlf ++ pending).length =
        countHexDigits w.buffered + 2 + w.buffered := by
      simp only [List.length_append, hdigits, hpending, crlf, List.length_cons, List.length_nil]
    rwa [hoffset, List.append_assoc _ (free.take 2), ← hsplit] at h
  have hfits' : ¬w.currentFullChunk.length < formatted.length := by
    have := countHexDigits_add_lt hsize
    rw [← hwidth, hzeros, List.length_replicate]
    omega
  have hlength : (encodeChunk w.hexFormat pending).length = w.currentChunkStart + 2 := by
    simp only [hencode, List.length_append, hdigits, hpending, crlf, List.length_cons,
      List.length_nil, hstart, hfits.1]
  refine ⟨?_, hlength, ?_⟩
  · simp only [finishChunk, ← hformatted, if_neg hfits', hheader, hend, bind, Except.bind, pure,
      Except.pure, hencode]
    congr 2
    rw [← hencode, hlength, hstart, ← hfits.1]
    rfl
  · have hfullLength := congrArg List.length hfull
    simp only [List.length_append, length_emptyHeader] at hfullLength
    rw [List.length_append, List.length_drop, hlength, hstart]
    omega

/-- A commit that fits moves the buffered bytes into a chunk of the output. -/
theorem Carries.commit (memories : Memories) (hcarries : w.Carries payload) (hbuffered : 0 < w.buffered)
    (hfits : w.CommitFits) (sizeHint : ℤ) :
    ∃ w', w.commitCurrentChunk memories false sizeHint = .ok w' ∧ w'.Carries payload ∧
      w'.buffered = 0 := by
  obtain ⟨coded, committed, pending, free, calls, houtput, hchunks, hfull, hpending, rfl⟩ :=
    hcarries.content
  obtain ⟨hfinish, -, hlength⟩ := finishChunk_spec hfits hbuffered hcarries.size hcarries.format
    hcarries.start hfull hpending
  set chunk := encodeChunk w.hexFormat pending with hchunk
  have hne : pending ≠ [] := by
    rintro rfl
    rw [← hpending] at hbuffered
    exact absurd hbuffered (by decide)
  have htake : (chunk ++ free.drop 2).take chunk.length = chunk := List.take_left
  obtain ⟨full, hexFormat, free', hnew, hsize', hformat', hfull'⟩ := startNewChunk_spec
    (w := { w with
      output := some ⟨coded ++ chunk, calls⟩
      currentFullChunk := chunk ++ free.drop 2 })
    memories false sizeHint hcarries.notEnded rfl hcarries.hint
    (by intro h; cases h) (by intro _; rw [hlength]; exact hcarries.format)
  have hcommit : w.commitCurrentChunk memories false sizeHint = .ok { w with
      output := some ⟨coded ++ chunk, calls + 1⟩
      currentFullChunk := full
      currentChunkStart := countHexDigits full.length + 2
      hexFormat := hexFormat
      buffered := 0 } := by
    simp only [commitCurrentChunk, throwIfEnded_ok hcarries.notEnded, if_pos hbuffered, hfinish,
      outputAdvance, houtput, htake, hnew, bind, Except.bind, pure, Except.pure, if_true]
  refine ⟨_, hcommit, ?_, rfl⟩
  exact {
    notEnded := hcarries.notEnded
    hint := hcarries.hint
    size := hsize'
    format := hformat'
    start := rfl
    content := ⟨coded ++ chunk, committed ++ pending, [], free', calls + 1, rfl,
      hchunks.snoc w.hexFormat hne, by rwa [List.append_nil], rfl, by rw [List.append_nil]⟩ }

/-- A chunk in which nothing has been buffered is replaced by a new one. -/
theorem Carries.startNewChunk (memories : Memories) (hcarries : w.Carries payload)
    (hbuffered : w.buffered = 0) (sizeHint : ℤ) :
    ∃ w', w.startNewChunk memories sizeHint false = .ok w' ∧ w'.Carries payload ∧
      w'.buffered = 0 := by
  obtain ⟨coded, committed, pending, free, calls, houtput, hchunks, -, hpending, rfl⟩ :=
    hcarries.content
  obtain rfl : pending = [] := List.length_eq_zero_iff.mp (hpending.trans hbuffered)
  obtain ⟨full, hexFormat, free', hnew, hsize', hformat', hfull'⟩ := startNewChunk_spec memories false
    sizeHint hcarries.notEnded houtput hcarries.hint
    (by intro h; cases h) (fun _ => hcarries.format)
  refine ⟨_, hnew, ?_, hbuffered⟩
  exact {
    notEnded := hcarries.notEnded
    hint := hcarries.hint
    size := hsize'
    format := hformat'
    start := by rw [hbuffered]
    content := ⟨coded, committed, [], free', calls + 1, rfl, hchunks, by rwa [List.append_nil],
      hbuffered.symm, rfl⟩ }

/-- A new or reset writer carries nothing once its output is set. -/
theorem carries_setOutput (memories : Memories) (w : ChunkedPipeWriter) {chunkSizeHint : ℕ}
    (hhint : 64 ≤ chunkSizeHint) :
    ∃ w', w.reset.setOutput memories chunkSizeHint = .ok w' ∧ w'.Carries [] := by
  obtain ⟨full, hexFormat, free, hnew, hsize, hformat, hfull⟩ := startNewChunk_spec
    (w := { w.reset with
      buffered := 0, unflushedBytes := 0, chunkSizeHint := chunkSizeHint, output := some {} })
    memories true chunkSizeHint rfl rfl hhint (fun _ => rfl) (by intro h; cases h)
  refine ⟨_, hnew, ?_⟩
  exact {
    notEnded := rfl
    hint := hhint
    size := hsize
    format := hformat
    start := rfl
    content := ⟨[], [], [], free, 1, rfl, .nil, by rwa [List.append_nil], rfl, rfl⟩ }

/-! ### Calls -/

/-- An empty chunk has room for content. -/
theorem Carries.two_lt_currentChunkLength (hcarries : w.Carries payload) (hbuffered : w.buffered = 0) :
    2 < w.currentChunkLength := by
  have hroom := countHexDigits_add_lt hcarries.size
  have hstart := hcarries.start
  unfold currentChunkLength
  omega

/-- Bytes that fit into the current chunk are added to the payload. -/
theorem Carries.copyAndAdvance (hcarries : w.Carries payload) (source : List UInt8)
    (hlength : source.length ≤ w.currentChunkLength) :
    ∃ w', w.copyAndAdvance source = .ok w' ∧ w'.Carries (payload ++ source) ∧
      w'.currentChunkLength + source.length = w.currentChunkLength := by
  obtain ⟨coded, committed, pending, free, calls, houtput, hchunks, hfull, hpending, rfl⟩ :=
    hcarries.content
  have hstart : (emptyHeader w.currentFullChunk.length ++ pending).length = w.currentChunkStart := by
    rw [List.length_append, length_emptyHeader, hpending, hcarries.start]
  have hfree : free.length = w.currentChunkLength := by
    have h := congrArg List.length hfull
    rw [List.length_append, hstart] at h
    rw [currentChunkLength]
    omega
  have hsplit : free = free.take source.length ++ free.drop source.length :=
    (List.take_append_drop source.length free).symm
  set full := emptyHeader w.currentFullChunk.length ++ pending ++ source ++ free.drop source.length
    with hfull'
  have hfullLength : full.length = w.currentFullChunk.length := by
    have h := congrArg List.length hfull
    simp only [hfull', List.length_append, List.length_drop] at h ⊢
    omega
  have hcopy : copyTo source w.currentFullChunk w.currentChunkStart = .ok full := by
    have hlength : (free.take source.length).length = source.length := by
      rw [List.length_take]
      omega
    have h := copyTo_append (emptyHeader w.currentFullChunk.length ++ pending)
      (free.drop source.length) hlength
    rwa [hstart, List.append_assoc _ (free.take source.length), ← hsplit, ← hfull] at h
  have hroom : ¬({ w with currentFullChunk := full } : ChunkedPipeWriter).currentChunkLength <
      source.length := by
    simp only [currentChunkLength, hfullLength] at hlength ⊢
    omega
  have hadvance : w.copyAndAdvance source = .ok { w with
      currentFullChunk := full
      buffered := w.buffered + source.length
      unflushedBytes := w.unflushedBytes + source.length
      currentChunkStart := w.currentChunkStart + source.length } := by
    simp only [ChunkedPipeWriter.copyAndAdvance, hcopy, advance,
      throwIfEnded_ok (w := { w with currentFullChunk := full }) hcarries.notEnded, if_neg hroom,
      bind, Except.bind, pure, Except.pure]
  refine ⟨_, hadvance, ?_, ?_⟩
  · exact {
      notEnded := hcarries.notEnded
      hint := hcarries.hint
      size := hfullLength ▸ hcarries.size
      format := hfullLength ▸ hcarries.format
      start := by
        show w.currentChunkStart + source.length = _
        rw [hfullLength, hcarries.start, Nat.add_assoc]
      content := ⟨coded, committed, pending ++ source, free.drop source.length, calls, houtput,
        hchunks, by rw [hfullLength, hfull', List.append_assoc _ pending],
        by rw [List.length_append, hpending], by rw [List.append_assoc]⟩ }
  · simp only [currentChunkLength, hfullLength] at hlength ⊢
    omega

/-- More room is made by committing what is buffered or by replacing an empty chunk. -/
theorem Carries.ensureMore (memories : Memories) (hcarries : w.Carries payload)
    (hfits : 0 < w.buffered → w.CommitFits) (count : ℤ) :
    ∃ w', w.ensureMore memories count = .ok w' ∧ w'.Carries payload ∧
      (count > w.currentChunkLength - w.buffered - 2 → w'.buffered = 0) := by
  unfold ChunkedPipeWriter.ensureMore
  by_cases hmore : count > w.currentChunkLength - w.buffered - 2
  · rw [if_pos hmore]
    by_cases hbuffered : 0 < w.buffered
    · rw [if_pos hbuffered]
      obtain ⟨w', hcommit, hcarries', hempty⟩ :=
        hcarries.commit memories hbuffered (hfits hbuffered) count
      exact ⟨w', hcommit, hcarries', fun _ => hempty⟩
    · rw [if_neg hbuffered]
      obtain ⟨w', hnew, hcarries', hempty⟩ := hcarries.startNewChunk memories (by omega) count
      exact ⟨w', hnew, hcarries', fun _ => hempty⟩
  · rw [if_neg hmore]
    exact ⟨w, rfl, hcarries, fun h => absurd h hmore⟩

/-- After the first statement of the loop there is room for at least one byte and a line end. -/
theorem Carries.ensureWritable (memories : Memories) (hcarries : w.Carries payload)
    (hroom : 2 ≤ w.currentChunkLength)
    (hfits : w.currentChunkLength = 2 → w.CommitFits) :
    ∃ w', w.ensureWritable memories = .ok w' ∧ w'.Carries payload ∧ 2 < w'.currentChunkLength := by
  unfold ChunkedPipeWriter.ensureWritable
  by_cases htwo : w.currentChunkLength = 2
  · obtain ⟨w', hensure, hcarries', hempty⟩ := hcarries.ensureMore memories
      (fun _ => hfits htwo) 0
    have hbuffered : 0 < w.buffered := by
      by_contra hzero
      have := hcarries.two_lt_currentChunkLength (by omega)
      omega
    rw [if_pos (by omega)]
    exact ⟨w', hensure, hcarries', hcarries'.two_lt_currentChunkLength (hempty (by omega))⟩
  · rw [if_neg (by omega)]
    exact ⟨w, rfl, hcarries, by omega⟩

/-- One iteration of the loop moves a part of the source that is not empty. -/
theorem Carries.writeIteration (hcarries : w.Carries payload) {source : List UInt8}
    (hsource : source ≠ []) (hroom : 2 ≤ w.currentChunkLength)
    (hfits : w.currentChunkLength = 2 → w.CommitFits) :
    ∃ piece rest w', w.writeIteration memories source = .ok (rest, w') ∧ source = piece ++ rest ∧
      rest.length < source.length ∧ w'.Carries (payload ++ piece) := by
  obtain ⟨w₁, hensure, hcarries₁, hroom₁⟩ :=
    hcarries.ensureWritable memories hroom hfits
  have hpos : 0 < source.length := List.length_pos_of_ne_nil hsource
  set writable : ℤ := min (source.length : ℤ) (w₁.currentChunkLength - 2) with hwritable
  have hwritable_pos : 0 < writable.toNat := by omega
  have hwritable_le : writable.toNat ≤ source.length := by omega
  have hpiece : (source.take writable.toNat).length = writable.toNat := by
    rw [List.length_take, Nat.min_eq_left hwritable_le]
  obtain ⟨w', hcopy, hcarries', -⟩ := hcarries₁.copyAndAdvance
    (source.take writable.toNat) (by rw [hpiece]; omega)
  refine ⟨source.take writable.toNat, source.drop writable.toNat, w', ?_,
    (List.take_append_drop writable.toNat source).symm, ?_, hcarries'⟩
  · have hnonneg : ¬writable < 0 := by omega
    simp only [ChunkedPipeWriter.writeIteration, hensure, ← hwritable, if_neg hnonneg, hcopy, bind,
      Except.bind, pure, Except.pure]
  · rw [List.length_drop]
    omega

/-- The loop ends with the whole source written. The induction is on what is left of the source,
which every iteration makes shorter. -/
theorem Carries.writeMultiBuffer (hcarries : w.Carries payload) (fuel : ℕ) {source : List UInt8}
    (hfuel : source.length ≤ fuel) (hfits : w.WriteFits memories source) :
    ∃ w', w.writeMultiBuffer memories fuel source = .ok w' ∧ w'.Carries (payload ++ source) := by
  induction fuel generalizing source w payload with
  | zero =>
    obtain rfl : source = [] := List.length_eq_zero_iff.mp (Nat.le_zero.mp hfuel)
    exact ⟨w, rfl, by rwa [List.append_nil]⟩
  | succ fuel ih =>
    by_cases hsource : source = []
    · subst hsource
      exact ⟨w, rfl, by rwa [List.append_nil]⟩
    · obtain ⟨hroom, hcommit⟩ := hfits source w (.refl source w) hsource
      obtain ⟨piece, rest, w₁, hiteration, hsplit, hshorter, hcarries₁⟩ :=
        hcarries.writeIteration hsource hroom hcommit
      have hfits₁ : w₁.WriteFits memories rest := by
        intro rest' w' hiterates
        exact hfits rest' w' (.step hsource hiteration hiterates)
      obtain ⟨w', hloop, hcarries'⟩ := ih hcarries₁ (by omega) hfits₁
      refine ⟨w', ?_, by rwa [hsplit, ← List.append_assoc]⟩
      obtain ⟨byte, bytes, rfl⟩ := List.exists_cons_of_ne_nil hsource
      simp only [ChunkedPipeWriter.writeMultiBuffer, hiteration, bind, Except.bind, hloop]

/-- A call that fits returns and adds the bytes it writes to the payload. -/
theorem Carries.call (hcarries : w.Carries payload) (fuel : ℕ) {c : Call}
    (hfuel : c.written.length ≤ fuel) (hfits : w.CallFits memories c) :
    ∃ w', w.call memories fuel c = .ok w' ∧ w'.Carries (payload ++ c.written) := by
  cases c with
  | write source =>
    obtain ⟨hint, hlong⟩ := hfits
    simp only [ChunkedPipeWriter.call, write, throwIfEnded_ok hcarries.notEnded, bind, Except.bind,
      addInt_eq (show source.length + 2 < 2 ^ 31 from hint), Nat.cast_le]
    by_cases hshort : source.length + 2 ≤ w.currentChunkLength
    · rw [if_pos hshort]
      obtain ⟨w', hcopy, hcarries', -⟩ := hcarries.copyAndAdvance source (by omega)
      exact ⟨w', hcopy, hcarries'⟩
    · rw [if_neg hshort]
      exact hcarries.writeMultiBuffer fuel hfuel (hlong (by omega))
  | getMemory sizeHint =>
    simp only [ChunkedPipeWriter.call, getMemory, throwIfEnded_ok hcarries.notEnded, bind,
      Except.bind, Call.written, List.append_nil]
    by_cases hmore : (w.currentChunkLength : ℤ) ≤ sizeHint
    · rw [if_pos hmore]
      obtain ⟨w', hensure, hcarries', -⟩ := hcarries.ensureMore memories (hfits hmore) sizeHint
      exact ⟨w', hensure, hcarries'⟩
    · rw [if_neg hmore]
      exact ⟨w, rfl, hcarries⟩
  | advance bytes =>
    obtain ⟨w', hcopy, hcarries', -⟩ := hcarries.copyAndAdvance _ hfits
    exact ⟨w', hcopy, hcarries'⟩
  | flushAsync =>
    simp only [ChunkedPipeWriter.call, flushAsync, Call.written, List.append_nil]
    by_cases hbuffered : 0 < w.buffered
    · obtain ⟨w', hcommit, hcarries', -⟩ := hcarries.commit memories hbuffered
        (hfits hbuffered) 0
      rw [hcommit]
      exact ⟨{ w' with unflushedBytes := 0 }, rfl, { hcarries' with }⟩
    · have hcommit : w.commitCurrentChunk memories false 0 = .ok w := by
        simp only [commitCurrentChunk, throwIfEnded_ok hcarries.notEnded, if_neg hbuffered, bind,
          Except.bind, pure, Except.pure]
      rw [hcommit]
      exact ⟨{ w with unflushedBytes := 0 }, rfl, { hcarries with }⟩

/-- Completion of a body that fits adds the last chunk, in the memory or behind it. -/
theorem Carries.complete (hcarries : w.Carries payload) (hfits : w.CompleteFits) :
    ∃ w' coded calls, w.complete memories = .ok w' ∧ w'.output = some ⟨coded, calls⟩ ∧
      decodeChunked coded = some payload := by
  obtain ⟨hbuffered, hcommit, hint⟩ := hfits
  obtain ⟨coded, committed, pending, free, calls, houtput, hchunks, hfull, hpending, rfl⟩ :=
    hcarries.content
  obtain ⟨hfinish, htotal, hlength⟩ := finishChunk_spec hcommit hbuffered hcarries.size
    hcarries.format hcarries.start hfull hpending
  have hne : pending ≠ [] := by
    rintro rfl
    rw [← hpending] at hbuffered
    exact absurd hbuffered (by decide)
  have hdecode := (hchunks.snoc w.hexFormat hne).decodeChunked_lastChunk
  set chunk := encodeChunk w.hexFormat pending with hchunk
  have hsum : addInt chunk.length lastChunk.length = (chunk.length + lastChunk.length : ℕ) := by
    have hfive : lastChunk.length = 5 := rfl
    exact addInt_eq (by omega)
  by_cases hroom : chunk.length + lastChunk.length ≤ (chunk ++ free.drop 2).length
  · -- The last chunk is written into the memory.
    have hspace : lastChunk.length ≤ (free.drop 2).length := by
      rw [List.length_append] at hroom
      omega
    have hsplit : free.drop 2 = (free.drop 2).take lastChunk.length ++
        (free.drop 2).drop lastChunk.length := (List.take_append_drop _ _).symm
    have hcopy : copyTo lastChunk (chunk ++ free.drop 2) chunk.length =
        .ok (chunk ++ lastChunk ++ (free.drop 2).drop lastChunk.length) := by
      have hlength : ((free.drop 2).take lastChunk.length).length = lastChunk.length := by
        rw [List.length_take, Nat.min_eq_left hspace]
      have h := copyTo_append chunk ((free.drop 2).drop lastChunk.length) hlength
      rwa [List.append_assoc, ← hsplit] at h
    have htake : (chunk ++ lastChunk ++ (free.drop 2).drop lastChunk.length).take
        (chunk.length + lastChunk.length) = chunk ++ lastChunk := by
      rw [← List.length_append, List.take_left]
    have hcomplete : w.complete memories = .ok { w with
        output := some ⟨coded ++ (chunk ++ lastChunk), calls⟩
        currentFullChunk := chunk ++ lastChunk ++ (free.drop 2).drop lastChunk.length
        buffered := 0
        ended := true } := by
      simp only [ChunkedPipeWriter.complete, commitCurrentChunk, throwIfEnded_ok hcarries.notEnded,
        if_pos hbuffered, hfinish, outputAdvance, houtput, hsum, Nat.cast_le, if_pos hroom, hcopy,
        htake, bind, Except.bind, pure, Except.pure, Bool.true_eq_false, if_false]
    exact ⟨_, _, _, hcomplete, rfl, List.append_assoc coded chunk lastChunk ▸ hdecode⟩
  · -- The last chunk is written behind the memory.
    have htake : (chunk ++ free.drop 2).take chunk.length = chunk := List.take_left
    have hcomplete : w.complete memories = .ok { w with
        output := some ⟨coded ++ chunk ++ lastChunk, calls + 1⟩
        currentFullChunk := chunk ++ free.drop 2
        buffered := 0
        ended := true } := by
      simp only [ChunkedPipeWriter.complete, commitCurrentChunk, throwIfEnded_ok hcarries.notEnded,
        if_pos hbuffered, hfinish, outputAdvance, outputWrite, houtput, hsum, Nat.cast_le,
        if_neg hroom, htake, bind, Except.bind, pure, Except.pure, Bool.true_eq_false, if_false]
    exact ⟨_, _, _, hcomplete, rfl, hdecode⟩

/-- Completion with nothing buffered adds no last chunk, and what has been emitted is no body. -/
theorem Carries.complete_of_buffered_eq_zero (hcarries : w.Carries payload)
    (hbuffered : w.buffered = 0) :
    ∃ w' coded calls, w.complete memories = .ok w' ∧ w'.output = some ⟨coded, calls⟩ ∧
      decodeChunked coded = none := by
  obtain ⟨coded, committed, pending, free, calls, houtput, hchunks, -⟩ := hcarries.content
  have hnothing : ¬0 < w.buffered := by omega
  refine ⟨{ w with ended := true }, coded, calls, ?_, houtput, hchunks.decodeChunked_eq_none⟩
  simp only [ChunkedPipeWriter.complete, commitCurrentChunk, throwIfEnded_ok hcarries.notEnded,
    if_neg hnothing, bind, Except.bind, pure, Except.pure]

/-- Calls that fit, and a completion that does, emit the chunked body of the payload. -/
theorem Carries.calls_complete (hcarries : w.Carries payload) (fuel : ℕ) {cs : List Call}
    (hfuel : ∀ c ∈ cs, c.written.length ≤ fuel) (hfits : w.BodyFits memories fuel cs) :
    ∃ w' w'' coded calls, w.calls memories fuel cs = .ok w' ∧ w'.complete memories = .ok w'' ∧
      w''.output = some ⟨coded, calls⟩ ∧
      decodeChunked coded = some (payload ++ cs.flatMap Call.written) := by
  induction cs generalizing w payload with
  | nil =>
    obtain ⟨w'', coded, calls, hcomplete, houtput, hdecode⟩ := hcarries.complete hfits
    exact ⟨w, w'', coded, calls, rfl, hcomplete, houtput, by rwa [List.flatMap_nil, List.append_nil]⟩
  | cons c cs ih =>
    obtain ⟨w₁, hcall, hcarries₁⟩ := hcarries.call fuel (hfuel c (List.mem_cons_self ..)) hfits.1
    obtain ⟨w', w'', coded, calls, hcalls, hcomplete, houtput, hdecode⟩ :=
      ih hcarries₁ (fun c' hc' => hfuel c' (List.mem_cons_of_mem _ hc')) (hfits.2 w₁ hcall)
    refine ⟨w', w'', coded, calls, ?_, hcomplete, houtput, ?_⟩
    · simp only [ChunkedPipeWriter.calls, List.foldlM_cons, hcall, bind, Except.bind] at hcalls ⊢
      exact hcalls
    · rwa [List.flatMap_cons, ← List.append_assoc]

/-- A body whose commits all fit, of a writer that is new or has been reset, is emitted as the
chunked coding of the written bytes. -/
theorem body_decodes (memories : Memories) (w : ChunkedPipeWriter) {chunkSizeHint : ℕ}
    (hhint : 64 ≤ chunkSizeHint) (cs : List Call) (fuel : ℕ)
    (hfuel : ∀ c ∈ cs, c.written.length ≤ fuel)
    (hfits : ∀ w', w.reset.setOutput memories chunkSizeHint = .ok w' → w'.BodyFits memories fuel cs) :
    ∃ coded, w.body memories fuel chunkSizeHint cs = .ok coded ∧
      decodeChunked coded = some (cs.flatMap Call.written) := by
  obtain ⟨w₀, hset, hcarries⟩ := carries_setOutput memories w hhint
  obtain ⟨w', w'', coded, calls, hcalls, hcomplete, houtput, hdecode⟩ :=
    hcarries.calls_complete fuel hfuel (hfits w₀ hset)
  refine ⟨coded, ?_, by rwa [List.nil_append] at hdecode⟩
  simp only [body, hset, hcalls, hcomplete, houtput, bind, Except.bind, pure, Except.pure]

/-- Memories of exactly the requested size. -/
def exactMemories : Memories where
  memory _ size := List.replicate size 0
  length_ge _ size := by rw [List.length_replicate]

/-- Two writes with a flush between them, into memories of 64 bytes. -/
theorem body_decodes_two_chunks :
    ∃ coded, ({} : ChunkedPipeWriter).body exactMemories 20 64
        [.write (List.replicate 20 65), .flushAsync, .write (List.replicate 20 66)] = .ok coded ∧
      decodeChunked coded = some (List.replicate 20 65 ++ List.replicate 20 66) := by
  refine body_decodes exactMemories {} (by decide) _ 20 (by decide) ?_
  rintro w ⟨⟩
  refine ⟨⟨by decide, fun h => absurd h (by decide)⟩, ?_⟩
  rintro w ⟨⟩
  refine ⟨fun _ => by decide, ?_⟩
  rintro w ⟨⟩
  refine ⟨⟨by decide, fun h => absurd h (by decide)⟩, ?_⟩
  rintro w ⟨⟩
  change CompleteFits _
  decide

/-- One byte in a memory of 64 bytes: the header has two digits and the line end is placed for one. -/
theorem body_of_one_byte :
    ∃ coded, ({} : ChunkedPipeWriter).body exactMemories 1 64 [.write [65]] = .ok coded ∧
      decodeChunked coded = none :=
  ⟨[48, 49, 13, 10, 13, 10, 48, 13, 10, 13, 10], by decide, by decide⟩

end ChunkedPipeWriter

end FrameworkBenchmarks.AspNetCore
