import Mathlib.Data.Nat.Digits.Lemmas

/-!
# HTTP/1.1 chunked transfer coding

A chunked body is a sequence of chunks, each of them a hexadecimal size, a line end, that many bytes
and a line end, closed by a chunk of size zero. The decoder is strict: it accepts neither chunk
extensions nor trailers, and nothing may follow the last chunk.
-/

namespace FrameworkBenchmarks.Common

/-- A carriage return and a line feed. -/
def crlf : List UInt8 := [13, 10]

/-- The last chunk, written with one zero, and the empty trailer section. -/
def lastChunk : List UInt8 := [48, 13, 10, 13, 10]

/-- The value of a hexadecimal digit of either case. -/
def hexValue (b : UInt8) : Option ℕ :=
  if 48 ≤ b.toNat ∧ b.toNat ≤ 57 then some (b.toNat - 48)
  else if 65 ≤ b.toNat ∧ b.toNat ≤ 70 then some (b.toNat - 55)
  else if 97 ≤ b.toNat ∧ b.toNat ≤ 102 then some (b.toNat - 87)
  else none

/-- The hexadecimal digits a text starts with, and what follows them. -/
def readHexDigits : List UInt8 → List ℕ × List UInt8
  | [] => ([], [])
  | b :: rest =>
    match hexValue b with
    | some digit => (digit :: (readHexDigits rest).1, (readHexDigits rest).2)
    | none => ([], b :: rest)

/-- A chunk size line: at least one digit and a line end. -/
def readChunkSize (coded : List UInt8) : Option (ℕ × List UInt8) :=
  match readHexDigits coded with
  | (digit :: digits, 13 :: 10 :: rest) =>
    some (Nat.ofDigits 16 (digit :: digits).reverse, rest)
  | _ => none

/-- Decode a chunked body of at most `fuel` chunks. -/
def decodeChunks : ℕ → List UInt8 → Option (List UInt8)
  | 0, _ => none
  | fuel + 1, coded =>
    match readChunkSize coded with
    | none => none
    | some (0, rest) => if rest = crlf then some [] else none
    | some (size + 1, rest) =>
      match rest.drop (size + 1) with
      | 13 :: 10 :: following => (decodeChunks fuel following).map (rest.take (size + 1) ++ ·)
      | _ => none

/-- Decode a chunked body. Every chunk takes at least one byte. -/
def decodeChunked (coded : List UInt8) : Option (List UInt8) := decodeChunks coded.length coded

/-- The upper case hexadecimal digit of a value below sixteen. -/
def hexDigit (value : ℕ) : UInt8 := if value < 10 then .ofNat (48 + value) else .ofNat (55 + value)

/-- The digits of a positive number in upper case, with leading zeros up to a number of places. -/
def formatHex (n places : ℕ) : List UInt8 :=
  ((Nat.digits 16 n ++ List.replicate (places - (Nat.digits 16 n).length) 0).reverse).map hexDigit

/-- Reading the digit written for a value returns the value. -/
theorem hexValue_hexDigit (value : ℕ) (h : value < 16) : hexValue (hexDigit value) = some value := by
  interval_cases value <;> decide

/-- Digits followed by something that is not one are read to their end. -/
theorem readHexDigits_map (values : List ℕ) (hvalues : ∀ value ∈ values, value < 16)
    (rest : List UInt8) :
    readHexDigits (values.map hexDigit ++ 13 :: rest) = (values, 13 :: rest) := by
  induction values with
  | nil => rfl
  | cons value values ih =>
    have hvalue : hexValue (hexDigit value) = some value :=
      hexValue_hexDigit value (hvalues value (List.mem_cons_self ..))
    have htail := ih fun v hv => hvalues v (List.mem_cons_of_mem _ hv)
    simp only [List.map_cons, List.cons_append, readHexDigits, hvalue, htail]

/-- A formatted number has as many digits as it needs and at least the given places. -/
theorem length_formatHex (n places : ℕ) :
    (formatHex n places).length = max (Nat.digits 16 n).length places := by
  simp only [formatHex, List.length_map, List.length_reverse, List.length_append,
    List.length_replicate]
  omega

/-- Leading zeros do not change the number that is read. -/
theorem readChunkSize_formatHex (n places : ℕ) (hn : 0 < n) (rest : List UInt8) :
    readChunkSize (formatHex n places ++ crlf ++ rest) = some (n, rest) := by
  have hdigits : ∀ value ∈ (Nat.digits 16 n ++
      List.replicate (places - (Nat.digits 16 n).length) 0).reverse, value < 16 := by
    intro value hvalue
    rcases List.mem_append.mp (List.mem_reverse.mp hvalue) with hmem | hmem
    · exact Nat.digits_lt_base (by norm_num) hmem
    · simp [List.eq_of_mem_replicate hmem]
  have hread := readHexDigits_map _ hdigits (10 :: rest)
  have hvalue : Nat.ofDigits 16 (Nat.digits 16 n ++
      List.replicate (places - (Nat.digits 16 n).length) 0) = n := by
    rw [Nat.ofDigits_append, Nat.ofDigits_replicate_zero, Nat.ofDigits_digits]
    omega
  have hne : (Nat.digits 16 n ++
      List.replicate (places - (Nat.digits 16 n).length) 0).reverse ≠ [] := by
    have := Nat.digits_ne_nil_iff_ne_zero (b := 16).mpr hn.ne'
    simp [this]
  obtain ⟨digit, digits, hcons⟩ := List.exists_cons_of_ne_nil hne
  have hform : formatHex n places ++ crlf ++ rest =
      List.map hexDigit (digit :: digits) ++ 13 :: 10 :: rest := by
    simp [formatHex, crlf, ← hcons]
  have hreverse : (digit :: digits).reverse =
      Nat.digits 16 n ++ List.replicate (places - (Nat.digits 16 n).length) 0 := by
    rw [← hcons, List.reverse_reverse]
  rw [hcons] at hread
  rw [hform, readChunkSize, hread]
  change some (Nat.ofDigits 16 (digit :: digits).reverse, rest) = some (n, rest)
  rw [hreverse, hvalue]

/-- A chunk with its size written in a number of places. -/
def encodeChunk (places : ℕ) (data : List UInt8) : List UInt8 :=
  formatHex data.length places ++ crlf ++ data ++ crlf

/-- Complete chunks and the bytes they carry. -/
inductive CodedChunks : List UInt8 → List UInt8 → Prop
  | nil : CodedChunks [] []
  | snoc {coded payload : List UInt8} (places : ℕ) {data : List UInt8} (hdata : data ≠ [])
      (hchunks : CodedChunks coded payload) :
      CodedChunks (coded ++ encodeChunk places data) (payload ++ data)

/-- One chunk is read off the front of a body. -/
theorem decodeChunks_encodeChunk (fuel places : ℕ) {data : List UInt8} (hdata : data ≠ [])
    (rest : List UInt8) :
    decodeChunks (fuel + 1) (encodeChunk places data ++ rest) =
      (decodeChunks fuel rest).map (data ++ ·) := by
  have hsize := readChunkSize_formatHex data.length places (List.length_pos_of_ne_nil hdata)
    (data ++ crlf ++ rest)
  obtain ⟨n, hn⟩ : ∃ n, data.length = n + 1 :=
    Nat.exists_eq_succ_of_ne_zero (List.length_pos_of_ne_nil hdata).ne'
  have hcoded : encodeChunk places data ++ rest =
      formatHex data.length places ++ crlf ++ (data ++ crlf ++ rest) := by
    simp [encodeChunk]
  have hdrop : (data ++ crlf ++ rest).drop (n + 1) = 13 :: 10 :: rest := by
    simp [← hn, crlf]
  have htake : (data ++ crlf ++ rest).take (n + 1) = data := by
    simp [← hn]
  rw [hcoded, decodeChunks, hsize, hn]
  simp only [hdrop, htake]

/-- Complete chunks in front of a text are decoded and the rest is decoded as it stands. -/
theorem CodedChunks.decodeChunks_append {coded payload : List UInt8}
    (hchunks : CodedChunks coded payload) (rest : List UInt8) (following : Option (List UInt8))
    (hrest : ∀ fuel, rest.length ≤ fuel → decodeChunks fuel rest = following) :
    ∀ fuel, (coded ++ rest).length ≤ fuel →
      decodeChunks fuel (coded ++ rest) = following.map (payload ++ ·) := by
  induction hchunks generalizing rest following with
  | nil =>
    intro fuel hfuel
    simpa using hrest fuel hfuel
  | @snoc coded payload places data hdata _ ih =>
    have hchunk : ∀ fuel, (encodeChunk places data ++ rest).length ≤ fuel →
        decodeChunks fuel (encodeChunk places data ++ rest) = following.map (data ++ ·) := by
      intro fuel hfuel
      have hlength : rest.length + 1 ≤ fuel := by
        simp only [encodeChunk, crlf, List.length_append, List.length_cons] at hfuel
        omega
      obtain ⟨fuel, rfl⟩ : ∃ n, fuel = n + 1 := ⟨fuel - 1, by omega⟩
      rw [decodeChunks_encodeChunk fuel places hdata rest, hrest fuel (by omega)]
    intro fuel hfuel
    rw [List.append_assoc] at hfuel ⊢
    rw [ih _ _ hchunk fuel hfuel, Option.map_map]
    congr 1
    funext suffix
    exact (List.append_assoc payload data suffix).symm

/-- Complete chunks and the last chunk are a chunked body of the bytes the chunks carry. -/
theorem CodedChunks.decodeChunked_lastChunk {coded payload : List UInt8}
    (hchunks : CodedChunks coded payload) : decodeChunked (coded ++ lastChunk) = some payload := by
  have hlast : ∀ fuel, lastChunk.length ≤ fuel → decodeChunks fuel lastChunk = some [] := by
    intro fuel hfuel
    obtain ⟨fuel, rfl⟩ : ∃ n, fuel = n + 1 := ⟨fuel - 1, by simp [lastChunk] at hfuel; omega⟩
    rfl
  have h := hchunks.decodeChunks_append lastChunk (some []) hlast _ le_rfl
  rwa [Option.map_some, List.append_nil] at h

/-- Complete chunks alone are no chunked body. -/
theorem CodedChunks.decodeChunked_eq_none {coded payload : List UInt8}
    (hchunks : CodedChunks coded payload) : decodeChunked coded = none := by
  have hnothing : ∀ fuel, ([] : List UInt8).length ≤ fuel → decodeChunks fuel [] = none := by
    intro fuel _
    cases fuel <;> rfl
  have h := hchunks.decodeChunks_append [] none hnothing _ le_rfl
  rwa [List.append_nil] at h

end FrameworkBenchmarks.Common
