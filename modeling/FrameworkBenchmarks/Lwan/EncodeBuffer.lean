import FrameworkBenchmarks.Common.Memory
import FrameworkBenchmarks.Lwan.JsonEncoder

/-!
# Encoding into a buffer

`json_obj_encode_buf` and `json_calc_encoded_len` hand the same encoder two callbacks: one copies what
still fits into a buffer, the other only counts. The encoder goes on after a failed call, so pieces
behind the one that did not fit may still be copied.
-/

namespace FrameworkBenchmarks.Lwan

open Common (writeBytes writeBytes_append writeBytes_cons writeBytes_of_outside)

def ENOMEM : BitVec 32 := 12

/-! ### The calls of the encoder -/

/-- `str_encode`: what each call of `append_bytes` is given -/
def strCalls (str : List UInt8) : List (List UInt8) :=
  [34] :: (jsonEscapeInternal (str ++ [0]) ++ [[34]])

/-- `encode_key` -/
def keyCalls (field : DescrField) (escapeKey : Bool) : List (List UInt8) :=
  if !escapeKey then [(field.fieldName.drop field.fieldNameLen).take (field.fieldNameLen + 3)]
  else strCalls field.fieldName ++ [[58]]

/-- The loop of `arr_encode`. -/
def separatedCalls : List (List (List UInt8)) → List (List UInt8)
  | [] => []
  | [element] => element
  | element :: elements => element ++ [44] :: separatedCalls elements

/-- The loop of `json_obj_encode_full`. -/
def firstLastCalls : List (List (List UInt8)) → List (List UInt8)
  | [] => []
  | first :: rest => rest.flatMap (· ++ [[44]]) ++ first

section Calls

variable (intToString : ℤ → List UInt8) (escapeKey : Bool) (mem : Memory)

mutual

/-- `encode` -/
def encodeCalls : JsonObjDescr → ℤ → List (List UInt8)
  | .boolean field, val => [boolEncode (mem.bool (val + field.offset))]
  | .string field, val => strCalls (mem.str (val + field.offset))
  | .number field, val => [intToString (mem.num (val + field.offset))]
  | .array field elemDescr _, val =>
    let nElem := mem.size (val + elemDescr.field.offset)
    [91] :: (separatedCalls ((List.range nElem).map fun i =>
      encodeCalls elemDescr (elementVal (val + field.offset) elemDescr i)) ++ [[93]])
  | .object field subDescr, val =>
    [123] :: (firstLastCalls (fieldCalls subDescr (val + field.offset)) ++ [[125]])

/-- The fields of an object, each with its key. -/
def fieldCalls : List JsonObjDescr → ℤ → List (List (List UInt8))
  | [], _ => []
  | descr :: descrs, val =>
    (keyCalls descr.field escapeKey ++ encodeCalls descr val) :: fieldCalls descrs val

end

/-- `json_obj_encode_full` -/
def jsonObjEncodeCalls (descr : List JsonObjDescr) (val : ℤ) : List (List UInt8) :=
  [123] :: (firstLastCalls (fieldCalls intToString escapeKey mem descr val) ++ [[125]])

end Calls

/-! ### The callbacks -/

/-- Call `append_bytes` again and again; `ret |= ..` collects what the calls return. -/
def appendAll {σ : Type} (appendBytes : List UInt8 → σ → σ × BitVec 32) :
    List (List UInt8) → σ → BitVec 32 → σ × BitVec 32
  | [], data, ret => (data, ret)
  | bytes :: calls, data, ret =>
    let appended := appendBytes bytes data
    appendAll appendBytes calls appended.1 (ret ||| appended.2)

/-- `struct appender`, with the memory its buffer lies in -/
structure Appender where
  memory : Common.Memory
  buffer : ℤ
  used : ℕ
  size : ℕ

/-- `append_bytes_to_buf` -/
def appendBytesToBuf (bytes : List UInt8) (appender : Appender) : Appender × BitVec 32 :=
  if appender.size - appender.used < bytes.length then (appender, -ENOMEM)
  else
    let memory := writeBytes appender.memory (appender.buffer + appender.used) bytes
    let used := appender.used + bytes.length
    ({ appender with memory := Function.update memory (appender.buffer + used) 0, used }, 0#32)

/-- `measure_bytes` -/
def measureBytes (bytes : List UInt8) (total : ℕ) : ℕ × BitVec 32 := (total + bytes.length, 0#32)

section Encode

variable (intToString : ℤ → List UInt8) (mem : Memory) (descr : List JsonObjDescr) (val : ℤ)

/-- `json_obj_encode` -/
def jsonObjEncode {σ : Type} (appendBytes : List UInt8 → σ → σ × BitVec 32) (data : σ) :
    σ × BitVec 32 :=
  appendAll appendBytes (jsonObjEncodeCalls intToString true mem descr val) data 0#32

/-- `json_obj_encode_buf`: the memory and the result -/
def jsonObjEncodeBuf (memory : Common.Memory) (buffer : ℤ) (bufSize : ℕ) :
    Common.Memory × BitVec 32 :=
  let encoded := jsonObjEncode intToString mem descr val appendBytesToBuf ⟨memory, buffer, 0, bufSize⟩
  (encoded.1.memory, encoded.2)

/-- `json_calc_encoded_len` -/
def jsonCalcEncodedLen : ℤ :=
  let encoded := jsonObjEncode intToString mem descr val measureBytes 0
  if encoded.2.slt 0#32 then encoded.2.toInt else encoded.1

end Encode

/-! ### The text of the calls -/

theorem flatten_strCalls (str : List UInt8) : (strCalls str).flatten = strEncode str := by
  simp [strCalls, strEncode]

theorem flatten_keyCalls (field : DescrField) (escapeKey : Bool) :
    (keyCalls field escapeKey).flatten = encodeKey field escapeKey := by
  cases escapeKey with
  | false => simp [keyCalls, encodeKey]
  | true => simp [keyCalls, encodeKey, flatten_strCalls]

theorem flatten_separatedCalls (elements : List (List (List UInt8))) :
    (separatedCalls elements).flatten = separated (elements.map List.flatten) := by
  induction elements with
  | nil => rfl
  | cons element elements ih =>
    cases elements with
    | nil => rfl
    | cons next elements =>
      rw [separatedCalls, List.flatten_append, List.flatten_cons, ih]
      · rfl
      · simp

theorem flatten_firstLastCalls (fields : List (List (List UInt8))) :
    (firstLastCalls fields).flatten = firstLast (fields.map List.flatten) := by
  cases fields with
  | nil => rfl
  | cons first rest =>
    have hrest : (rest.flatMap (· ++ [[44]])).flatten =
        (rest.map List.flatten).flatMap (· ++ [44]) := by
      induction rest with
      | nil => rfl
      | cons field rest ih => simp [ih]
    rw [firstLastCalls, List.flatten_append, hrest]
    rfl

section Calls

variable {intToString : ℤ → List UInt8} {escapeKey : Bool} {mem : Memory}

mutual

/-- The calls append the text of the encoder. -/
theorem flatten_encodeCalls : ∀ (descr : JsonObjDescr) (val : ℤ),
    (encodeCalls intToString escapeKey mem descr val).flatten =
      encode intToString escapeKey mem descr val
  | .boolean field, val => by simp [encodeCalls, encode]
  | .string field, val => by simp [encodeCalls, encode, flatten_strCalls]
  | .number field, val => by simp [encodeCalls, encode]
  | .array field elemDescr _, val => by
    have helements : ((List.range (mem.size (val + elemDescr.field.offset))).map fun i =>
        encodeCalls intToString escapeKey mem elemDescr
          (elementVal (val + field.offset) elemDescr i)).map List.flatten =
        (List.range (mem.size (val + elemDescr.field.offset))).map fun i =>
          encode intToString escapeKey mem elemDescr
            (elementVal (val + field.offset) elemDescr i) := by
      rw [List.map_map]
      exact List.map_congr_left fun i _ => flatten_encodeCalls elemDescr _
    rw [encodeCalls, encode, List.flatten_cons, List.flatten_append, flatten_separatedCalls]
    exact congrArg (fun elements => [91] ++ (separated elements ++ [93])) helements
  | .object field subDescr, val => by
    rw [encodeCalls, encode, List.flatten_cons, List.flatten_append, flatten_firstLastCalls,
      flatten_fieldCalls subDescr]
    rfl

theorem flatten_fieldCalls : ∀ (descrs : List JsonObjDescr) (val : ℤ),
    (fieldCalls intToString escapeKey mem descrs val).map List.flatten =
      encodeFields intToString escapeKey mem descrs val
  | [], _ => by rw [fieldCalls, encodeFields, List.map_nil]
  | descr :: descrs, val => by
    rw [fieldCalls, encodeFields, List.map_cons, List.flatten_append, flatten_keyCalls,
      flatten_encodeCalls descr, flatten_fieldCalls descrs]

end

theorem flatten_jsonObjEncodeCalls (descr : List JsonObjDescr) (val : ℤ) :
    (jsonObjEncodeCalls intToString escapeKey mem descr val).flatten =
      jsonObjEncodeFull intToString escapeKey mem descr val := by
  rw [jsonObjEncodeCalls, jsonObjEncodeFull, List.flatten_cons, List.flatten_append,
    flatten_firstLastCalls, flatten_fieldCalls]
  rfl

end Calls

/-! ### What the callbacks make of them -/

/-- Counting adds up the lengths and never fails. -/
theorem appendAll_measureBytes (calls : List (List UInt8)) (ret : BitVec 32) :
    ∀ total, appendAll measureBytes calls total ret = (total + calls.flatten.length, ret) := by
  induction calls with
  | nil =>
    intro total
    rfl
  | cons bytes calls ih =>
    intro total
    have hstep : appendAll measureBytes (bytes :: calls) total ret =
        appendAll measureBytes calls (total + bytes.length) (ret ||| 0#32) := rfl
    rw [hstep, BitVec.or_zero, ih, List.flatten_cons, List.length_append, Nat.add_assoc]

section Append

variable {bytes : List UInt8} {appender : Appender} {memory : Common.Memory} {text : List UInt8}

/-- The buffer holds a text, ended by a NUL; before anything is appended it may hold nothing. -/
structure Appender.Holds (appender : Appender) (memory : Common.Memory) (text : List UInt8) :
    Prop where
  used : appender.used = text.length
  written : appender.memory = writeBytes memory appender.buffer (text ++ [0]) ∨
    text = [] ∧ appender.memory = memory

/-- The appender after some bytes that fit. -/
def Appender.extend (appender : Appender) (bytes : List UInt8) : Appender :=
  { appender with
    memory := writeBytes appender.memory (appender.buffer + appender.used) (bytes ++ [0])
    used := appender.used + bytes.length }

/-- A text that is written over the NUL of another one goes on with it. -/
theorem writeBytes_over_nul (memory : Common.Memory) (base : ℤ) (text bytes : List UInt8) :
    writeBytes (writeBytes memory base (text ++ [0])) (base + text.length) (bytes ++ [0]) =
      writeBytes memory base (text ++ bytes ++ [0]) := by
  have hover : ∀ (m : Common.Memory) (i : ℤ) (rest : List UInt8), rest ≠ [] →
      writeBytes (writeBytes m i [0]) i rest = writeBytes m i rest := by
    intro m i rest hrest
    cases rest with
    | nil => exact absurd rfl hrest
    | cons b rest =>
      rw [Common.writeBytes_singleton, ← writeBytes_cons, ← writeBytes_cons]
      funext j
      by_cases hj : j = i
      · rw [hj, Function.update_self, Function.update_self]
      · rw [Function.update_of_ne hj, Function.update_of_ne hj]
        unfold writeBytes
        rw [Function.update_of_ne hj]
  calc writeBytes (writeBytes memory base (text ++ [0])) (base + text.length) (bytes ++ [0])
      = writeBytes (writeBytes (writeBytes memory base text) (base + text.length) [0])
          (base + text.length) (bytes ++ [0]) := by rw [writeBytes_append memory base text [0]]
    _ = writeBytes (writeBytes memory base text) (base + text.length) (bytes ++ [0]) :=
        hover _ _ _ (by simp)
    _ = writeBytes memory base (text ++ bytes ++ [0]) := by
        rw [List.append_assoc, ← writeBytes_append]

theorem appendBytesToBuf_of_le (h : appender.used + bytes.length ≤ appender.size) :
    appendBytesToBuf bytes appender = (appender.extend bytes, 0#32) := by
  have hfits : ¬appender.size - appender.used < bytes.length := by omega
  rw [appendBytesToBuf, if_neg hfits, Appender.extend, writeBytes_append, Common.writeBytes_singleton,
    Int.add_assoc, ← Int.natCast_add]

theorem Appender.Holds.append (h : appender.Holds memory text) (bytes : List UInt8) :
    (appender.extend bytes).Holds memory (text ++ bytes) := by
  constructor
  · rw [Appender.extend, h.used, List.length_append]
  · left
    unfold Appender.extend
    cases h.written with
    | inl hwritten =>
      rw [hwritten, h.used]
      exact writeBytes_over_nul memory appender.buffer text bytes
    | inr hempty =>
      rw [h.used, hempty.1, hempty.2]
      simp

/-- As long as everything fits, everything is copied. -/
theorem appendAll_of_le (calls : List (List UInt8)) :
    ∀ {appender : Appender} {text : List UInt8}, appender.Holds memory text →
      appender.used + calls.flatten.length ≤ appender.size →
      (appendAll appendBytesToBuf calls appender 0#32).2 = 0#32 ∧
        (appendAll appendBytesToBuf calls appender 0#32).1.buffer = appender.buffer ∧
        (appendAll appendBytesToBuf calls appender 0#32).1.Holds memory (text ++ calls.flatten) := by
  induction calls with
  | nil =>
    intro appender text h _
    rw [List.flatten_nil, List.append_nil]
    exact ⟨rfl, rfl, h⟩
  | cons bytes calls ih =>
    intro appender text h hle
    rw [List.flatten_cons, List.length_append] at hle
    have hstep := @appendBytesToBuf_of_le bytes appender (by omega)
    have hrest := ih (h.append bytes) (by
      change appender.used + bytes.length + calls.flatten.length ≤ appender.size
      omega)
    rw [List.append_assoc, ← List.flatten_cons] at hrest
    rw [appendAll, hstep, BitVec.or_zero]
    exact hrest

/-- Nothing behind the byte that follows the buffer is written. -/
theorem appendAll_outside (calls : List (List UInt8)) :
    ∀ {appender : Appender} (ret : BitVec 32), appender.used ≤ appender.size →
      ∀ i, i < appender.buffer ∨ appender.buffer + appender.size < i →
        (appendAll appendBytesToBuf calls appender ret).1.memory i = appender.memory i := by
  induction calls with
  | nil =>
    intro appender ret _ i _
    rfl
  | cons bytes calls ih =>
    intro appender ret hused i hi
    rw [appendAll]
    by_cases hfits : appender.used + bytes.length ≤ appender.size
    · rw [appendBytesToBuf_of_le hfits]
      rw [@ih (appender.extend bytes) _ hfits i hi]
      apply writeBytes_of_outside
      rw [List.length_append, List.length_singleton]
      omega
    · have hfull : appendBytesToBuf bytes appender = (appender, -ENOMEM) := if_pos (by omega)
      rw [hfull]
      exact ih _ hused i hi

/-- What is too long fails, even where single pieces still fit. -/
theorem appendAll_fails (calls : List (List UInt8)) :
    ∀ {appender : Appender} {ret : BitVec 32}, appender.used ≤ appender.size →
      ret = 0#32 ∧ appender.size < appender.used + calls.flatten.length ∨ ret = -ENOMEM →
      (appendAll appendBytesToBuf calls appender ret).2 = -ENOMEM := by
  induction calls with
  | nil =>
    intro appender ret hused h
    cases h with
    | inl htoo => exact absurd htoo.2 (Nat.not_lt.mpr hused)
    | inr hfailed => exact hfailed
  | cons bytes calls ih =>
    intro appender ret hused h
    rw [appendAll]
    by_cases hfits : appender.used + bytes.length ≤ appender.size
    · rw [appendBytesToBuf_of_le hfits, BitVec.or_zero]
      apply @ih (appender.extend bytes) _ hfits
      cases h with
      | inl htoo =>
        refine Or.inl ⟨htoo.1, ?_⟩
        have hlength := htoo.2
        rw [List.flatten_cons, List.length_append] at hlength
        change appender.size < appender.used + bytes.length + calls.flatten.length
        omega
      | inr hfailed => exact Or.inr hfailed
    · have hfull : appendBytesToBuf bytes appender = (appender, -ENOMEM) := if_pos (by omega)
      rw [hfull]
      apply ih hused
      right
      cases h with
      | inl htoo => rw [htoo.1, BitVec.zero_or]
      | inr hfailed => rw [hfailed, BitVec.or_self]

end Append

section Encode

variable (intToString : ℤ → List UInt8) (mem : Memory) (descr : List JsonObjDescr) (val : ℤ)

/-- `json_calc_encoded_len` is the length of the text. A buffer of that size takes the text, but its
NUL comes behind the buffer; a shorter one makes the encoder fail, and it writes nothing behind the
byte that follows the buffer. -/
theorem jsonObjEncodeBuf_spec (memory : Common.Memory) (buffer : ℤ) (bufSize : ℕ) :
    let text := jsonObjEncodeFull intToString true mem descr val
    let encoded := jsonObjEncodeBuf intToString mem descr val memory buffer bufSize
    jsonCalcEncodedLen intToString mem descr val = text.length ∧
      (text.length ≤ bufSize → encoded = (writeBytes memory buffer (text ++ [0]), 0#32)) ∧
      (bufSize < text.length → encoded.2 = -ENOMEM ∧
        ∀ i, i < buffer ∨ buffer + bufSize < i → encoded.1 i = memory i) := by
  intro text encoded
  have htext : (jsonObjEncodeCalls intToString true mem descr val).flatten = text :=
    flatten_jsonObjEncodeCalls descr val
  have hnonempty : text ≠ [] := by simp [text, jsonObjEncodeFull]
  refine ⟨?_, ?_, ?_⟩
  · unfold jsonCalcEncodedLen jsonObjEncode
    rw [appendAll_measureBytes, htext]
    simp
  · intro hle
    have hempty : Appender.Holds ⟨memory, buffer, 0, bufSize⟩ memory [] := ⟨rfl, .inr ⟨rfl, rfl⟩⟩
    obtain ⟨hret, hbuffer, hholds⟩ :=
      appendAll_of_le (jsonObjEncodeCalls intToString true mem descr val) hempty (by
        change 0 + _ ≤ bufSize
        rwa [htext, Nat.zero_add])
    rw [htext, List.nil_append] at hholds
    cases hholds.written with
    | inl hwritten =>
      rw [hbuffer] at hwritten
      exact Prod.ext hwritten hret
    | inr hnone => exact absurd hnone.1 hnonempty
  · intro hlt
    constructor
    · apply appendAll_fails _ (Nat.zero_le bufSize)
      left
      refine ⟨rfl, ?_⟩
      change bufSize < 0 + _
      rwa [htext, Nat.zero_add]
    · intro i hi
      exact appendAll_outside _ 0#32 (Nat.zero_le bufSize) i hi

end Encode

end FrameworkBenchmarks.Lwan
