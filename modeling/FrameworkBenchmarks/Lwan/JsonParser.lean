import Mathlib
import FrameworkBenchmarks.Lwan.JsonLexer

/-!
# The parser of JSON payloads

`json_obj_parse` reads an object by a descriptor of its fields and stores what it decodes in a
structure. The structure's memory is kept by type, a map from addresses for each type that is stored,
as the strict aliasing rule lets a compiler see it; a decoded string is stored with its text.
-/

namespace FrameworkBenchmarks.Lwan

open Common (isDigit)

/-- What every `struct json_obj_descr` has. -/
structure DescrField where
  fieldName : List UInt8
  fieldNameLen : ℕ
  align : ℕ
  offset : ℕ

/-- `struct json_obj_descr`, by its type -/
inductive JsonObjDescr
  | number (field : DescrField)
  | string (field : DescrField)
  | boolean (field : DescrField)
  | object (field : DescrField) (subDescr : List JsonObjDescr)
  | array (field : DescrField) (elementDescr : JsonObjDescr) (nElements : ℕ)

namespace JsonObjDescr

/-- The field that the descriptor is about. -/
def field : JsonObjDescr → DescrField
  | number field | string field | boolean field | object field _ | array field _ _ => field

/-- `type` -/
def type : JsonObjDescr → JsonTokens
  | number _ => .number
  | string _ => .string
  | boolean _ => .true
  | object _ _ => .objectStart
  | array _ _ _ => .listStart

/-- The name by which `obj_parse` finds the field. -/
def name (descr : JsonObjDescr) : List UInt8 := descr.field.fieldName.take descr.field.fieldNameLen

end JsonObjDescr

/-- `ROUND_UP` -/
def roundUp (x align : ℕ) : ℕ :=
  let mask := BitVec.ofNat 64 align - 1
  ((BitVec.ofNat 64 x + mask) &&& ~~~mask).toNat

mutual

/-- `get_elem_size` -/
def getElemSize : JsonObjDescr → ℕ
  | .number _ => 4
  | .string _ => 8
  | .boolean _ => 1
  | .array _ elementDescr nElements => nElements * getElemSize elementDescr
  | .object _ subDescr => getElemSizes subDescr

/-- The loop of `get_elem_size` over the fields of an object. -/
def getElemSizes : List JsonObjDescr → ℕ
  | [] => 0
  | descr :: descrs => roundUp (getElemSize descr) descr.field.align + getElemSizes descrs

end

/-- The memory that is decoded into. -/
structure Memory where
  num : ℤ → ℤ
  bool : ℤ → Bool
  str : ℤ → List UInt8
  size : ℤ → ℕ

/-- Change one address. -/
def storeAt {α : Type} (f : ℤ → α) (addr : ℤ) (a : α) : ℤ → α := fun b => if b = addr then a else f b

namespace Memory

def setNum (mem : Memory) (addr : ℤ) (n : ℤ) : Memory := { mem with num := storeAt mem.num addr n }

def setBool (mem : Memory) (addr : ℤ) (b : Bool) : Memory :=
  { mem with bool := storeAt mem.bool addr b }

def setStr (mem : Memory) (addr : ℤ) (s : List UInt8) : Memory :=
  { mem with str := storeAt mem.str addr s }

def setSize (mem : Memory) (addr : ℤ) (n : ℕ) : Memory :=
  { mem with size := storeAt mem.size addr n }

end Memory

/-- `-EINVAL` -/
def eInval : ℤ := -22

/-- `-ENOSPC` -/
def eNoSpc : ℤ := -28

/-- `-ERANGE` -/
def eRange : ℤ := -34

/-- `element_token`: the types of the values that the parser knows -/
def elementToken : JsonTokens → Bool
  | .objectStart | .listStart | .string | .number | .true | .false => true
  | _ => false

/-- `struct json_obj_key_value` -/
structure KeyValue where
  key : List UInt8
  value : Token

/-- The second half of `obj_next`: the colon after the key and the value. -/
def objValue (key : List UInt8) : List Token → Option (KeyValue × List Token)
  | colon :: value :: toks =>
    if colon.type = .colon ∧ elementToken value.type then some (⟨key, value⟩, toks) else none
  | _ => none

/-- `obj_next`: the end of the object or its next member, or `-EINVAL` -/
def objNext : List Token → Option (KeyValue × List Token)
  | [] => none
  | token :: toks =>
    match token.type with
    | .objectEnd => some (⟨[], token⟩, toks)
    | .comma =>
      match toks with
      | [] => none
      | token :: toks => if token.type = .string then objValue token.text toks else none
    | .string => objValue token.text toks
    | _ => none

/-- `arr_next`: the end of the array or its next element, or `-EINVAL` -/
def arrNext : List Token → Option (Token × List Token)
  | [] => none
  | value :: toks =>
    match value.type with
    | .listEnd => some (value, toks)
    | .comma =>
      match toks with
      | [] => none
      | value :: toks => if elementToken value.type then some (value, toks) else none
    | type => if elementToken type then some (value, toks) else none

/-- The value of decimal digits. -/
def digitsValue (digits : List UInt8) : ℕ := digits.foldl (fun n c => 10 * n + (c.toNat - 48)) 0

/-- `strtol` in base 10 on a text that starts with a digit or a minus sign: the value, at most
`LONG_MAX` and at least `LONG_MIN`, and what follows the digits -/
def strtol (text : List UInt8) : ℤ × List UInt8 :=
  if text.head? = some 45 then
    (max (-(digitsValue (text.tail.takeWhile isDigit) : ℤ)) (-2 ^ 63), text.tail.dropWhile isDigit)
  else (min (digitsValue (text.takeWhile isDigit) : ℤ) (2 ^ 63 - 1), text.dropWhile isDigit)

/-- `decode_num`; `strtol` sets `errno` only with a value that is out of range. -/
def decodeNum (token : Token) (num : ℤ) (mem : Memory) : ℤ × Memory :=
  let (v, endptr) := strtol token.text
  if (BitVec.ofInt 32 v).toInt ≠ v then (eRange, mem)
  else (if endptr = [] then 0 else eInval, mem.setNum num v)

/-- `equivalent_types` -/
def equivalentTypes (type1 type2 : JsonTokens) : Bool :=
  if type1 = .true ∨ type1 = .false then type2 = .true || type2 = .false else type1 = type2

/-- The search of `obj_parse` for the field of a key among those that have not been decoded. -/
def findField (decodedFields : ℕ) (key : List UInt8) :
    ℕ → List JsonObjDescr → Option (ℕ × JsonObjDescr)
  | _, [] => none
  | i, descr :: descrs =>
    if decodedFields.testBit i then findField decodedFields key (i + 1) descrs
    else if key.length ≠ descr.field.fieldNameLen then findField decodedFields key (i + 1) descrs
    else if key ≠ descr.name then findField decodedFields key (i + 1) descrs
    else some (i, descr)

/-- What a function of the parser returns and leaves. -/
structure Parsed where
  ret : ℤ
  toks : List Token
  mem : Memory

mutual

/-- `decode_value`, with the calls of `obj_parse` and `arr_parse` -/
def decodeValue (fuel : ℕ) (descr : JsonObjDescr) (value : Token) (field val : ℤ)
    (toks : List Token) (mem : Memory) : Option Parsed :=
  match fuel with
  | 0 => none
  | fuel + 1 =>
    if equivalentTypes value.type descr.type then
      match descr with
      | .object _ subDescr => objParse fuel subDescr field 0 toks mem
      | .array _ elementDescr nElements =>
        arrParse fuel elementDescr (field + getElemSize elementDescr * nElements) field val toks
          (mem.setSize (val + elementDescr.field.offset) 0)
      | .boolean _ => some ⟨0, toks, mem.setBool field (value.type = .true)⟩
      | .number _ =>
        let (ret, mem) := decodeNum value field mem
        some ⟨ret, toks, mem⟩
      | .string _ => some ⟨0, toks, mem.setStr field value.text⟩
    else some ⟨eInval, toks, mem⟩

/-- The loop of `arr_parse`, with the address after the last element -/
def arrParse (fuel : ℕ) (elemDescr : JsonObjDescr) (lastElem field val : ℤ)
    (toks : List Token) (mem : Memory) : Option Parsed :=
  match fuel with
  | 0 => none
  | fuel + 1 =>
    match arrNext toks with
    | none => some ⟨eInval, [], mem⟩
    | some (value, toks) =>
      if value.type = .listEnd then some ⟨0, toks, mem⟩
      else if field = lastElem then some ⟨eNoSpc, toks, mem⟩
      else do
        let parsed ← decodeValue fuel elemDescr value field val toks mem
        if parsed.ret < 0 then some { parsed with ret := eInval }
        else
          let elements := val + elemDescr.field.offset
          arrParse fuel elemDescr lastElem (field + getElemSize elemDescr) val parsed.toks
            (parsed.mem.setSize elements (parsed.mem.size elements + 1))

/-- The loop of `obj_parse` -/
def objParse (fuel : ℕ) (descr : List JsonObjDescr) (val : ℤ) (decodedFields : ℕ)
    (toks : List Token) (mem : Memory) : Option Parsed :=
  match fuel with
  | 0 => none
  | fuel + 1 =>
    match objNext toks with
    | none => some ⟨eInval, [], mem⟩
    | some (kv, toks) =>
      if kv.value.type = .objectEnd then some ⟨decodedFields, toks, mem⟩
      else
        match findField decodedFields kv.key 0 descr with
        | none => objParse fuel descr val decodedFields toks mem
        | some (i, field) => do
          let parsed ← decodeValue fuel field kv.value (val + field.field.offset) val toks mem
          if parsed.ret < 0 then some parsed
          else objParse fuel descr val (decodedFields ||| 1 <<< i) parsed.toks parsed.mem

end

/-- `json_obj_parse`: the return value and the memory; two rounds for each token are enough -/
def jsonObjParse (payload : List UInt8) (descr : List JsonObjDescr) (val : ℤ) (mem : Memory) :
    Option (ℤ × Memory) :=
  match lexer payload with
  | [] => some (eInval, mem)
  | token :: toks =>
    if token.type = .objectStart then
      (objParse (2 * toks.length + 1) descr val 0 toks mem).map fun parsed => (parsed.ret, parsed.mem)
    else some (eInval, mem)

end FrameworkBenchmarks.Lwan
