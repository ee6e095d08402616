import FrameworkBenchmarks.Lwan.JsonEscape
import FrameworkBenchmarks.Lwan.JsonParser

/-!
# The encoder of JSON objects

`json_obj_encode_full` writes a structure by the descriptor that `json_obj_parse` reads it by. What a
descriptor reaches in a structure depends on the lengths that are stored in it.
-/

namespace FrameworkBenchmarks.Lwan

open Common (ascii)

/-- `str_encode`, on a string up to its NUL -/
def strEncode (str : List UInt8) : List UInt8 :=
  34 :: ((jsonEscapeInternal (str ++ [0])).flatten ++ [34])

/-- `bool_encode` -/
def boolEncode (value : Bool) : List UInt8 := if value then ascii "true" else ascii "false"

/-- `encode_key` -/
def encodeKey (field : DescrField) (escapeKey : Bool) : List UInt8 :=
  if !escapeKey then (field.fieldName.drop field.fieldNameLen).take (field.fieldNameLen + 3)
  else strEncode field.fieldName ++ [58]

/-- The loop of `arr_encode`: a comma after each element but the last. -/
def separated : List (List UInt8) → List UInt8
  | [] => []
  | [element] => element
  | element :: elements => element ++ 44 :: separated elements

/-- The loop of `json_obj_encode_full`: the first descriptor is encoded last. -/
def firstLast : List (List UInt8) → List UInt8
  | [] => []
  | first :: rest => rest.flatMap (· ++ [44]) ++ first

/-- The address that `arr_encode` passes for an element, for `encode` to add the offset to. -/
def elementVal (field : ℤ) (elemDescr : JsonObjDescr) (i : ℕ) : ℤ :=
  field + getElemSize elemDescr * i - elemDescr.field.offset

section Encode

variable (intToString : ℤ → List UInt8) (escapeKey : Bool) (mem : Memory)

mutual

/-- `encode`, with the calls of `arr_encode` and `json_obj_encode_full` -/
def encode : JsonObjDescr → ℤ → List UInt8
  | .boolean field, val => boolEncode (mem.bool (val + field.offset))
  | .string field, val => strEncode (mem.str (val + field.offset))
  | .number field, val => intToString (mem.num (val + field.offset))
  | .array field elemDescr _, val =>
    let nElem := mem.size (val + elemDescr.field.offset)
    91 :: (separated ((List.range nElem).map fun i =>
      encode elemDescr (elementVal (val + field.offset) elemDescr i)) ++ [93])
  | .object field subDescr, val => 123 :: (firstLast (encodeFields subDescr (val + field.offset)) ++ [125])

/-- The fields of an object, each with its key. -/
def encodeFields : List JsonObjDescr → ℤ → List (List UInt8)
  | [], _ => []
  | descr :: descrs, val =>
    (encodeKey descr.field escapeKey ++ encode descr val) :: encodeFields descrs val

end

/-- `json_obj_encode_full`: all that is appended -/
def jsonObjEncodeFull (descr : List JsonObjDescr) (val : ℤ) : List UInt8 :=
  123 :: (firstLast (encodeFields intToString escapeKey mem descr val) ++ [125])

end Encode

/-- What a structure holds for a descriptor. -/
inductive JsonValue
  | num (n : ℤ)
  | bool (b : Bool)
  | str (s : List UInt8)
  | array (elements : List JsonValue)
  | object (fields : List JsonValue)

section Reach

variable (mem : Memory)

mutual

/-- What the structure at an address holds. -/
def valueOf : JsonObjDescr → ℤ → JsonValue
  | .number field, val => .num (mem.num (val + field.offset))
  | .boolean field, val => .bool (mem.bool (val + field.offset))
  | .string field, val => .str (mem.str (val + field.offset))
  | .array field elemDescr _, val =>
    .array ((List.range (mem.size (val + elemDescr.field.offset))).map fun i =>
      valueOf elemDescr (elementVal (val + field.offset) elemDescr i))
  | .object field subDescr, val => .object (fieldValues subDescr (val + field.offset))

/-- The values of the fields, in the order of their descriptors. -/
def fieldValues : List JsonObjDescr → ℤ → List JsonValue
  | [], _ => []
  | descr :: descrs, val => valueOf descr val :: fieldValues descrs val

end

mutual

/-- The descriptors that are reached in the structure at an address, with their addresses. -/
def parts : JsonObjDescr → ℤ → List (JsonObjDescr × ℤ)
  | .number field, val => [(.number field, val)]
  | .boolean field, val => [(.boolean field, val)]
  | .string field, val => [(.string field, val)]
  | .array field elemDescr nElements, val =>
    (.array field elemDescr nElements, val) ::
      (List.range (mem.size (val + elemDescr.field.offset))).flatMap fun i =>
        parts elemDescr (elementVal (val + field.offset) elemDescr i)
  | .object field subDescr, val =>
    (.object field subDescr, val) :: fieldParts subDescr (val + field.offset)

/-- The descriptors that the fields reach. -/
def fieldParts : List JsonObjDescr → ℤ → List (JsonObjDescr × ℤ)
  | [], _ => []
  | descr :: descrs, val => parts descr val ++ fieldParts descrs val

end

end Reach

/-- The number of a part. -/
def numCell : JsonObjDescr × ℤ → Option ℤ
  | (.number field, val) => some (val + field.offset)
  | _ => none

/-- The boolean of a part. -/
def boolCell : JsonObjDescr × ℤ → Option ℤ
  | (.boolean field, val) => some (val + field.offset)
  | _ => none

/-- The string of a part. -/
def strCell : JsonObjDescr × ℤ → Option ℤ
  | (.string field, val) => some (val + field.offset)
  | _ => none

/-- The length of a part that is an array. -/
def sizeCell : JsonObjDescr × ℤ → Option ℤ
  | (.array _ elemDescr _, val) => some (val + elemDescr.field.offset)
  | _ => none

/-- The memory with its strings as they are escaped. -/
def Memory.escape (mem : Memory) : Memory := { mem with str := fun addr => escaped (mem.str addr) }

example (mem : Memory) : jsonObjEncodeFull (fun _ => [49]) false
    { mem with bool := fun _ => true } [.number ⟨ascii "a\"a\":", 1, 4, 0⟩, .boolean ⟨ascii "b\"b\":", 1, 4, 4⟩] 0 =
      ascii "\x7b\"b\":true,\"a\":1\x7d" := rfl

end FrameworkBenchmarks.Lwan
