import Mathlib.Data.List.Basic

/-!
# JSON values

The values that travel between actions, drift results and responses (`serde_json::Value`). The
number type is a parameter: nothing in the worker computes with numbers.
-/

namespace FrameworkBenchmarks.TitanPl

/-- `serde_json::Value` over a type of numbers. -/
inductive Value (N : Type) where
  | null
  | bool (b : Bool)
  | number (n : N)
  | string (s : String)
  | array (items : List (Value N))
  | object (fields : List (String × Value N))

namespace Value

variable {N : Type}

/-- Member lookup; `None` on anything but an object. -/
def get : Value N → String → Option (Value N)
  | .object fields, key => (fields.find? fun field => field.1 == key).map Prod.snd
  | _, _ => none

/-- `serde_json::json!({"error": msg})` -/
def errorObject (msg : String) : Value N := .object [("error", .string msg)]

/-- A character inside a JSON string. -/
def escapeChar (c : Char) : String :=
  if c = '"' then "\\\""
  else if c = '\\' then "\\\\"
  else if c = '\x08' then "\\b"
  else if c = '\x0c' then "\\f"
  else if c = '\n' then "\\n"
  else if c = '\r' then "\\r"
  else if c = '\t' then "\\t"
  else if c.toNat < 32 then
    "\\u00" ++ String.ofList [Nat.digitChar (c.toNat / 16), Nat.digitChar (c.toNat % 16)]
  else String.singleton c

/-- A JSON string. -/
def quote (s : String) : String := "\"" ++ String.join (s.toList.map escapeChar) ++ "\""

mutual

/-- `JSON.stringify`, for numbers with the given texts. -/
def stringify (num : N → String) : Value N → String
  | .null => "null"
  | .bool b => if b then "true" else "false"
  | .number n => num n
  | .string s => quote s
  | .array items => "[" ++ stringifyItems num items ++ "]"
  | .object fields => "\x7b" ++ stringifyFields num fields ++ "\x7d"

def stringifyItems (num : N → String) : List (Value N) → String
  | [] => ""
  | [v] => stringify num v
  | v :: w :: items => stringify num v ++ "," ++ stringifyItems num (w :: items)

def stringifyFields (num : N → String) : List (String × Value N) → String
  | [] => ""
  | [(k, v)] => quote k ++ ":" ++ stringify num v
  | (k, v) :: f :: fields =>
    quote k ++ ":" ++ stringify num v ++ "," ++ stringifyFields num (f :: fields)

end

end Value

end FrameworkBenchmarks.TitanPl
