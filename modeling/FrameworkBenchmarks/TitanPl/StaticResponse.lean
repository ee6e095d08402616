import Mathlib.Data.Rat.Floor
import FrameworkBenchmarks.TitanPl.Members
import FrameworkBenchmarks.TitanPl.Routes

/-!
# Static responses

What `fast_path.rs` makes of one call of `t.response.json`, `text` or `html` whose arguments are
static, and the HTTP response it serves for it without running the action.
-/

namespace FrameworkBenchmarks.TitanPl

/-- An argument whose value is known from its source. An object has its members in the order they
are written, so that of two members of one name the later one holds; a hole of an array is `none`. -/
inductive StaticValue where
  | undefined
  | null
  | bool (b : Bool)
  | number (q : ℚ)
  | string (s : String)
  | array (items : List (Option StaticValue))
  | object (members : List (String × StaticValue))

mutual

/-- `eval_static`, which has no value of its own for `undefined` and for a hole. -/
def StaticValue.toValue : StaticValue → Value ℚ
  | .undefined => .null
  | .null => .null
  | .bool b => .bool b
  | .number q => .number q
  | .string s => .string s
  | .array items => .array (itemsToValue items)
  | .object members => .object (assignAll [] (membersToValue members))

def itemsToValue : List (Option StaticValue) → List (Value ℚ)
  | [] => []
  | none :: items => .null :: itemsToValue items
  | some v :: items => v.toValue :: itemsToValue items

def membersToValue : List (String × StaticValue) → List (String × Value ℚ)
  | [] => []
  | (k, v) :: members => (k, v.toValue) :: membersToValue members

end

/-! ### The options -/

/-- `Value::as_object` -/
def Value.asObject {N : Type} : Value N → Option (List (String × Value N))
  | .object fields => some fields
  | _ => none

/-- `Value::as_u64`, for a number that `number_to_json` made: an integer in the range of `i64`
(the cast of 2^63 saturates) is kept as an integer, any other number as a float. -/
def Value.asU64 : Value ℚ → Option ℕ
  | .number q =>
    if q.den = 1 ∧ 0 ≤ q ∧ q ≤ 2 ^ 63 then some (min q.num.toNat (2 ^ 63 - 1)) else none
  | _ => none

structure ResponseOptions where
  status : ℕ
  headers : List (String × String)

def extractStatus (fields : Value ℚ) : ℕ :=
  match (fields.get "status").bind Value.asU64 with
  | some n => if 100 ≤ n ∧ n ≤ 599 then n else 200
  | none => 200

def extractHeaders (fields : Value ℚ) : List (String × String) :=
  match (fields.get "headers").bind Value.asObject with
  | some headers => headers.filterMap fun header => header.2.asStr.map (header.1, ·)
  | none => []

def extractResponseOptions (v : Value ℚ) : ResponseOptions :=
  match v.asObject with
  | some _ => ⟨extractStatus v, extractHeaders v⟩
  | none => ⟨200, []⟩

/-! ### The call -/

inductive ResponseMethod
  | json
  | text
  | html
  deriving DecidableEq, Repr

def ResponseMethod.contentType : ResponseMethod → String
  | .json => "application/json"
  | .text => "text/plain"
  | .html => "text/html"

structure StaticResponse where
  body : String
  contentType : String
  status : ℕ
  extraHeaders : List (String × String)

section Call

-- `serde_json::to_vec`
variable (toVec : Value ℚ → Option String)

/-- The body a method takes; `text` and `html` take strings only. -/
def serializeBody (method : ResponseMethod) (body : Value ℚ) : Option String :=
  match method with
  | .json => toVec body
  | .text | .html => body.asStr

/-- The response that a call with these arguments pushes. -/
def analyzeResponseCall (method : ResponseMethod) (arguments : List StaticValue) :
    Option StaticResponse :=
  match arguments[0]? with
  | none => none
  | some body =>
    let options := match arguments[1]? with
      | some opts => extractResponseOptions opts.toValue
      | none => ⟨200, []⟩
    (serializeBody toVec method body.toValue).map fun body =>
      ⟨body, method.contentType, options.status, options.headers⟩

end Call

/-! ### The HTTP response -/

/-- A header name in lower case. Only ASCII letters have a lower case here: no other character
becomes a letter of `content-type` or `server`, and none may stand in a header name. -/
def lowercase (s : String) : String := String.ofList (s.toList.map Char.toLower)

/-- A response, its header names in lower case. -/
structure Response where
  status : ℕ
  headers : List (String × String)
  body : String

section Builder

-- What the `http` crate accepts as a header, by the name in lower case and the value.
variable (accepts : String → String → Bool)

/-- `builder.header(key, value)` -/
def header (h : String × String) : Option (String × String) :=
  if accepts (lowercase h.1) h.2 then some (lowercase h.1, h.2) else none

/-- The response a builder makes; unwrapping it panics if a part was not accepted. -/
def buildResponse (status : ℕ) (headers : List (String × String)) (body : String) :
    Option Response :=
  if 100 ≤ status ∧ status < 1000 then
    (headers.mapM (header accepts)).map fun headers => ⟨status, headers, body⟩
  else none

/-- The headers `to_axum_response` sets itself. -/
def isReserved (name : String) : Bool :=
  lowercase name = "content-type" || lowercase name = "server"

def StaticResponse.toAxumResponse (r : StaticResponse) : Option Response :=
  buildResponse accepts r.status
    (("content-type", r.contentType) :: ("server", "TitanPL") ::
      r.extraHeaders.filter (!isReserved ·.1))
    r.body

end Builder

end FrameworkBenchmarks.TitanPl
