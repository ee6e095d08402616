import FrameworkBenchmarks.TitanPl.StaticResponse

/-!
# Responses of an action that runs

The way of the same call through V8: `titan_core.js` makes a response object of it,
`native_finish_request` takes the fields of that object, and the handler builds the HTTP response.
-/

namespace FrameworkBenchmarks.TitanPl

/-! ### Values of the engine -/

inductive JsNumber
  | nan
  | finite (q : ℚ)
  | infinity
  | negInfinity

/-- The conversions of the JavaScript engine that are not spelled out here. -/
structure Engine where
  /-- `ToNumber` of a string, an array or an object, which may throw. -/
  toNumber : StaticValue → Option JsNumber
  /-- `ToString` of a number, an array or an object, which may throw. -/
  toText : StaticValue → Option String
  /-- `JSON.stringify`, which has no text for `undefined`. -/
  stringify : StaticValue → Option String

namespace StaticValue

/-- `typeof value === "object"`, and not `null` -/
def isObject : StaticValue → Bool
  | .array _ | .object _ => true
  | _ => false

def truthy : StaticValue → Bool
  | .undefined | .null => false
  | .bool b => b
  | .number q => q ≠ 0
  | .string s => s ≠ ""
  | .array _ | .object _ => true

/-- `value || default` -/
def orElse (v default : StaticValue) : StaticValue := if v.truthy then v else default

/-- The code units of a character as strings of their own, as Rust reads them: half of a surrogate
pair is replaced. -/
def unitsOf (c : Char) : List StaticValue :=
  if c.toNat < 0x10000 then [.string (String.singleton c)]
  else [.string "\uFFFD", .string "\uFFFD"]

/-- The elements from index `i` on; a hole is not a property. -/
def indexed : ℕ → List (Option StaticValue) → List (String × StaticValue)
  | _, [] => []
  | i, none :: items => indexed (i + 1) items
  | i, some v :: items => (toString i, v) :: indexed (i + 1) items

/-- The own properties, which are what a spread copies. -/
def ownProperties : StaticValue → List (String × StaticValue)
  | .object members => assignAll [] members
  | .array items => indexed 0 items
  | .string s => indexed 0 ((s.toList.flatMap unitsOf).map some)
  | _ => []

/-- `value.key` for a key that no prototype has. -/
def member (v : StaticValue) (key : String) : StaticValue :=
  (v.ownProperties.lookup key).getD .undefined

/-- `{ ...written, ...value }` -/
def spread (written : List (String × StaticValue)) (v : StaticValue) :
    List (String × StaticValue) :=
  assignAll written v.ownProperties

variable (e : Engine)

/-- `number_value` -/
def numberValue : StaticValue → Option JsNumber
  | .undefined => some .nan
  | .null => some (.finite 0)
  | .bool b => some (.finite (if b then 1 else 0))
  | .number q => some (.finite q)
  | v => e.toNumber v

/-- `to_string` -/
def text : StaticValue → Option String
  | .undefined => some "undefined"
  | .null => some "null"
  | .bool b => some (if b then "true" else "false")
  | .string s => some s
  | v => e.toText v

end StaticValue

/-- `n as u64` for a double. -/
def JsNumber.asU64 : JsNumber → ℕ
  | .nan | .negInfinity => 0
  | .infinity => 2 ^ 64 - 1
  | .finite q => min ⌊q⌋₊ (2 ^ 64 - 1)

/-! ### The response object -/

structure ParsedOpts where
  status : StaticValue
  extraHeaders : StaticValue

def parseResponseOpts (secondArg thirdArg : StaticValue) : ParsedOpts :=
  if secondArg.isObject then
    let extraHeaders := (secondArg.member "headers").orElse (.object [])
    { status := (secondArg.member "status").orElse (.number 200)
      extraHeaders :=
        if thirdArg.truthy && thirdArg.isObject then
          .object (thirdArg.spread (extraHeaders.spread []))
        else extraHeaders }
  else
    { status := secondArg.orElse (.number 200)
      extraHeaders := thirdArg.orElse (.object []) }

structure ResponseObject where
  status : StaticValue
  headers : List (String × StaticValue)
  body : StaticValue

section Run

variable (e : Engine)

/-- `JSON.stringify(data)` or `String(data)`. The latter throws where there is no text. -/
def responseBody (method : ResponseMethod) (data : StaticValue) : Option StaticValue :=
  match method with
  | .json => some (((e.stringify data).map .string).getD .undefined)
  | .text | .html => (data.text e).map .string

/-- `titanResponse.json`, `titanResponse.text` and `titanResponse.html` -/
def titanResponse (method : ResponseMethod) (data second third : StaticValue) :
    Option ResponseObject :=
  let opts := parseResponseOpts second third
  (responseBody e method data).map fun body =>
    { status := opts.status
      headers := opts.extraHeaders.spread [("Content-Type", .string method.contentType)]
      body := body }

/-- The JSON object that is sent to the handler. It has no `redirect` and no `error`. -/
structure FinishedRequest where
  status : Option ℕ
  body : Option String
  headers : List (String × String)

/-- A header with the text of its value, which is unwrapped. -/
def headerText (h : String × StaticValue) : Option (String × String) :=
  (h.2.text e).map (h.1, ·)

/-- The body as a text, where there is one. -/
def bodyText : StaticValue → Option String
  | .undefined | .null => none
  | body => body.text e

def ResponseObject.nativeFinishRequest (r : ResponseObject) : Option FinishedRequest :=
  (r.headers.mapM (headerText e)).map fun headers =>
    { status := (r.status.numberValue e).map JsNumber.asU64
      body := bodyText e r.body
      headers := headers }

/-- `StatusCode::from_u16(status).unwrap_or(StatusCode::OK)`, after the cast to `u16`. -/
def statusCode (status : Option ℕ) : ℕ :=
  let status := status.getD 200 % 2 ^ 16
  if 100 ≤ status ∧ status < 1000 then status else 200

variable (accepts : String → String → Bool)

/-- The response construction of `handler`. -/
def constructResponse (r : FinishedRequest) : Option Response :=
  buildResponse accepts (statusCode r.status) r.headers (r.body.getD "")

/-- The response for a call that is run. -/
def dynamicResponse (method : ResponseMethod) (arguments : List StaticValue) : Option Response :=
  let argument (i : ℕ) := (arguments[i]?).getD .undefined
  (titanResponse e method (argument 0) (argument 1) (argument 2)).bind fun r =>
    (r.nativeFinishRequest e).bind (constructResponse accepts)

end Run

end FrameworkBenchmarks.TitanPl
