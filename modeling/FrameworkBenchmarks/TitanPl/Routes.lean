import Mathlib.Data.Nat.Digits.Defs
import FrameworkBenchmarks.TitanPl.Json

/-!
# Routes: from the builder through `routes.json` to a dispatched request

`titan.js` collects the registrations of an application and `start` writes them as JSON; `main.rs`
reads that file once and resolves every request against it.

The text of the file is not modelled: what `serde_json` reads from the text that `JSON.stringify`
writes is a function of the written value (`JsValue.read`). It fails on a lone surrogate, which
`JSON.stringify` escapes, and on nesting beyond the recursion limit of `serde_json`; which number is
read back for a finite double is a parameter.
-/

namespace FrameworkBenchmarks.TitanPl

/-! ### The builder -/

/-- A code point of a JavaScript string. -/
inductive JsChar
  | scalar (c : Char)
  | surrogate (unit : Fin 2048)
  deriving DecidableEq, Repr

/-- A JavaScript string by its code points; a surrogate pair is one character. -/
abbrev JsString := List JsChar

/-- The JavaScript string of a text. -/
def jsString (s : String) : JsString := s.toList.map .scalar

/-- A JavaScript value that `JSON.stringify` can write, over a type of finite numbers. The members of
an object have different keys, and their order is not part of the value. -/
inductive JsValue (N : Type) where
  | null
  | bool (b : Bool)
  | number (n : N)
  /-- `NaN` or an infinity. -/
  | notFinite
  | string (s : JsString)
  | array (items : List (JsValue N))
  | object (fields : List (JsString × JsValue N))

variable {N : Type}

/-- Assignment to a member of an object, or insertion into a hash map. -/
def assign {κ ν : Type} [DecidableEq κ] (members : List (κ × ν)) (key : κ) (value : ν) :
    List (κ × ν) :=
  if members.any (·.1 = key) then members.map fun m => if m.1 = key then (key, value) else m
  else members ++ [(key, value)]

inductive Method
  | get
  | post
  deriving DecidableEq, Repr

def Method.text : Method → String
  | .get => "GET"
  | .post => "POST"

/-- What a registration does with its route. -/
inductive Handling (N : Type) where
  | reply (value : JsValue N)
  | action (name : JsString)

/-- `t.get(route)` or `t.post(route)` followed by `.reply(value)` or `.action(name)`. -/
structure Registration (N : Type) where
  method : Method
  route : JsString
  handling : Handling N

/-- An entry of `routes`. -/
structure RouteEntry (N : Type) where
  type : String
  value : JsValue N

/-- An entry of `dynamicRoutes`. -/
structure DynamicEntry where
  method : Method
  pattern : JsString
  action : JsString

structure Builder (N : Type) where
  routes : List (JsString × RouteEntry N) := []
  dynamicRoutes : List (Method × List DynamicEntry) := []

/-- `typeof value === "object" ? "json" : "text"` -/
def replyType : JsValue N → String
  | .null | .array _ | .object _ => "json"
  | .bool _ | .number _ | .notFinite | .string _ => "text"

/-- `${method.toUpperCase()}:${route}` -/
def routeKey (method : Method) (route : JsString) : JsString :=
  jsString method.text ++ jsString ":" ++ route

/-- `route.includes(":")` -/
def isPattern (route : JsString) : Bool := route.contains (.scalar ':')

/-- `dynamicRoutes[method].push(entry)`, on a new array where there is none. -/
def pushDynamic (dynamicRoutes : List (Method × List DynamicEntry)) (entry : DynamicEntry) :
    List (Method × List DynamicEntry) :=
  assign dynamicRoutes entry.method ((dynamicRoutes.lookup entry.method).getD [] ++ [entry])

def addRoute (b : Builder N) (r : Registration N) : Builder N :=
  match r.handling with
  | .reply value =>
    { b with routes := assign b.routes (routeKey r.method r.route) ⟨replyType value, value⟩ }
  | .action name =>
    if isPattern r.route then
      { b with dynamicRoutes := pushDynamic b.dynamicRoutes ⟨r.method, r.route, name⟩ }
    else
      { b with routes := assign b.routes (routeKey r.method r.route) ⟨"action", .string name⟩ }

def RouteEntry.toJson (entry : RouteEntry N) : JsValue N :=
  .object [(jsString "type", .string (jsString entry.type)), (jsString "value", entry.value)]

def DynamicEntry.toJson (entry : DynamicEntry) : JsValue N :=
  .object [(jsString "method", .string (jsString entry.method.text)),
    (jsString "pattern", .string entry.pattern), (jsString "action", .string entry.action)]

/-- `Object.values(dynamicRoutes).flat()` -/
def Builder.flatDynamic (b : Builder N) : List DynamicEntry := b.dynamicRoutes.flatMap Prod.snd

/-- The value `start` writes to `routes.json`. -/
def document (config : JsValue N) (b : Builder N) : JsValue N :=
  .object [(jsString "__config", config),
    (jsString "routes", .object (b.routes.map fun entry => (entry.1, entry.2.toJson))),
    (jsString "__dynamic_routes", .array (b.flatDynamic.map DynamicEntry.toJson))]

/-- The document for the registrations of an application. -/
def start (config : JsValue N) (regs : List (Registration N)) : JsValue N :=
  document config (regs.foldl addRoute {})

/-! ### The file -/

/-- The characters of a string without lone surrogates. -/
def decodeChars : JsString → Option (List Char)
  | [] => some []
  | .scalar c :: rest => (decodeChars rest).map (c :: ·)
  | .surrogate _ :: _ => none

/-- What `serde_json` reads for a string. -/
def decode (s : JsString) : Option String := (decodeChars s).map String.ofList

mutual

/-- What `serde_json` reads for a value, with the depth that remains to it. -/
def JsValue.read (readNumber : N → Option N) : ℕ → JsValue N → Option (Value N)
  | _, .null => some .null
  | _, .bool b => some (.bool b)
  | _, .number n => (readNumber n).map .number
  | _, .notFinite => some .null
  | _, .string s => (decode s).map .string
  | depth, .array items =>
    if depth - 1 = 0 then none else (readItems readNumber (depth - 1) items).map .array
  | depth, .object fields =>
    if depth - 1 = 0 then none else (readFields readNumber (depth - 1) fields).map .object

def readItems (readNumber : N → Option N) : ℕ → List (JsValue N) → Option (List (Value N))
  | _, [] => some []
  | depth, v :: items =>
    match v.read readNumber depth, readItems readNumber depth items with
    | some v, some items => some (v :: items)
    | _, _ => none

def readFields (readNumber : N → Option N) :
    ℕ → List (JsString × JsValue N) → Option (List (String × Value N))
  | _, [] => some []
  | depth, (k, v) :: fields =>
    match decode k, v.read readNumber depth, readFields readNumber depth fields with
    | some k, some v, some fields => some ((k, v) :: fields)
    | _, _, _ => none

end

/-! ### The loader -/

structure RouteVal (N : Type) where
  type : String
  value : Value N

structure DynamicRoute where
  method : String
  pattern : String
  action : String
  deriving DecidableEq, Repr

/-- `Value::as_str` -/
def Value.asStr : Value N → Option String
  | .string s => some s
  | _ => none

/-- The derived `Deserialize` of `RouteVal`, with the alias of its second field. -/
def RouteVal.fromValue (v : Value N) : Option (RouteVal N) :=
  match (v.get "type").bind Value.asStr, (v.get "value").or (v.get "target") with
  | some type, some value => some ⟨type, value⟩
  | _, _ => none

def DynamicRoute.fromValue (v : Value N) : Option DynamicRoute :=
  match (v.get "method").bind Value.asStr, (v.get "pattern").bind Value.asStr,
    (v.get "action").bind Value.asStr with
  | some method, some pattern, some action => some ⟨method, pattern, action⟩
  | _, _, _ => none

/-- `serde_json::from_value::<HashMap<String, RouteVal>>` -/
def routesFromValue : Value N → Option (List (String × RouteVal N))
  | .object fields => fields.mapM fun field => (RouteVal.fromValue field.2).map (field.1, ·)
  | _ => none

/-- `serde_json::from_value::<Vec<DynamicRoute>>` -/
def dynamicFromValue : Value N → Option (List DynamicRoute)
  | .array items => items.mapM DynamicRoute.fromValue
  | _ => none

/-- `PrecomputedRoute`: the value whose serialization, or the text that, is the cached body. -/
inductive PrecomputedRoute (N : Type) where
  | json (value : Value N)
  | text (s : String)

def precompute (route : RouteVal N) : Option (PrecomputedRoute N) :=
  if route.type = "json" then some (.json route.value)
  else if route.type = "text" then route.value.asStr.map .text
  else none

/-- The parts of `AppState` a request is resolved with; `fastPaths` holds for the actions that have
a static response. -/
structure AppState (N : Type) where
  routes : List (String × RouteVal N)
  dynamicRoutes : List DynamicRoute
  precomputed : List (String × PrecomputedRoute N)
  fastPaths : String → Bool

/-- Loading in `main`. A part that cannot be read is replaced by its default. -/
def loadRoutes (readNumber : N → Option N) (fastPaths : String → Bool) (file : JsValue N) :
    AppState N :=
  let json := (file.read readNumber 128).getD .null
  let map := (routesFromValue ((json.get "routes").getD .null)).getD []
  { routes := map
    dynamicRoutes := (dynamicFromValue ((json.get "__dynamic_routes").getD .null)).getD []
    precomputed := map.filterMap fun route => (precompute route.2).map (route.1, ·)
    fastPaths := fastPaths }

/-! ### Resolution of a request -/

/-- `trim_matches(c)` -/
def trimMatches (c : Char) (s : List Char) : List Char :=
  ((s.dropWhile (· = c)).reverse.dropWhile (· = c)).reverse

/-- `parse::<i64>().is_ok()` -/
def parsesI64 (s : List Char) : Bool :=
  let (negative, digits) := match s with
    | '-' :: rest => (true, rest)
    | '+' :: rest => (false, rest)
    | _ => (false, s)
  let magnitude := Nat.ofDigits 10 (digits.reverse.map fun c => c.toNat - 48)
  !digits.isEmpty && digits.all (·.isDigit) && magnitude < 2 ^ 63 + negative.toNat

/-- One segment of a pattern against one of the path. -/
def matchSegment (pat val : List Char) (params : List (String × String)) :
    Option (List (String × String)) :=
  match pat with
  | ':' :: inner =>
    let name := inner.takeWhile (· ≠ '<')
    let ty := if inner.contains '<'
      then ((inner.dropWhile (· ≠ '<')).tail.reverse.dropWhile (· = '>')).reverse
      else "string".toList
    let valid := if ty = "number".toList then parsesI64 val else ty = "string".toList
    if valid then some (assign params (String.ofList name) (String.ofList val)) else none
  | _ => if pat = val then some params else none

def matchSegments : List (List Char) → List (List Char) → List (String × String) →
    Option (List (String × String))
  | pat :: pats, val :: vals, params => (matchSegment pat val params).bind (matchSegments pats vals)
  | _, _, params => some params

/-- The parameters of a path under a pattern. -/
def matchPattern (pattern path : String) : Option (List (String × String)) :=
  let pathSegments := (trimMatches '/' path.toList).splitOn '/'
  let patternSegments := (trimMatches '/' pattern.toList).splitOn '/'
  if patternSegments.length ≠ pathSegments.length then none
  else matchSegments patternSegments pathSegments []

def matchDynamicRoute (method path : String) (routes : List DynamicRoute) :
    Option (String × List (String × String)) :=
  routes.findSome? fun route =>
    if route.method ≠ method then none
    else (matchPattern route.pattern path).map (route.action, ·)

/-- The path of a request: it starts with a slash, except in the forms `*` and `CONNECT host`. -/
structure RequestPath where
  text : String
  rooted : text.toList.head? = some '/' ∨ text = "*" ∨ text = ""

/-- A request; a method is a token and has no colon. -/
structure Request where
  method : String
  token : ':' ∉ method.toList
  path : RequestPath

/-- How a request is answered: with a JSON value, with a text, by an action (from its static response
or in a worker), or with 404. -/
inductive Outcome (N : Type) where
  | json (value : Value N)
  | text (s : String)
  | staticAction (name : String)
  | execute (name : String) (params : List (String × String))
  | notFound

/-- The answer of a reply route that is not precomputed. -/
def replyOnTheFly (route : RouteVal N) : Option (Outcome N) :=
  if route.type = "json" then some (.json route.value) else route.value.asStr.map .text

def PrecomputedRoute.outcome : PrecomputedRoute N → Outcome N
  | .json value => .json value
  | .text s => .text s

/-- Phase 1: replies and static actions. -/
def fastPath (state : AppState N) (strictKey : String) (route : RouteVal N) : Option (Outcome N) :=
  if route.type = "json" ∨ route.type = "text" then
    ((state.precomputed.lookup strictKey).map PrecomputedRoute.outcome).or (replyOnTheFly route)
  else if route.type = "action" then
    let actionName := route.value.asStr.getD ""
    if state.fastPaths actionName then some (.staticAction actionName) else none
  else none

/-- Phase 2, the exact route. -/
def exactRoute (route : RouteVal N) : Option (Outcome N) :=
  if route.type = "action" then some (.execute (route.value.asStr.getD "unknown") [])
  else if route.type = "json" then some (.json route.value)
  else route.value.asStr.map .text

/-- Route resolution in `handler`. -/
def handler (state : AppState N) (req : Request) : Outcome N :=
  let method := req.method.toUpper
  let path := req.path.text
  let strictKey := method ++ ":" ++ path
  let route := (state.routes.lookup strictKey).or (state.routes.lookup path)
  match route.bind (fastPath state strictKey) with
  | some outcome => outcome
  | none =>
    match route.bind exactRoute with
    | some outcome => outcome
    | none =>
      match matchDynamicRoute method path state.dynamicRoutes with
      | some (action, params) => .execute action params
      | none => .notFound

/-- How the server that has loaded the routes of an application answers a request. -/
def dispatch (readNumber : N → Option N) (fastPaths : String → Bool) (config : JsValue N)
    (regs : List (Registration N)) (req : Request) : Outcome N :=
  handler (loadRoutes readNumber fastPaths (start config regs)) req

end FrameworkBenchmarks.TitanPl
