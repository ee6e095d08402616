import FrameworkBenchmarks.TitanPl.Redrawn
import FrameworkBenchmarks.TitanPl.WorldTable
import Mathlib.Data.Rat.Floor

/-!
# The updates action

For every query it reads a row under a random id and writes a random number to it, and it answers
with the rows it has written. Each of its executions draws its numbers anew.
-/

namespace FrameworkBenchmarks.TitanPl

open Common

/-- The white space that `parseInt` skips. -/
def isJsSpace (c : Char) : Bool :=
  c.toNat ∈ [0x9, 0xA, 0xB, 0xC, 0xD, 0x20, 0xA0, 0x1680, 0x2000, 0x2001, 0x2002, 0x2003, 0x2004,
    0x2005, 0x2006, 0x2007, 0x2008, 0x2009, 0x200A, 0x2028, 0x2029, 0x202F, 0x205F, 0x3000, 0xFEFF]

/-- The value of a digit, if there is such a digit in the radix. -/
def digitValue (radix : ℕ) (c : Char) : Option ℕ :=
  let v :=
    if c.isDigit then c.toNat - '0'.toNat
    else if 'a' ≤ c ∧ c ≤ 'f' then c.toNat - 'a'.toNat + 10
    else if 'A' ≤ c ∧ c ≤ 'F' then c.toNat - 'A'.toNat + 10
    else radix
  if v < radix then some v else none

/-- The sign of a number. -/
def readSign : List Char → ℤ × List Char
  | '-' :: l => (-1, l)
  | '+' :: l => (1, l)
  | l => (1, l)

/-- The radix of a number. -/
def readRadix : List Char → ℕ × List Char
  | '0' :: 'x' :: l => (16, l)
  | '0' :: 'X' :: l => (16, l)
  | l => (10, l)

/-- `parseInt`; `none` stands for `NaN`. -/
def parseInt (s : String) : Option ℤ :=
  let (sign, l) := readSign (s.toList.dropWhile isJsSpace)
  let (radix, l) := readRadix l
  match (l.takeWhile fun c => (digitValue radix c).isSome).filterMap (digitValue radix) with
  | [] => none
  | d :: ds => some (sign * ((d :: ds).foldl (fun n v => radix * n + v) 0 : ℕ))

/-- `parseInt(req.query.queries) || 1`, between 1 and 500. Of parameters with the same name the last
one counts. -/
def queryCount (req : RequestData) : ℕ :=
  let parsed := ((req.query.reverse.lookup "queries").bind parseInt).getD 0
  let count := if parsed = 0 then 1 else parsed
  let count := if count < 1 then 1 else count
  let count := if count > 500 then 500 else count
  count.toNat

theorem queryCount_pos (req : RequestData) : 0 < queryCount req := by
  unfold queryCount
  dsimp only
  split_ifs <;> omega

theorem queryCount_le (req : RequestData) : queryCount req ≤ 500 := by
  unfold queryCount
  dsimp only
  split_ifs <;> omega

/-- `t.response.json(data, { headers })` as `native_finish_request` reads it. -/
def responseJson (data : Value ℕ) (headers : List (String × String)) : Value ℕ :=
  .object [("_isResponse", .bool true), ("status", .number 200),
    ("body", .string (data.stringify Nat.repr)),
    ("headers", .object (("Content-Type", .string "application/json") ::
      headers.map fun header => (header.1, .string header.2)))]

/-- What reading a property of `undefined` throws. -/
def undefinedRead (key : String) : JsThrown :=
  .error ("Cannot read properties of undefined (reading '" ++ key ++ "')")

/-- `rows[0].id`, which may be undefined. -/
def firstId : Value ℕ → Except JsThrown (Option (Value ℕ))
  | .null => .error (.error "Cannot read properties of null (reading '0')")
  | .array (.null :: _) => .error (.error "Cannot read properties of null (reading 'id')")
  | .array (row :: _) => .ok (row.get "id")
  | .string s => if s = "" then .error (undefinedRead "id") else .ok none
  | _ => .error (undefinedRead "id")

/-- An entry of the answer; `JSON.stringify` leaves an undefined id out. -/
def resultEntry (id : Option (Value ℕ)) (randomNumber : ℕ) : Value ℕ :=
  .object ((id.toList.map fun id => ("id", id)) ++ [("randomNumber", .number randomNumber)])

/-- `Math.floor(Math.random() * 10000) + 1` when `Math.random()` gives `r`. The product is rounded to
a double. -/
def worldNumber (round : ℚ → ℚ) (r : ℚ) : ℕ := ⌊round (r * 10000)⌋₊ + 1

/-- The loop of `updates` from the `i`-th query on, with the entries made so far; `draw n` is the
`n`-th number that the execution draws. -/
def updatesLoop (conn : String) (draw : ℕ → ℕ) : ℕ → ℕ → List (Value ℕ) → Action ℕ
  | 0, _, results => .done (responseJson (.array results) [("Server", "titanpl")])
  | remaining + 1, i, results =>
    let id := draw (2 * i)
    .drift (.single (some (.dbQuery conn (Statement.select id).sql))) fun
      | .error err => .throw err
      | .ok rows =>
        let newRandomNumber := draw (2 * i + 1)
        .drift (.single (some (.dbQuery conn (Statement.update id newRandomNumber).sql))) fun
          | .error err => .throw err
          | .ok _ =>
            match firstId rows with
            | .error err => .throw err
            | .ok rowId =>
              updatesLoop conn draw remaining (i + 1) (results ++ [resultEntry rowId newRandomNumber])

/-- `updates` -/
def updates (conn : String) (draw : ℕ → ℕ) (req : RequestData) : Action ℕ :=
  updatesLoop conn draw (queryCount req) 0 []

/-- The worker that finds the action with the numbers of one execution. -/
def updatesWorker (conn : String) (draw : ℕ → ℕ) : Worker ℕ where
  actions name := if name = "updates" then some (updates conn draw) else none
  trySend _ := true

/-- The worker after a number of resumes of a request for `updates`; `random k n` is what
`Math.random()` gives the `n`-th time in the `k`-th execution. -/
def updatesServed {D : Type} (conn : String) (round : ℚ → ℚ) (random : ℕ → ℕ → ℚ)
    (durations : ℕ → D) (req : RequestData) (world : PartialMap ℕ ℕ) (n : ℕ) :
    Served ℕ D (PartialMap ℕ ℕ) :=
  Served.after runSingleOp
    (fun k => updatesWorker conn fun n => worldNumber round (random k n)) durations
    { req with actionName := "updates" } world n

theorem updatesLoop_propagates (conn : String) (draw : ℕ → ℕ) (remaining i : ℕ)
    (results : List (Value ℕ)) : (updatesLoop conn draw remaining i results).Propagates := by
  induction remaining generalizing i results with
  | zero => trivial
  | succ remaining ih =>
    unfold updatesLoop
    refine ⟨rfl, fun outcome => ?_⟩
    cases outcome with
    | error err => trivial
    | ok rows =>
      refine ⟨rfl, fun outcome => ?_⟩
      cases outcome with
      | error err => trivial
      | ok updated =>
        dsimp only
        cases firstId rows with
        | error err => trivial
        | ok rowId => exact ih _ _

end FrameworkBenchmarks.TitanPl
