import Mathlib.Data.Rat.Defs

/-!
# Python values

What `json.loads` decodes a body to, and the built-in functions that the toolset applies to it. The
type of strings is a parameter: a Python string may hold lone surrogates.
-/

namespace FrameworkBenchmarks.Toolset

/-- A float: what `int` makes of it if it is finite. -/
inductive PyFloat where
  | finite (value : ℚ)
  | inf
  | nan
  deriving DecidableEq

/-- A decoded JSON value. -/
inductive Value (S : Type) where
  | null
  | bool (b : Bool)
  | int (n : ℤ)
  | float (x : PyFloat)
  | str (s : S)
  | list (items : List (Value S))
  | dict (entries : List (S × Value S))

/-- The exceptions that matter here, with their texts. -/
inductive PyError where
  | valueError (text : String)
  | typeError (text : String)
  | overflowError (text : String)
  | recursionError
  deriving DecidableEq

/-- The built-in functions on strings, and `json.loads`. A set is iterated in some order. -/
structure Python (S : Type) where
  lit : String → S
  lower : S → S
  str : Value S → String
  format : S → String
  intOfStr : S → Option ℤ
  loads : List UInt8 → Except PyError (Value S)
  setOrder : List S → List S
  setOrder_perm : ∀ l, (setOrder l).Perm l

namespace Python

variable {S : Type} (py : Python S)

/-- A rational number is truncated towards zero. -/
def truncate (q : ℚ) : ℤ :=
  if q < 0 then -(-q).floor else q.floor

/-- `int`. -/
def int : Value S → Except PyError ℤ
  | .bool b => .ok (if b then 1 else 0)
  | .int n => .ok n
  | .float (.finite q) => .ok (truncate q)
  | .float .inf => .error (.overflowError "cannot convert float infinity to integer")
  | .float .nan => .error (.valueError "cannot convert float NaN to integer")
  | .str s =>
    match py.intOfStr s with
    | some n => .ok n
    | none => .error (.valueError ("invalid literal for int() with base 10: " ++ py.str (.str s)))
  | v =>
    .error (.typeError
      ("int() argument must be a string, a bytes-like object or a real number, not " ++ py.str v))

/-- An assignment to a dictionary: the value of a key is replaced in its place. -/
def setItem {α : Type} [DecidableEq S] (d : List (S × α)) (k : S) (v : α) : List (S × α) :=
  if d.any (·.1 = k) then d.map fun e => if e.1 = k then (e.1, v) else e else d ++ [(k, v)]

/-- A dictionary comprehension `{k.lower(): v for k, v in d.items()}`. -/
def lowerKeys {α : Type} [DecidableEq S] (d : List (S × α)) : List (S × α) :=
  d.foldl (fun acc e => setItem acc (py.lower e.1) e.2) []

/-- The functions on ASCII strings, with a given decoder. Texts of values are left out. -/
def ascii (loads : List UInt8 → Except PyError (Value String)) : Python String where
  lit := id
  lower s := String.ofList (s.toList.map Char.toLower)
  str _ := ""
  format := id
  intOfStr s :=
    if s.toList.all Char.isDigit ∧ s.toList ≠ [] then
      some (s.toList.foldl (fun n c => 10 * n + (c.toNat - '0'.toNat : ℕ)) 0)
    else none
  loads := loads
  setOrder := id
  setOrder_perm _ := .refl _

end Python

end FrameworkBenchmarks.Toolset
