import Mathlib.Logic.Function.Basic
import FrameworkBenchmarks.TitanPl.StaticResponse

/-!
# Expressions of an action

The expressions that `eval_static` can follow, what it makes of them, and what they evaluate to when
the action runs. The numbers are integers that a double holds exactly.
-/

namespace FrameworkBenchmarks.TitanPl.FastPath

/-! ### Syntax -/

/-- The key of a property. -/
inductive Key
  | name (s : String) (shorthand : Bool)
  | string (s : JsString) (computed : Bool)
  | number (n : ℕ)

/-- An expression whose identifiers are resolved. A template is its first text and, for each
interpolation, the text behind it; a hole of an array is `none`. -/
inductive Expression
  | string (s : JsString)
  | number (n : ℕ)
  | bool (b : Bool)
  | null
  | identifier (symbol : ℕ)
  | object (members : List (Key × Expression))
  | array (items : List (Option Expression))
  | template (head : JsString) (parts : List (Expression × JsString))
  | add (left right : Expression)
  | negate (argument : Expression)
  | paren (inner : Expression)

/-- The expression inside its parentheses. -/
def Expression.unparen : Expression → Expression
  | .paren inner => inner.unparen
  | e => e

/-! ### Values -/

inductive JsVal
  | undefined
  | null
  | bool (b : Bool)
  | number (n : ℤ)
  | nan
  | string (s : JsString)
  | array (items : List (Option JsVal))
  | object (members : List (JsString × JsVal))

/-- The concatenation of two strings, where two halves of a surrogate pair that meet are one
character. -/
def concat (s t : JsString) : JsString :=
  match s.getLast?, t with
  | some (.surrogate high), .surrogate low :: rest =>
    if high.val < 1024 ∧ 1024 ≤ low.val then
      s.dropLast ++ .scalar (Char.ofNat (0x10000 + high.val * 1024 + (low.val - 1024))) :: rest
    else s ++ t
  | _, _ => s ++ t

/-- The coercions that are not spelled out here; each may throw. -/
structure Coercions where
  /-- `+` where an operand is neither a string nor a number -/
  add : JsVal → JsVal → Option JsVal
  /-- `-` of what is no number -/
  negate : JsVal → Option JsVal
  /-- the text of an array, an object or `NaN` -/
  text : JsVal → Option JsString

section Evaluate

variable (c : Coercions)

def addValues : JsVal → JsVal → Option JsVal
  | .string s, .string t => some (.string (concat s t))
  | .string s, .number n => some (.string (concat s (jsString (toString n))))
  | .number n, .string s => some (.string (concat (jsString (toString n)) s))
  | .number m, .number n => some (.number (m + n))
  | v, w => c.add v w

def negateValue : JsVal → Option JsVal
  | .number n => some (.number (-n))
  | v => c.negate v

/-- The text of an interpolated value. -/
def interpolatedText : JsVal → Option JsString
  | .undefined => some (jsString "undefined")
  | .null => some (jsString "null")
  | .bool b => some (jsString (if b then "true" else "false"))
  | .number n => some (jsString (toString n))
  | .string s => some s
  | v => c.text v

def Key.text : Key → JsString
  | .name s _ => jsString s
  | .string s _ => s
  | .number n => jsString (toString n)

/-- Whether the member sets the prototype instead of a property. -/
def Key.setsPrototype : Key → Bool
  | .name s shorthand => s = "__proto__" && !shorthand
  | .string s computed => s = jsString "__proto__" && !computed
  | .number _ => false

/-- What the symbols are bound to; reading a symbol that has no value yet throws. -/
abbrev Bindings := ℕ → Option JsVal

mutual

/-- The value of an expression. An object has no members from its prototype here: JSON has none of
them either. -/
def evaluate (env : Bindings) : Expression → Option JsVal
  | .string s => some (.string s)
  | .number n => some (.number n)
  | .bool b => some (.bool b)
  | .null => some .null
  | .identifier symbol => env symbol
  | .object members =>
    (evaluateMembers env members).map fun members => .object (assignAll [] members)
  | .array items => (evaluateItems env items).map .array
  | .template head parts => (evaluateParts env parts).map fun tail => .string (concat head tail)
  | .add left right =>
    (evaluate env left).bind fun v => (evaluate env right).bind fun w => addValues c v w
  | .negate argument => (evaluate env argument).bind (negateValue c)
  | .paren inner => evaluate env inner

def evaluateMembers (env : Bindings) :
    List (Key × Expression) → Option (List (JsString × JsVal))
  | [] => some []
  | (key, e) :: members =>
    (evaluate env e).bind fun v => (evaluateMembers env members).map fun rest =>
      if key.setsPrototype then rest else (key.text, v) :: rest

def evaluateItems (env : Bindings) : List (Option Expression) → Option (List (Option JsVal))
  | [] => some []
  | none :: items => (evaluateItems env items).map (none :: ·)
  | some e :: items =>
    (evaluate env e).bind fun v => (evaluateItems env items).map (some v :: ·)

def evaluateParts (env : Bindings) : List (Expression × JsString) → Option JsString
  | [] => some []
  | (e, text) :: parts =>
    (evaluate env e).bind fun v => (interpolatedText c v).bind fun s =>
      (evaluateParts env parts).map fun rest => concat s (concat text rest)

end

end Evaluate

/-! ### Declarations -/

/-- What a declarator binds: a symbol, or the symbols of a destructuring pattern, of which only is
known what they are bound to for a value. -/
inductive Target
  | name (symbol : ℕ)
  | pattern (symbols : List ℕ) (bind : Bindings → JsVal → Option (List JsVal))

def Target.symbols : Target → List ℕ
  | .name symbol => [symbol]
  | .pattern symbols _ => symbols

inductive Init
  | missing
  | expression (e : Expression)
  /-- the head of a loop over items, with the item -/
  | loopItem (item : JsVal)

structure Declarator where
  isVar : Bool
  target : Target
  init : Init

/-- The bindings after the symbols got values. -/
def bindAll (env : Bindings) : List ℕ → List JsVal → Bindings
  | symbol :: symbols, v :: values => bindAll (Function.update env symbol (some v)) symbols values
  | _, _ => env

def Target.assign (target : Target) (env : Bindings) (v : JsVal) : Option Bindings :=
  match target with
  | .name symbol => some (Function.update env symbol (some v))
  | .pattern symbols bind => (bind env v).map (bindAll env symbols)

/-- Running a declarator; `var x;` changes nothing. -/
def Declarator.run (c : Coercions) (env : Bindings) (d : Declarator) : Option Bindings :=
  match d.init with
  | .missing => if d.isVar then some env else d.target.assign env .undefined
  | .expression e => (evaluate c env e).bind (d.target.assign env)
  | .loopItem item => d.target.assign env item

def runAll (c : Coercions) (env : Bindings) (ds : List Declarator) : Option Bindings :=
  ds.foldlM (Declarator.run c) env

/-- Before a declarator runs, the symbols declared by `var` are `undefined`, and the others have no
value. -/
def hoisted (ds : List Declarator) : Bindings := fun symbol =>
  if ds.any fun d => d.isVar && d.target.symbols.contains symbol then some .undefined else none

/-! ### JSON -/

mutual

/-- The value that `JSON.stringify` writes; `undefined` has none. -/
def jsonOf : JsVal → Option JsVal
  | .undefined => none
  | .null => some .null
  | .bool b => some (.bool b)
  | .number n => some (.number n)
  | .nan => some .null
  | .string s => some (.string s)
  | .array items => some (.array (jsonItems items))
  | .object members => some (.object (jsonMembers members))

def jsonItems : List (Option JsVal) → List (Option JsVal)
  | [] => []
  | none :: items => some JsVal.null :: jsonItems items
  | some v :: items => some ((jsonOf v).getD JsVal.null) :: jsonItems items

def jsonMembers : List (JsString × JsVal) → List (JsString × JsVal)
  | [] => []
  | (k, v) :: members =>
    match jsonOf v with
    | some w => (k, w) :: jsonMembers members
    | none => jsonMembers members

end

mutual

/-- The value that the text of a `serde_json::Value` stands for. -/
def ofValue : Value ℤ → JsVal
  | .null => .null
  | .bool b => .bool b
  | .number n => .number n
  | .string s => .string (jsString s)
  | .array items => .array (ofItems items)
  | .object fields => .object (ofFields fields)

def ofItems : List (Value ℤ) → List (Option JsVal)
  | [] => []
  | v :: items => some (ofValue v) :: ofItems items

def ofFields : List (String × Value ℤ) → List (JsString × JsVal)
  | [] => []
  | (k, v) :: fields => (jsString k, ofValue v) :: ofFields fields

end

/-! ### The static evaluator -/

/-- What the semantic analysis knows of a program. -/
structure Semantic where
  /-- in the order of the source -/
  declarators : List Declarator
  symbolIsMutated : ℕ → Bool
  isObjectMutatedInAst : ℕ → Bool

/-- `symbol_declaration`: the declarator that first binds the symbol. -/
def Semantic.symbolDeclaration (semantic : Semantic) (symbol : ℕ) : Option Declarator :=
  semantic.declarators.find? fun d => d.target.symbols.contains symbol

section EvalStatic

-- The text that the parser has for a string of the source.
variable (parsed : JsString → String)

def propertyKeyToString : Key → String
  | .name s _ => s
  | .string s _ => parsed s
  | .number n => toString n

def interpolate : Value ℤ → Option String
  | .string s => some s
  | .number n => some (toString n)
  | .bool b => some (if b then "true" else "false")
  | .null => some "null"
  | _ => none

def addStatic : Value ℤ → Value ℤ → Option (Value ℤ)
  | .string l, .string r => some (.string (l ++ r))
  | .string l, .number r => some (.string (l ++ toString r))
  | .number l, .string r => some (.string (toString l ++ r))
  | .number l, .number r => some (.number (l + r))
  | _, _ => none

def negateStatic : Value ℤ → Option (Value ℤ)
  | .number n => some (.number (-n))
  | _ => none

def Expression.isAggregate : Expression → Bool
  | .array _ | .object _ => true
  | _ => false

variable (semantic : Semantic)

/-- `resolve_identifier`, with the evaluation of an initialiser. -/
def resolveIdentifier (eval : Expression → Option (Value ℤ)) (symbol : ℕ) : Option (Value ℤ) :=
  if semantic.symbolIsMutated symbol then none
  else
    match semantic.symbolDeclaration symbol with
    | none => none
    | some d =>
      match d.init with
      | .missing | .loopItem _ => some .null
      | .expression e =>
        if e.isAggregate && semantic.isObjectMutatedInAst symbol then none else eval e

/-- The value of an element; a hole becomes `null`. -/
def elementValue (eval : Expression → Option (Value ℤ)) : Option Expression → Option (Value ℤ)
  | none => some .null
  | some e => eval e

/-- `eval_static`, with the levels that are left before `MAX_EVAL_DEPTH` is exceeded. -/
def evalStaticFrom : ℕ → Expression → Option (Value ℤ)
  | 0, _ => none
  | left + 1, e =>
    match e.unparen with
    | .string s => some (.string (parsed s))
    | .number n => some (.number n)
    | .bool b => some (.bool b)
    | .null => some .null
    | .identifier symbol => resolveIdentifier semantic (evalStaticFrom left) symbol
    | .object members =>
      (members.mapM fun m =>
        (evalStaticFrom left m.2).map (propertyKeyToString parsed m.1, ·)).map fun fields =>
          .object (assignAll [] fields)
    | .array items =>
      (items.mapM (elementValue (evalStaticFrom left))).map .array
    | .template head parts =>
      (parts.mapM fun part =>
        (evalStaticFrom left part.1).bind fun v =>
          (interpolate v).map (· ++ parsed part.2)).map fun texts =>
            .string (parsed head ++ String.join texts)
    | .add l r =>
      (evalStaticFrom left l).bind fun v => (evalStaticFrom left r).bind fun w => addStatic v w
    | .negate argument => (evalStaticFrom left argument).bind negateStatic
    | .paren _ => none

/-- `eval_static` at depth 0; `MAX_EVAL_DEPTH` is 16. -/
def evalStatic (e : Expression) : Option (Value ℤ) := evalStaticFrom parsed semantic 17 e

end EvalStatic

end FrameworkBenchmarks.TitanPl.FastPath
