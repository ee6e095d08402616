import FrameworkBenchmarks.Toolset.Python

/-!
# Verification of JSON bodies

The checks of the `json`, `db` and `query` tests. A check returns its problems, or raises.
-/

namespace FrameworkBenchmarks.Toolset

variable {S : Type} [DecidableEq S] (py : Python S)

/-- How bad a problem is. -/
inductive Level where
  | warn
  | fail
  deriving DecidableEq, Repr

/-- A problem: a triple of its level, its message and the url it was found at. -/
structure Problem where
  level : Level
  message : String
  url : String
  deriving DecidableEq, Repr

/-- A raw body is decoded, or the problem with it is returned. -/
def basicBodyVerification (body : Option (List UInt8)) (url : String) :
    Except PyError (Value S ⊕ List Problem) :=
  match body with
  | none => .ok (.inr [⟨.fail, "No response", url⟩])
  | some [] => .ok (.inr [⟨.fail, "Empty response", url⟩])
  | some body =>
    match py.loads body with
    | .ok response => .ok (.inl response)
    | .error (.valueError ve) => .ok (.inr [⟨.fail, "Invalid JSON: " ++ ve, url⟩])
    | .error e => .error e

/-- An item whose value is a string, in lower case. -/
def lowerValue (item : S × Value S) : Option (S × S) :=
  match item.2 with
  | .str v => some (item.1, py.lower v)
  | _ => none

/-- The items of an object whose values are all strings, all in lower case. -/
def lowerItems (jsonObject : Value S) : Option (List (S × S)) :=
  match jsonObject with
  | .dict entries => (entries.mapM (lowerValue py)).map py.lowerKeys
  | _ => none

/-- The object should closely resemble `{"message": "Hello, World!"}`. -/
def verifyHelloworldObject (jsonObject : Value S) (url : String) :
    Except PyError (List Problem) :=
  match lowerItems py jsonObject with
  | none => .ok [⟨.fail, "Not a valid JSON object", url⟩]
  | some jsonObject =>
    match jsonObject.lookup (py.lit "message") with
    | none => .ok [⟨.fail, "Missing required key 'message'", url⟩]
    | some message => do
      let jsonLen := jsonObject.length
      let additional := ", ".intercalate
        (((jsonObject.map Prod.fst).filter (· ≠ py.lit "message")).map py.format)
      let problems := if jsonLen > 1 then
        [⟨.warn, "Too many JSON key/value pairs, consider removing: " ++ additional, url⟩] else []
      if jsonLen > 27 then
        -- `append` is called with two arguments
        throw (.typeError "list.append() takes exactly one argument (2 given)")
      if message ≠ py.lit "hello, world!" then
        return [⟨.fail, "Expected message of 'hello, world!', got '" ++ py.format message ++ "'",
          url⟩]
      return problems

/-- The keys that a row has. -/
def requiredKeys : List S :=
  [py.lit "id", py.lit "randomnumber"]

/-- The value of a key should be a number, about which there may be a warning. -/
def checkInt (key : String) (warning : ℤ → Option String) (value : Value S) (url : String)
    (maxInfraction : Level) : Except PyError (List Problem) :=
  match py.int value with
  | .ok n => .ok ((warning n).toList.map fun text => ⟨.warn, text, url⟩)
  | .error (.typeError e) =>
    .ok [⟨maxInfraction, "Response key '" ++ key ++ "' does not map to an integer - " ++ e, url⟩]
  | .error e => .error e

/-- An `id` should be one of the table's. -/
def checkId (value : Value S) (url : String) (maxInfraction : Level) :
    Except PyError (List Problem) :=
  checkInt py "id" (fun oId =>
    if oId > 10000 ∨ oId < 1 then
      some ("Response key id should be between 1 and 10,000: " ++ toString oId)
    else none) value url maxInfraction

/-- A `randomNumber` should not be too large. -/
def checkRandomnumber (value : Value S) (url : String) (maxInfraction : Level) :
    Except PyError (List Problem) :=
  checkInt py "randomnumber" (fun oRn =>
    if oRn > 10000 then
      some ("Response key `randomNumber` is over 10,000. This may negatively affect " ++
        "performance by sending extra bytes")
    else none) value url maxInfraction

/-- The keys of a row should be the required ones. -/
def keyProblems (dbObject : List (S × Value S)) (url : String) (maxInfraction : Level) :
    List Problem :=
  let missing := (py.setOrder (requiredKeys py)).filter fun v => (dbObject.lookup v).isNone
  let extras := (dbObject.map Prod.fst).filter (· ∉ requiredKeys py)
  (missing.map fun v =>
    ⟨maxInfraction, "Response object was missing required key: " ++ py.format v, url⟩) ++
  if dbObject.length > (requiredKeys py).length then
    [⟨.warn, "An extra key(s) is being included with the db object: " ++
      ", ".intercalate ((py.setOrder extras).map py.format), url⟩]
  else []

/-- The object should closely resemble `{"id": 2354, "randomNumber": 8952}`. -/
def verifyRandomnumberObject (dbObject : Value S) (url : String) (maxInfraction : Level) :
    Except PyError (List Problem) :=
  match dbObject with
  | .dict entries =>
    let dbObject := py.lowerKeys entries
    let problems := keyProblems py dbObject url maxInfraction
    -- all required keys must be present
    match problems, dbObject.lookup (py.lit "id"), dbObject.lookup (py.lit "randomnumber") with
    | [], some i, some rn => do
      let idProblems ← checkId py i url maxInfraction
      let rnProblems ← checkRandomnumber py rn url maxInfraction
      return idProblems ++ rnProblems
    | problems, _, _ => .ok problems
  | dbObject =>
    let text := py.str dbObject
    let got := if text.length > 20 then (text.take 17).toString ++ "..." else text
    .ok [⟨maxInfraction, "Expected a JSON object, got '" ++ got ++ "' instead", url⟩]

/-- The objects are verified until five bad ones have been found. -/
def verifyObjects (url : String) (maxInfraction : Level) :
    List (Value S) → ℕ → List Problem → Except PyError (List Problem)
  | [], _, problems => return problems
  | obj :: innerObjects, badObjectsFound, problems =>
    if badObjectsFound < 5 then do
      let findings ← verifyRandomnumberObject py obj url maxInfraction
      if findings.length > 0 then
        verifyObjects url maxInfraction innerObjects (badObjectsFound + 1) (problems ++ findings)
      else verifyObjects url maxInfraction innerObjects badObjectsFound problems
    else return problems

/-- Whether a value is an object. -/
def Value.isDict : Value S → Bool
  | .dict _ => true
  | _ => false

/-- The decoded body should be a list of `expectedLen` rows. -/
def verifyRows (expectedLen : ℤ) (response : Value S) (url : String) (maxInfraction : Level) :
    Except PyError (List Problem) :=
  match response with
  | .list response =>
    let problems := if response.any fun item => !item.isDict then
      [⟨maxInfraction, "Not all items in the JSON array were JSON objects", url⟩] else []
    let problems := problems ++ if (response.length : ℤ) ≠ expectedLen then
      [⟨maxInfraction, "JSON array length of " ++ toString response.length ++
        " != expected length of " ++ toString expectedLen, url⟩] else []
    verifyObjects py url maxInfraction response 0 problems
  | response => do
    -- a single object rather than a list of one
    let problems ← verifyRandomnumberObject py response url maxInfraction
    return ⟨maxInfraction, "Top-level JSON is an object, not an array", url⟩ :: problems

/-- The body should be a list of `expectedLen` rows. -/
def verifyRandomnumberList (expectedLen : ℤ) (body : Option (List UInt8)) (url : String)
    (maxInfraction : Level) : Except PyError (List Problem) := do
  match ← basicBodyVerification py body url with
  | .inr problems => return problems
  | .inl response => verifyRows py expectedLen response url maxInfraction

/-- The number of rows that a number of queries asks for. -/
def expectedLen (queries : ℤ) : ℤ :=
  if queries > 500 then 500 else if queries < 1 then 1 else queries

/-- The check of the body for a `queries` parameter that is not a number, or for which the check of
the body raised a `ValueError`. -/
def verifyStringyCase (q : S) (maxInfraction : Level) (body : Option (List UInt8))
    (caseUrl : String) (headerProblems : List Problem) : Except PyError (List Problem) :=
  let warning (given : String) : String :=
    given ++ " given for stringy `queries` parameter " ++ py.format q ++
      "\nSuggestion: modify your /queries route to handle this case " ++
      "(this will be a failure in future rounds, please fix)"
  match body with
  | none => return [⟨maxInfraction, warning "No response", caseUrl⟩]
  | some [] => return [⟨maxInfraction, warning "Empty response", caseUrl⟩]
  | some _ => do
    let problems ← verifyRandomnumberList py 1 body caseUrl maxInfraction
    return problems ++ headerProblems

/-- The check of the body of one query case. The problems that the checks of the headers and of the
updates return are given. -/
def verifyQueryCase (q : S) (maxInfraction : Level) (body : Option (List UInt8)) (caseUrl : String)
    (checkUpdates : Bool) (headerProblems updateProblems : List Problem) :
    Except PyError (List Problem) :=
  tryCatch (do
    let queries ← py.int (.str q)
    let problems ← verifyRandomnumberList py (expectedLen queries) body caseUrl maxInfraction
    return problems ++ headerProblems ++
      if checkUpdates ∧ queries ≥ 500 then updateProblems else [])
    fun e =>
      match e with
      | .valueError _ => verifyStringyCase py q maxInfraction body caseUrl headerProblems
      | e => throw e

end FrameworkBenchmarks.Toolset
