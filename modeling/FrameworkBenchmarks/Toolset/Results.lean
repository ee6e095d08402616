import FrameworkBenchmarks.Toolset.Python

/-!
# The results of a run

A `Results` object keeps the git data as the bytes that `subprocess.check_output` returns.
`__write_results` serialises the object with `ByteEncoder`, `upload` and `parse` with the default encoder,
and `load` replaces the attributes by those of the document in `results.json`. A document stands for its
text: `json.load` of what was written is what was encoded. The file system works.
-/

namespace FrameworkBenchmarks.Toolset

/-- A Python string, or bytes. -/
inductive PyText where
  | str (s : String)
  | bytes (b : List UInt8)
  deriving DecidableEq

/-- A value of an attribute. -/
abbrev PyVal := Value PyText

/-- The exceptions that a call raises. -/
inductive Raised where
  | typeError
  | keyError
  | attributeError
  | unicodeDecodeError
  deriving DecidableEq

/-! ### Encoders -/

/-- What an encoder makes of an object that is not serialisable as it is. -/
abbrev Default := List UInt8 → Except Raised String

/-- `json.JSONEncoder.default` -/
def jsonEncoder : Default := fun _ => .error .typeError

/-- `bytes.decode` -/
def decode (obj : List UInt8) : Except Raised String :=
  match String.fromUTF8? ⟨obj.toArray⟩ with
  | some s => .ok s
  | none => .error .unicodeDecodeError

/-- `ByteEncoder.default` -/
def byteEncoder : Default := decode

def encodeText (default : Default) : PyText → Except Raised String
  | .str s => .ok s
  | .bytes b => default b

/-- A key must be a string: the encoder is not asked about others. -/
def encodeKey : PyText → Except Raised String
  | .str s => .ok s
  | .bytes _ => .error .typeError

mutual

/-- `json.dumps`, with an encoder. -/
def encode (default : Default) : PyVal → Except Raised (Value String)
  | .null => .ok .null
  | .bool b => .ok (.bool b)
  | .int n => .ok (.int n)
  | .float x => .ok (.float x)
  | .str s => (encodeText default s).map .str
  | .list items => (encodeItems default items).map .list
  | .dict entries => (encodeEntries default entries).map .dict

def encodeItems (default : Default) : List PyVal → Except Raised (List (Value String))
  | [] => .ok []
  | item :: items => do
    let item ← encode default item
    return item :: (← encodeItems default items)

def encodeEntries (default : Default) :
    List (PyText × PyVal) → Except Raised (List (String × Value String))
  | [] => .ok []
  | (key, value) :: entries => do
    let key ← encodeKey key
    let value ← encode default value
    return (key, value) :: (← encodeEntries default entries)

end

mutual

/-- `json.load`, of a document. -/
def loads : Value String → PyVal
  | .null => .null
  | .bool b => .bool b
  | .int n => .int n
  | .float x => .float x
  | .str s => .str (.str s)
  | .list items => .list (loadsItems items)
  | .dict entries => .dict (loadsEntries entries)

def loadsItems : List (Value String) → List PyVal
  | [] => []
  | item :: items => loads item :: loadsItems items

def loadsEntries : List (String × Value String) → List (PyText × PyVal)
  | [] => []
  | (key, value) :: entries => (.str key, loads value) :: loadsEntries entries

end

/-! ### The object -/

/-- The attributes that are written, and the metadata of the tests. -/
inductive Attr where
  | uuid | name | environmentDescription | git | operatingSystem | startTime | completionTime
  | concurrencyLevels | pipelineConcurrencyLevels | queryIntervals | cachedQueryIntervals | frameworks
  | duration | rawData | completed | succeeded | failed | verify | testMetadata
  deriving DecidableEq

/-- The keys of `__to_jsonable`, in order. -/
def Attr.all : List Attr :=
  [.uuid, .name, .environmentDescription, .git, .operatingSystem, .startTime, .completionTime,
    .concurrencyLevels, .pipelineConcurrencyLevels, .queryIntervals, .cachedQueryIntervals, .frameworks,
    .duration, .rawData, .completed, .succeeded, .failed, .verify, .testMetadata]

/-- A document with these keys. -/
abbrev Document := Attr → Value String

/-- `json.dumps` of a dictionary with these keys. -/
def dumps (default : Default) (obj : Attr → PyVal) : Except Raised Document := do
  let entries ← Attr.all.mapM fun a => (encode default (obj a)).map fun value => (a, value)
  return fun a => (entries.lookup a).getD .null

/-- What is in `results.json`. -/
inductive ResultsFile where
  | missing
  | truncated
  | document (doc : Document)

structure Results where
  attrs : Attr → PyVal
  file : ResultsFile

/-- The git data. -/
structure GitData where
  commitId : List UInt8
  repositoryUrl : List UInt8
  branchName : List UInt8

/-- What a run is given: the upload address, the test types, the metadata of the tests, and the other
values that the attributes start with. -/
structure RunConfig where
  resultsUploadUri : Option String
  testTypes : List String
  metadata : Value String
  given : Attr → Value String

/-- `Results.__init__`, where results of an earlier run may be found. -/
def Results.init (config : RunConfig) (git : Option GitData) (file : ResultsFile) : Results where
  attrs
    | .git =>
      match git with
      | none => .null
      | some git => .dict [(.str "commitId", .str (.bytes git.commitId)),
          (.str "repositoryUrl", .str (.bytes git.repositoryUrl)),
          (.str "branchName", .str (.bytes git.branchName))]
    | .completionTime => .null
    | .rawData => .dict (config.testTypes.map fun type => (.str type, .dict []))
    | .completed => .dict []
    | .succeeded => .dict (config.testTypes.map fun type => (.str type, .list []))
    | .failed => .dict (config.testTypes.map fun type => (.str type, .list []))
    | .verify => .dict []
    | a => loads (config.given a)
  file := file

/-- `__to_jsonable` -/
def Results.toJsonable (config : RunConfig) (s : Results) : Attr → PyVal :=
  Function.update s.attrs .testMetadata (loads config.metadata)

/-! ### Calls -/

/-- What a piece of a method does: the new state, and the exception that ends the method. -/
abbrev Effect := Results → Results × Option Raised

def Effect.andThen (first second : Effect) : Effect := fun s =>
  match first s with
  | (s, none) => second s
  | (s, some e) => (s, some e)

/-- A change of one attribute. -/
def assign (a : Attr) (f : PyVal → Except Raised PyVal) : Effect := fun s =>
  match f (s.attrs a) with
  | .ok v => ({ s with attrs := Function.update s.attrs a v }, none)
  | .error e => (s, some e)

/-- `d[key] = value` -/
def setKey (key : String) (value : PyVal) : PyVal → Except Raised PyVal
  | .dict entries => .ok (.dict (Python.setItem entries (.str key) value))
  | _ => .error .typeError

/-- `d[key]` -/
def getKey (key : String) : PyVal → Except Raised PyVal
  | .dict entries =>
    match entries.lookup (.str key) with
    | some value => .ok value
    | none => .error .keyError
  | _ => .error .typeError

/-- `if key not in d.keys(): d[key] = dict()` -/
def addDict (key : String) : PyVal → Except Raised PyVal
  | .dict entries =>
    .ok (if entries.any (·.1 = .str key) then .dict entries
      else .dict (Python.setItem entries (.str key) (.dict [])))
  | _ => .error .attributeError

/-- `d[outer][inner] = value` -/
def setNested (outer inner : String) (value d : PyVal) : Except Raised PyVal := do
  let entry ← setKey inner value (← getKey outer d)
  setKey outer entry d

/-- `if name not in d[key]: d[key].append(name)`, where `d[key]` is a list of names. -/
def appendName (key name : String) (d : PyVal) : Except Raised PyVal := do
  match ← getKey key d with
  | .list names =>
    if names.any fun | .str s => s = .str name | _ => false then return d
    else setKey key (.list (names ++ [.str (.str name)])) d
  | _ => .error .attributeError

/-- `open(self.file, 'w')`, and then the serialisation and the write. -/
def dumpToFile (config : RunConfig) (default : Default) : Effect := fun s =>
  match dumps default (s.toJsonable config) with
  | .ok doc => ({ s with file := .document doc }, none)
  | .error e => ({ s with file := .truncated }, some e)

/-- `__write_results`: an exception of the encoder is no `IOError`. -/
def writeResults (config : RunConfig) : Effect := dumpToFile config byteEncoder

/-- `__count_commits` -/
def countCommits (jsonResult : Value String) : Effect :=
  assign .rawData (setKey "commitCounts" (loads jsonResult))

/-- `__count_sloc` -/
def countSloc (frameworkToCount : Value String) : Effect :=
  assign .rawData (setKey "slocCounts" (loads frameworkToCount))

/-- A call of a method. -/
inductive Call where
  | writeIntermediate (testName statusMessage : String)
  | setCompletionTime (time : ℤ)
  | reportBenchmarkResults (testName testType : String) (results : List (Value String))
  | reportVerifyResults (testName testType result : String)
  | load
  | parse (commitCounts slocCounts : Value String)
  | upload

/-- `upload` sends the document, or logs an error; it leaves the object as it is. -/
def Results.step (config : RunConfig) : Call → Effect
  | .writeIntermediate testName statusMessage =>
    (assign .completed (setKey testName (.str (.str statusMessage)))).andThen (writeResults config)
  | .setCompletionTime time =>
    (assign .completionTime fun _ => .ok (.int time)).andThen (writeResults config)
  | .reportBenchmarkResults testName testType results =>
    (assign .rawData (addDict testType)).andThen
      (if results = [] then assign .failed (appendName testType testName)
      else
        (assign .rawData (setNested testType testName (.list (loadsItems results)))).andThen
          (assign .succeeded (appendName testType testName)))
  | .reportVerifyResults testName testType result =>
    (assign .verify (addDict testName)).andThen
      (assign .verify (setNested testName testType (.str (.str result))))
  | .load => fun s =>
    match s.file with
    | .document doc => ({ s with attrs := fun a => loads (doc a) }, none)
    | _ => (s, none)
  | .parse commitCounts slocCounts =>
    ((countCommits commitCounts).andThen (countSloc slocCounts)).andThen (dumpToFile config jsonEncoder)
  | .upload => fun s => (s, none)

end FrameworkBenchmarks.Toolset
