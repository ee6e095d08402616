import Mathlib.Data.List.Dedup
import Mathlib.Data.List.Sort

/-!
# Test metadata

The tests of the suite are gathered from the `benchmark_config.json` files of the chosen
directories and filtered by the options of the run.
-/

namespace FrameworkBenchmarks.Toolset

/-- The entries of one test in a config file: the fields with a string value, and the tags. -/
structure TestKeys where
  fields : List (String × String)
  tags : Option (List String) := none
  deriving DecidableEq

/-- A config file: the framework, and its tests by name. -/
structure ConfigFile where
  framework : String
  tests : List (List (String × TestKeys))
  directory : String

/-- A test object. Objects with equal fields differ in their identity. -/
structure FrameworkTest where
  ident : ℕ
  name : String
  directory : String
  tags : Option (List String)
  deriving DecidableEq

/-- The exceptions of gathering. -/
inductive GatherError where
  | languageNotFound (language : String)
  | testDirNotFound (testDir : String)
  | configNotLoaded (file : String)
  | incorrectKey (key testName framework : String)
  | incorrectUrl (key testName : String)
  | testsNotFound (names : List String)
  deriving DecidableEq

/-- The files of the suite: the test directories of a language, the config file of a test
directory, all config files, and their contents, if they can be decoded. -/
structure Suite where
  languageTests : String → Option (List String)
  frameworkConfig : String → Option String
  configFiles : List String
  load : String → Option ConfigFile
  supportedDbs : List String

/-- The options of a run. -/
structure Config where
  testLang : List String
  testDir : List String
  tag : List String

/-- What is required of a key, and its allowed values, if they are restricted. -/
structure SchemaKey where
  key : String
  allowed : Option (List String) := none
  required : Bool := false
  requiredWith : Option String := none

/-- The schema of a test. -/
def schema (supportedDbs : List String) : List SchemaKey :=
  [{ key := "language", required := true },
   { key := "webserver" },
   { key := "classification", allowed := some ["Fullstack", "Micro", "Platform"] },
   { key := "database", allowed := some (supportedDbs ++ ["None"]) },
   { key := "approach", allowed := some ["Realistic", "Stripped"] },
   { key := "orm", allowed := some ["Full", "Micro", "Raw"], requiredWith := some "database" },
   { key := "platform" },
   { key := "framework" },
   { key := "os", allowed := some ["Linux", "Windows"] },
   { key := "database_os", allowed := some ["Linux", "Windows"],
     requiredWith := some "database" }]

/-- The fields that hold a url. -/
def urlKeys : List String :=
  ["json_url", "db_url", "query_url", "fortune_url", "update_url", "plaintext_url",
    "cached_query_url"]

/-- The value of a field in lower case, or `none`. -/
def getTestVal (fields : List (String × String)) (k : String) : String :=
  ((fields.lookup k).getD "none").toLower

/-- The assignment of a field. -/
def setField (fields : List (String × String)) (k v : String) : List (String × String) :=
  (k, v) :: fields.filter (·.1 ≠ k)

/-- Every url starts with a slash. -/
def validateUrls (testName : String) (keys : TestKeys) : Except GatherError Unit :=
  match urlKeys.find? fun k => (keys.fields.lookup k).any fun v => v.toList.head? ≠ some '/' with
  | some k => .error (.incorrectUrl k testName)
  | none => .ok ()

/-- One key is checked against the schema, and normalized. -/
def validateKey (testName projectName : String) (keys : TestKeys) (s : SchemaKey) :
    Except GatherError TestKeys :=
  let val := getTestVal keys.fields s.key
  let keys := { keys with fields := setField keys.fields s.key val }
  let incorrect :=
    if val = "none" then
      s.required || s.requiredWith.any fun k => getTestVal keys.fields k ≠ "none"
    else s.allowed.any fun allowed => val ∉ allowed.map String.toLower
  if incorrect then .error (.incorrectKey s.key testName projectName) else .ok keys

/-- A test is validated and normalized. -/
def validateTest (supportedDbs : List String) (testName projectName : String) (keys : TestKeys) :
    Except GatherError TestKeys := do
  validateUrls testName keys
  let keys ← (schema supportedDbs).foldlM (validateKey testName projectName) keys
  return { keys with fields := setField keys.fields "project_name" projectName }

/-- The test object of one entry. Its fields are those of the entry, `name` included. -/
def parseTest (supportedDbs : List String) (config : ConfigFile) (entry : String × TestKeys) :
    Except GatherError FrameworkTest := do
  let keys ← validateTest supportedDbs entry.1 config.framework entry.2
  let testName := if entry.1 = "default" then config.framework
    else config.framework ++ "-" ++ entry.1
  return { ident := 0, name := (keys.fields.lookup "name").getD testName,
           directory := (keys.fields.lookup "directory").getD config.directory, tags := keys.tags }

/-- The test objects of a config file. -/
def parseConfig (supportedDbs : List String) (config : ConfigFile) :
    Except GatherError (List FrameworkTest) :=
  config.tests.flatten.mapM (parseTest supportedDbs config)

/-- The test directories that the options name. -/
def testDirs (suite : Suite) (config : Config) : Except GatherError (List String) :=
  if config.testLang ≠ [] then do
    let dirs ← config.testLang.mapM fun lang =>
      match suite.languageTests lang with
      | some dirs => .ok dirs
      | none => .error (.languageNotFound lang)
    return dirs.flatten
  else .ok config.testDir

/-- The config files of the chosen directories; without any directory, all of them. -/
def chosenFiles (suite : Suite) (config : Config) : Except GatherError (List String) := do
  let dirs ← testDirs suite config
  if dirs ≠ [] then
    dirs.mapM fun dir =>
      match suite.frameworkConfig dir with
      | some file => .ok file
      | none => .error (.testDirNotFound dir)
  else return suite.configFiles

/-- The tests of a config file. -/
def loadTests (suite : Suite) (file : String) : Except GatherError (List FrameworkTest) :=
  match suite.load file with
  | some config => parseConfig suite.supportedDbs config
  | none => .error (.configNotLoaded file)

/-- The test objects of the chosen directories, each with an identity of its own. -/
def chosenTests (suite : Suite) (config : Config) : Except GatherError (List FrameworkTest) := do
  let files ← chosenFiles suite config
  let tests ← files.mapM (loadTests suite)
  return tests.flatten.zipIdx.map fun t => { t.1 with ident := t.2 }

/-- Whether a test has a tag. -/
def FrameworkTest.hasTag (test : FrameworkTest) (t : String) : Bool :=
  test.tags.any fun tags => tags.contains t

/-- The filter: how often a test is appended to the list. -/
def filterTest (config : Config) (incl excl : List String) (test : FrameworkTest) :
    List FrameworkTest :=
  if test.hasTag "broken" then []
  else
    (if config.tag.any fun t => test.hasTag t && !excl.contains test.name then [test] else []) ++
    if incl.length > 0 then
      if test.name ∈ incl then [test] else []
    else if test.name ∉ excl ∧ config.tag = [] then [test] else []

/-- A set of objects is listed in some order. -/
structure SetOrder where
  order : List FrameworkTest → List FrameworkTest
  perm : ∀ l, (order l).Perm l.dedup

/-- The tests of a run. -/
def gatherTests (sets : SetOrder) (suite : Suite) (config : Config) (incl excl : List String) :
    Except GatherError (List FrameworkTest) := do
  let tests ← chosenTests suite config
  let tests := tests.flatMap (filterTest config incl excl)
  let missing := incl.filter fun name => name ∉ tests.map FrameworkTest.name
  if missing ≠ [] then throw (.testsNotFound missing)
  return (sets.order tests).insertionSort fun s t => s.name ≤ t.name

end FrameworkBenchmarks.Toolset
