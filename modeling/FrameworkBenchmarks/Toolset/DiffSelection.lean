import FrameworkBenchmarks.Common.Regex
import Mathlib.Data.List.TakeWhile

/-!
# Selection of tests from a diff

`github_actions_diff.py` looks for commands in the commit message and for paths in the list of changed
files, by searches with regular expressions over the whole texts, and prints the tests to run.

The test directories, the changed paths as `git diff --name-only` lists them and the message are the
inputs; the environment they come from and the lines printed on the way are left out.
-/

namespace FrameworkBenchmarks.Toolset

open FrameworkBenchmarks.Common

/-- A text by its characters. -/
abbrev Text := List Char

scoped instance lawfulBEq_text : LawfulBEq Text := inferInstance

/-- A path in the list of changed files. -/
structure ChangedPath where
  text : Text
  nonempty : text ≠ []
  oneLine : '\n' ∉ text

/-- `clean_output`, on the lines of the output. -/
def cleanOutput (lines : List Text) : Text := ['\n'].intercalate (lines.filter (· ≠ []))

/-- The characters `str.strip` removes. -/
def isSpace (c : Char) : Bool :=
  c.toNat ∈ [9, 10, 11, 12, 13, 28, 29, 30, 31, 32, 133, 160, 5760, 8192, 8193, 8194, 8195, 8196, 8197,
    8198, 8199, 8200, 8201, 8202, 8232, 8233, 8239, 8287, 12288]

def strip (s : Text) : Text := ((s.dropWhile isSpace).reverse.dropWhile isSpace).reverse

theorem strip_eq_nil_iff {s : Text} : strip s = [] ↔ ∀ c ∈ s, isSpace c = true := by
  unfold strip
  rw [List.reverse_eq_nil_iff, List.dropWhile_eq_nil_iff]
  constructor
  · intro h c hc
    rw [← List.takeWhile_append_dropWhile (p := isSpace) (l := s), List.mem_append] at hc
    rcases hc with hspace | hrest
    · exact List.mem_takeWhile_imp hspace
    · exact h c (List.mem_reverse.mpr hrest)
  · intro h c hc
    exact h c ((List.dropWhile_sublist isSpace).mem (List.mem_reverse.mp hc))

/-- `.strip().split(' ')` -/
def words (s : Text) : List Text := (strip s).splitOn ' '

/-- The key of a command: an opening bracket, `ci`, its name and a space. -/
def commandKey (name : String) : Text := ("[ci " ++ name ++ " ").toList

/-- `\[ci name .+\]` -/
def commandRegex (name : String) : Regex := .bracketed (commandKey name) .anyPlus ']'

/-- `\[ci name (.+)\]` -/
def argumentRegex (name : String) : Regex := .bracketed (commandKey name) (.group .anyPlus) ']'

/-- `re.search(...)` of a command in the message. -/
def hasCommand (name : String) (msg : Text) : Bool := ((commandRegex name).search true msg).isSome

/-- `re.findall(...)[0].strip().split(' ')` of a command in the message. -/
def arguments (name : String) (msg : Text) : List Text :=
  match (argumentRegex name).search true msg with
  | some way => words way.captured
  | none => []

/-- The tests forced by name. -/
def forcedTests (name : String) (testDirs : List Text) (msg : Text) : List Text :=
  (arguments name msg).filter (· ∈ testDirs)

/-- The tests forced by language. -/
def forcedLangs (name : String) (testDirs : List Text) (msg : Text) : List Text :=
  testDirs.flatMap fun test =>
    ((arguments name msg).filter fun lang => (lang ++ ['/']).isPrefixOf test).map fun _ => test

/-- `^toolset\/(?!(travis\/|continuous\/|scaffolding\/))|^tfb|^Dockerfile|^.github\/workflows\/` -/
def coreRegex : Regex :=
  .alt (.seq .lineStart (.seq (.text "toolset/".toList) (.notAhead (.alt (.text "travis/".toList)
      (.alt (.text "continuous/".toList) (.text "scaffolding/".toList))))))
    (.alt (.seq .lineStart (.text "tfb".toList))
      (.alt (.seq .lineStart (.text "Dockerfile".toList))
        (.seq .lineStart (.seq .anyOne (.text "github/workflows/".toList)))))

def fwFoundInChanges (test changes : Text) : Bool :=
  ((Regex.text ("frameworks/".toList ++ test ++ "/".toList)).search true changes).isSome

/-- The tests in `run_tests` when the script quits. -/
def runTests (testDirs : List Text) (paths : List ChangedPath) (msg : Text) : List Text :=
  let changes := cleanOutput (paths.map ChangedPath.text)
  if ((Regex.text "[ci run-all]".toList).search true msg).isSome then testDirs
  else if hasCommand "fw-only" msg then forcedTests "fw-only" testDirs msg
  else if hasCommand "lang-only" msg then forcedLangs "lang-only" testDirs msg
  else
    let forced :=
      (if hasCommand "fw" msg then forcedTests "fw" testDirs msg else []) ++
        (if hasCommand "lang" msg then forcedLangs "lang" testDirs msg else [])
    if (coreRegex.search true changes).isSome then testDirs
    else forced ++ testDirs.filter fun test => fwFoundInChanges test changes

end FrameworkBenchmarks.Toolset
