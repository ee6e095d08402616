import FrameworkBenchmarks.Toolset.DiffSelection

/-!
# The parser of benchmark logs

`Results.parse_test` goes through the lines of `raw.txt`. A line that announces a level starts a new
entry, and a line that announces the primer or the warmup leaves out what follows. The figures of a line
are found by substring tests and regular expressions, of the form of a number between two literal texts.
`__parse_stats`, which reads the statistics that were collected in the meantime, is a parameter.
-/

namespace FrameworkBenchmarks.Toolset.RawFile

/-! ### Searches in a line -/

/-- `word in line` -/
def mentions (word : Text) : Text → Bool
  | [] => word.isPrefixOf []
  | c :: line => word.isPrefixOf (c :: line) || mentions word line

/-- A match of `before([0-9]+)after` at the start of a text. What follows the digits is no digit. -/
def numberAt (before after line : Text) : Option ℕ :=
  if before.isPrefixOf line then
    let rest := line.drop before.length
    let digits := rest.takeWhile Char.isDigit
    if digits ≠ [] ∧ after.isPrefixOf (rest.drop digits.length) then some (Nat.ofDigitChars 10 digits 0)
    else none
  else none

/-- `re.search` of `before([0-9]+)after`, and `int` of the group. -/
def searchNumber (before after : Text) : Text → Option ℕ
  | [] => numberAt before after []
  | c :: line =>
    match numberAt before after (c :: line) with
    | some n => some n
    | none => searchNumber before after line

/-- `[us|ms|s|m|%]`, which is a class of characters. -/
def isUnit (c : Char) : Bool := c ∈ ['u', 's', '|', 'm', '%']

/-- A match of `[0-9]+\.*[0-9]*[us|ms|s|m|%]+` at the start of a text. -/
def figureAt (line : Text) : Option Text :=
  let whole := line.takeWhile Char.isDigit
  let rest := line.drop whole.length
  let dots := rest.takeWhile (· = '.')
  let rest := rest.drop dots.length
  let fraction := rest.takeWhile Char.isDigit
  let unit := (rest.drop fraction.length).takeWhile isUnit
  if whole ≠ [] ∧ unit ≠ [] then some (whole ++ dots ++ fraction ++ unit) else none

/-- `re.findall` of the figures, where some characters belong to the last one found. -/
def figures : ℕ → Text → List Text
  | _, [] => []
  | skip + 1, _ :: line => figures skip line
  | 0, c :: line =>
    match figureAt (c :: line) with
    | some figure => figure :: figures (figure.length - 1) line
    | none => figures 0 line

/-! ### Entries -/

/-- An entry of the results; a key that was not set is `none`. -/
structure RawData where
  latencyAvg : Option Text := none
  latencyStdev : Option Text := none
  latencyMax : Option Text := none
  totalRequests : Option ℕ := none
  connect : Option ℕ := none
  read : Option ℕ := none
  write : Option ℕ := none
  timeout : Option ℕ := none
  status5xx : Option ℕ := none
  startTime : Option ℕ := none
  endTime : Option ℕ := none
  deriving DecidableEq

/-- The exceptions of `parse_test`: a group of a search without a match, and a missing key. -/
inductive ParseError where
  | attributeError
  | keyError
  deriving DecidableEq

def readLatency (line : Text) (rawData : RawData) : RawData :=
  if mentions "Latency".toList line then
    match figures 0 line with
    | [avg, stdev, max, _] =>
      { rawData with latencyAvg := some avg, latencyStdev := some stdev, latencyMax := some max }
    | _ => rawData
  else rawData

def readRequests (line : Text) (rawData : RawData) : RawData :=
  if mentions "requests in".toList line then
    match searchNumber [] " requests in".toList line with
    | some n => { rawData with totalRequests := some n }
    | none => rawData
  else rawData

/-- A number that a line must have if it has a word. -/
def readNeeded (word before : Text) (set : RawData → ℕ → RawData) (line : Text) (rawData : RawData) :
    Except ParseError RawData :=
  if mentions word line then
    match searchNumber before [] line with
    | some n => .ok (set rawData n)
    | none => .error .attributeError
  else .ok rawData

def readConnect : Text → RawData → Except ParseError RawData :=
  readNeeded "connect".toList "connect ".toList fun rawData n => { rawData with connect := some n }

def readRead : Text → RawData → Except ParseError RawData :=
  readNeeded "read".toList "read ".toList fun rawData n => { rawData with read := some n }

def readWrite : Text → RawData → Except ParseError RawData :=
  readNeeded "write".toList "write ".toList fun rawData n => { rawData with write := some n }

def readTimeout : Text → RawData → Except ParseError RawData :=
  readNeeded "timeout".toList "timeout ".toList fun rawData n => { rawData with timeout := some n }

def readSocketErrors (line : Text) (rawData : RawData) : Except ParseError RawData :=
  if mentions "Socket errors".toList line then do
    let rawData ← readConnect line rawData
    let rawData ← readRead line rawData
    let rawData ← readWrite line rawData
    readTimeout line rawData
  else .ok rawData

def readNon2xx (line : Text) (rawData : RawData) : RawData :=
  if mentions "Non-2xx".toList line then
    match searchNumber "Non-2xx or 3xx responses: ".toList [] line with
    | some n => { rawData with status5xx := some n }
    | none => rawData
  else rawData

def readStartTime : Text → RawData → Except ParseError RawData :=
  readNeeded "STARTTIME".toList [] fun rawData n => { rawData with startTime := some n }

/-- The end of an entry, and the statistics between its two times. -/
def readEndTime {S : Type} (parseStats : ℕ → ℕ → S) (line : Text) (rawData : RawData) :
    Except ParseError (RawData × List S) :=
  if mentions "ENDTIME".toList line then
    match searchNumber [] [] line with
    | none => .error .attributeError
    | some endTime =>
      match rawData.startTime with
      | none => .error .keyError
      | some startTime => .ok ({ rawData with endTime := some endTime }, [parseStats startTime endTime])
  else .ok (rawData, [])

/-- What a line adds to an entry. -/
def readLine {S : Type} (parseStats : ℕ → ℕ → S) (line : Text) (rawData : RawData) :
    Except ParseError (RawData × List S) := do
  let rawData ← readSocketErrors line (readRequests line (readLatency line rawData))
  let rawData ← readStartTime line (readNon2xx line rawData)
  readEndTime parseStats line rawData

/-! ### Lines -/

/-- The variables of `parse_test`: `rawData` is the last entry of the results, if it is set. -/
structure ParseState (S : Type) where
  isWarmup : Bool := true
  done : List RawData := []
  rawData : Option RawData := none
  stats : List S := []

variable {S : Type}

def ParseState.results (s : ParseState S) : List RawData := s.done ++ s.rawData.toList

/-- Whether a line announces a level. -/
def startsLevel (line : Text) : Bool := mentions "Queries:".toList line || mentions "Concurrency:".toList line

/-- Whether a line announces the warmup or the primer. -/
def startsWarmup (line : Text) : Bool := mentions "Warmup".toList line || mentions "Primer".toList line

/-- The body of the loop over the lines. -/
def parseLine (parseStats : ℕ → ℕ → S) (s : ParseState S) (line : Text) :
    Except ParseError (ParseState S) :=
  if startsLevel line then .ok { s with isWarmup := false, done := s.results, rawData := none }
  else if startsWarmup line then .ok { s with isWarmup := true }
  else if s.isWarmup then .ok s
  else do
    let (rawData, stats) ← readLine parseStats line (s.rawData.getD {})
    return { s with rawData := some rawData, stats := s.stats ++ stats }

/-- `parse_test`, on the lines of `raw.txt` if it exists. -/
def parseTest (parseStats : ℕ → ℕ → S) (rawFile : Option (List Text)) :
    Except ParseError (List RawData × List S) :=
  match rawFile with
  | none => .ok ([], [])
  | some lines => (lines.foldlM (parseLine parseStats) {}).map fun s => (s.results, s.stats)

end FrameworkBenchmarks.Toolset.RawFile
