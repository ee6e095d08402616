import Mathlib
import FrameworkBenchmarks.Toolset.ParseTest

/-!
# The log of a benchmark container

`__log_container_output` decodes each chunk of the container's log stream and hands it to `log`, which
appends its lines to `raw.txt`. A chunk that is not UTF-8 ends the thread, and what was written stays.
What `log` prints on the terminal is left out, and the file system is taken to work.
-/

namespace FrameworkBenchmarks.Toolset.RawFile

/-! ### Lines -/

/-- The lines of a text, where the pair of carriage return and line feed is one break. -/
def linesBy (isBreak : Char → Bool) : Text → List Text
  | [] => []
  | '\r' :: '\n' :: text => [] :: linesBy isBreak text
  | c :: text =>
    if isBreak c then [] :: linesBy isBreak text
    else match linesBy isBreak text with
      | [] => [[c]]
      | line :: lines => (c :: line) :: lines

/-- The characters that end a line for `str.splitlines`. -/
def isLineBreak (c : Char) : Bool := c.toNat ∈ [10, 11, 12, 13, 28, 29, 30, 133, 8232, 8233]

def splitlines : Text → List Text := linesBy isLineBreak

/-- The line ends of a file that is opened as text. -/
def isNewline (c : Char) : Bool := c = '\n' ∨ c = '\r'

/-- The lines of a file, without their ends. -/
def fileLines : Text → List Text := linesBy isNewline

/-! ### Colour codes -/

/-- The zeros of the decimal digits of Unicode 15. -/
def digitZeros : List ℕ :=
  [48, 1632, 1776, 1984, 2406, 2534, 2662, 2790, 2918, 3046, 3174, 3302, 3430, 3558, 3664, 3792, 3872,
    4160, 4240, 6112, 6160, 6470, 6608, 6784, 6800, 6992, 7088, 7232, 7248, 42528, 43216, 43264, 43472,
    43504, 43600, 44016, 65296, 66720, 68912, 69734, 69872, 69942, 70096, 70384, 70736, 70864, 71248,
    71360, 71472, 71904, 72016, 72784, 73040, 73120, 73552, 92768, 92864, 93008, 120782, 120792, 120802,
    120812, 120822, 123200, 123632, 124144, 125264, 130032]

/-- `\d` -/
def isDecimal (c : Char) : Bool := digitZeros.any fun first => first ≤ c.toNat && c.toNat < first + 10

/-- The length of a match of `\x1B\[\d+m` at the start of a text. -/
def colourAt : Text → Option ℕ
  | '\x1b' :: '[' :: text =>
    let digits := text.takeWhile isDecimal
    if digits ≠ [] ∧ (text.drop digits.length).head? = some 'm' then some (digits.length + 3) else none
  | _ => none

/-- The text without its colour codes, where some characters belong to the last one found. -/
def stripColoursFrom : ℕ → Text → Text
  | _, [] => []
  | skip + 1, _ :: text => stripColoursFrom skip text
  | 0, c :: text =>
    match colourAt (c :: text) with
    | some length => stripColoursFrom (length - 1) text
    | none => c :: stripColoursFrom 0 text

/-- `seq.sub('', text)` -/
def stripColours (text : Text) : Text := stripColoursFrom 0 text

/-! ### The writer -/

/-- `Style.RESET_ALL` -/
def resetAll : Text := "\x1b[0m".toList

/-- `Style.DIM` -/
def dim : Text := "\x1b[2m".toList

/-- The keyword arguments of `log`, but for the file. -/
structure LogOptions where
  color : Text := []
  linePrefix : Text := []
  border : Option Text := none
  borderBottom : Option Text := none

def LogOptions.colorReset (options : LogOptions) : Text := if options.color = [] then [] else resetAll

def LogOptions.frame (options : LogOptions) (mark : Text) : Text :=
  options.color ++ ((List.replicate 80 mark).flatten ++ '\n' :: options.colorReset)

/-- What stands before the lines. -/
def LogOptions.top (options : LogOptions) : Text := (options.border.map options.frame).getD []

/-- What stands behind the lines: a text of its own where there is no border. -/
def LogOptions.bottom (options : LogOptions) : Text :=
  match options.border with
  | some mark => options.frame (options.borderBottom.getD mark)
  | none => options.borderBottom.getD []

def LogOptions.line (options : LogOptions) (line : Text) : Text :=
  (if options.linePrefix = [] then [] else dim ++ (options.linePrefix ++ resetAll)) ++
    (options.color ++ (line ++ (options.colorReset ++ ['\n'])))

def newLogText (options : LogOptions) (logText : Text) : Text :=
  options.top ++ (((splitlines logText).filter fun line => strip line ≠ []).flatMap options.line ++
    options.bottom)

def tooManyBytes : ℕ := 50 * 1024 * 1024

/-- The size of a file with a given text. -/
def fileSize (file : Text) : ℕ := (file.map Char.utf8Size).sum

/-- The file behind `log`. With a border, the lines of no text raise an exception, which is passed over. -/
def log (options : LogOptions) (logText : Option Text) (file : Text) : Text :=
  match logText with
  | none => file
  | some text =>
    if options.border = none ∧ text = [] then file
    else if fileSize file < tooManyBytes then file ++ stripColours (newLogText options text)
    else file

/-- `bytes.decode` -/
def decode (chunk : ByteArray) : Option Text := (String.fromUTF8? chunk).map String.toList

/-- The loop of `save_docker_logs` over the stream. -/
def saveDockerLogs : Text → List ByteArray → Text
  | file, [] => file
  | file, chunk :: stream =>
    match decode chunk with
    | none => file
    | some text => saveDockerLogs (log {} (some text) file) stream

variable {S : Type}

/-- The results that `parse_test` computes from the `raw.txt` of a stream. -/
def recordedResults (parseStats : ℕ → ℕ → S) (stream : List ByteArray) : Except ParseError (List RawData) :=
  (parseTest parseStats (some (fileLines (saveDockerLogs [] stream)))).map Prod.fst

/-- The chunks make up the bytes of the text. -/
def Cuts (text : Text) (stream : List ByteArray) : Prop :=
  stream.foldr (· ++ ·) ByteArray.empty = (String.ofList text).toByteArray

end FrameworkBenchmarks.Toolset.RawFile
