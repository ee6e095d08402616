import FrameworkBenchmarks.AspNetCore.BufferWriter
import FrameworkBenchmarks.AspNetCore.MultipleUpdates
import FrameworkBenchmarks.Common.Lines

/-!
# Responses of several queries

`OutputMultipleQueries` leaves a gap of four bytes for the length of its body, and writes the length into it once the
body is there. The writer for the length is a copy of the one for the headers, whose span goes on behind the gap.
-/

namespace FrameworkBenchmarks.AspNetCore

open FrameworkBenchmarks.Common

/-! ### Texts -/

/-- What the format `R` gives for a date. -/
structure HttpDate where
  text : List UInt8
  length_text : text.length = 29
  clean : CR ∉ text ∧ LF ∉ text

/-- `DateHeader.HeaderBytes` -/
def HttpDate.headerBytes (date : HttpDate) : List UInt8 := ascii "\r\nDate: " ++ (date.text ++ ascii "\r\n\r\n")

def dbPreamble : List UInt8 :=
  ascii "HTTP/1.1 200 OK\r\n" ++ (ascii "Server: K\r\n" ++ (ascii "Content-Type: application/json\r\n" ++
    ascii "Content-Length: "))

def contentLengthGap : List UInt8 := ascii "    "

/-- The JSON object of a row. -/
def World.json (world : World) : List UInt8 :=
  ascii "\x7b\"id\":" ++ (decimal world.id ++ (ascii ",\"randomNumber\":" ++ (decimalInt world.randomNumber ++ ascii "\x7d")))

/-- The JSON array of the rows. -/
def jsonText (rows : List World) : List UInt8 :=
  ascii "[" ++ (((rows.map World.json).intersperse (ascii ",")).flatten ++ ascii "]")

/-! ### Output -/

/-- What a serialiser writes to a pipe. -/
def Pipe.append (pipe : Pipe) (bytes : List UInt8) : Pipe :=
  ⟨writeBytes pipe.memory pipe.advanced bytes, pipe.advanced + bytes.length⟩

variable (spans : Spans) (date : HttpDate)

/-- `OutputMultipleQueries` up to the body, with the writer of the length. -/
def outputBody (rows : List World) (pipe : Pipe) : BufferWriter × Pipe :=
  let writer := BufferWriter.new spans pipe (160 * rows.length)
  let (writer, pipe) := writer.write spans dbPreamble pipe
  let lengthWriter := writer
  let (writer, pipe) := writer.write spans contentLengthGap pipe
  let (writer, pipe) := writer.write spans date.headerBytes pipe
  let (_, pipe) := writer.commit pipe
  (lengthWriter, pipe.append (jsonText rows))

/-- The length is converted to `uint`. -/
def outputMultipleQueries (rows : List World) (pipe : Pipe) : Pipe :=
  let (lengthWriter, pipe) := outputBody spans date rows pipe
  (lengthWriter.writeNumeric spans ((jsonText rows).length % 2 ^ 32) pipe).2

/-- Lines that are ended one by one. -/
def ended (lines : List (List UInt8)) : List UInt8 := lines.flatMap fun line => line ++ lineEnd

/-- A status line and headers, an empty line, and a body with the length of the header for it. -/
def WellFormed (response body : List UInt8) : Prop := ∃ (status : List UInt8) (headers : List (List UInt8)) (spaces : ℕ),
  response = ended (status :: headers) ++ (lineEnd ++ body) ∧
  (∀ line ∈ status :: headers, line ≠ [] ∧ CR ∉ line ∧ LF ∉ line) ∧ ascii "HTTP/1.1 " <+: status ∧
  headers.filter (fun header => (ascii "Content-Length:").isPrefixOf header) =
    [ascii "Content-Length: " ++ (decimal body.length ++ List.replicate spaces 32)]

/-- The response is well formed, and the length has changed nothing outside the gap. -/
structure OutputFits (rows : List World) (pipe : Pipe) : Prop where
  response : ∃ response, (outputMultipleQueries spans date rows pipe).written = pipe.written ++ response ∧
    WellFormed response (jsonText rows)
  outside : ∀ i : ℤ, i < pipe.advanced + dbPreamble.length ∨
    pipe.advanced + dbPreamble.length + contentLengthGap.length ≤ i →
      (outputMultipleQueries spans date rows pipe).memory i = (outputBody spans date rows pipe).2.memory i

/-! ### Lengths -/

theorem length_dbPreamble : dbPreamble.length = 76 := rfl

theorem length_headerBytes : date.headerBytes.length = 41 := by
  have hbegin : (ascii "\r\nDate: ").length = 8 := rfl
  have hend : (ascii "\r\n\r\n").length = 4 := rfl
  rw [HttpDate.headerBytes, List.length_append, List.length_append, hbegin, hend, date.length_text]

/-- The digits of a row. -/
def World.digits (world : World) : ℕ := (decimal world.id).length + (decimalInt world.randomNumber).length

theorem length_json (world : World) : world.json.length = 23 + world.digits := by
  have hbegin : (ascii "\x7b\"id\":").length = 6 := rfl
  have hmiddle : (ascii ",\"randomNumber\":").length = 16 := rfl
  have hend : (ascii "\x7d").length = 1 := rfl
  simp only [World.json, World.digits, List.length_append, hbegin, hmiddle, hend]
  omega

theorem length_jsonText {rows : List World} (h : 1 ≤ rows.length) :
    (jsonText rows).length = 24 * rows.length + 1 + (rows.map World.digits).sum := by
  have helements : ∀ world rows, (((world :: rows).map World.json).intersperse (ascii ",")).flatten.length + 1 =
      24 * (rows.length + 1) + ((world :: rows).map World.digits).sum := by
    intro world rows
    induction rows generalizing world with
    | nil => simp [length_json]; omega
    | cons next rows ih =>
      have hnext := ih next
      have hcomma : (ascii ",").length = 1 := rfl
      rw [List.map_cons, List.map_cons, List.intersperse_cons_cons, List.flatten_cons, List.flatten_cons,
        List.length_append, List.length_append, length_json, hcomma, List.map_cons, List.sum_cons, List.length_cons,
        ← List.map_cons]
      omega
  cases rows with
  | nil => cases h
  | cons world rows =>
    have hlength := helements world rows
    have hbegin : (ascii "[").length = 1 := rfl
    have hend : (ascii "]").length = 1 := rfl
    rw [jsonText, List.length_append, List.length_append, hbegin, hend, List.length_cons]
    omega

/-! ### The output -/

variable {spans date} {rows : List World}

/-- The memory behind the body, whatever spans there are. -/
theorem outputBody_eq (h : 1 ≤ rows.length) (pipe : Pipe) : outputBody spans date rows pipe =
    ((BufferWriter.new spans pipe (160 * rows.length)).advance dbPreamble.length,
      ⟨writeBytes pipe.memory pipe.advanced (dbPreamble ++ (contentLengthGap ++ (date.headerBytes ++ jsonText rows))),
        pipe.advanced + (dbPreamble ++ (contentLengthGap ++ (date.headerBytes ++ jsonText rows))).length⟩) := by
  have hspan := spans.le_length pipe.advanced (160 * rows.length)
  have hfirst : (BufferWriter.new spans pipe (160 * rows.length)).write spans dbPreamble pipe =
      ((BufferWriter.new spans pipe (160 * rows.length)).advance dbPreamble.length,
        (BufferWriter.new spans pipe (160 * rows.length)).copy dbPreamble pipe) := by
    apply if_pos
    rw [length_dbPreamble]
    exact Nat.le_trans (by omega) hspan
  have hpreamble := BufferWriter.copy_wrote (BufferWriter.new_attached spans pipe (160 * rows.length)) dbPreamble
  cases hsecond : ((BufferWriter.new spans pipe (160 * rows.length)).advance dbPreamble.length).write spans contentLengthGap
    ((BufferWriter.new spans pipe (160 * rows.length)).copy dbPreamble pipe) with
  | mk second pipe₂ =>
    cases hthird : second.write spans date.headerBytes pipe₂ with
    | mk third pipe₃ =>
      have hgap := @BufferWriter.write_wrote spans _ _ hpreamble.attached contentLengthGap
      rw [hsecond] at hgap
      have hheader := @BufferWriter.write_wrote spans _ _ hgap.attached date.headerBytes
      rw [hthird] at hheader
      have hall := hpreamble.append (hgap.append hheader)
      have hmemory : pipe₃.memory = writeBytes pipe.memory pipe.advanced
          (dbPreamble ++ (contentLengthGap ++ date.headerBytes)) := hall.memory
      have hstart : third.start = pipe.advanced + (dbPreamble ++ (contentLengthGap ++ date.headerBytes)).length := hall.start
      have hwhole : dbPreamble ++ (contentLengthGap ++ (date.headerBytes ++ jsonText rows)) =
          (dbPreamble ++ (contentLengthGap ++ date.headerBytes)) ++ jsonText rows := by
        simp only [List.append_assoc]
      rw [hwhole, writeBytes_append, ← Int.natCast_add, @List.length_append _ _ (jsonText rows), ← Nat.add_assoc]
      simp only [outputBody, hfirst, hsecond, hthird, BufferWriter.commit_eq hheader.attached, Pipe.append, hmemory, hstart]

/-- The length is written behind the preamble, however many digits it has. -/
theorem outputMultipleQueries_eq (h : 1 ≤ rows.length) (hlength : (jsonText rows).length < 2 ^ 32) (pipe : Pipe) :
    outputMultipleQueries spans date rows pipe =
      ⟨writeBytes (outputBody spans date rows pipe).2.memory (pipe.advanced + dbPreamble.length : ℕ)
        (decimal (jsonText rows).length), (outputBody spans date rows pipe).2.advanced⟩ := by
  have hspan := spans.le_length pipe.advanced (160 * rows.length)
  have hdigits : (decimal (jsonText rows).length).length ≤ 10 := (length_decimal_le_iff (by decide)).mpr (by omega)
  have hroom : (decimal (jsonText rows).length).length ≤
      ((BufferWriter.new spans pipe (160 * rows.length)).advance dbPreamble.length).length := by
    simp only [BufferWriter.advance, BufferWriter.new, length_dbPreamble]
    omega
  unfold outputMultipleQueries
  rw [outputBody_eq h, Nat.mod_eq_of_lt hlength]
  simp only [BufferWriter.writeNumeric_eq hroom]
  rfl

/-- The response with its length in the gap. -/
def response (date : HttpDate) (rows : List World) : List UInt8 :=
  dbPreamble ++ (decimal (jsonText rows).length ++
    (List.replicate (4 - (decimal (jsonText rows).length).length) 32 ++ (date.headerBytes ++ jsonText rows)))

theorem written_writeBytes (pipe : Pipe) (bytes : List UInt8) :
    (Pipe.mk (writeBytes pipe.memory pipe.advanced bytes) (pipe.advanced + bytes.length)).written =
      pipe.written ++ bytes := by
  have hbefore := @readBytes_writeBytes_of_le 0 pipe.advanced pipe.advanced (by omega) pipe.memory bytes
  unfold Pipe.written
  rw [readBytes_append, hbefore, Int.zero_add, readBytes_writeBytes]

theorem outputMultipleQueries_written (h : 1 ≤ rows.length) (hlength : (jsonText rows).length < 10000) (pipe : Pipe) :
    (outputMultipleQueries spans date rows pipe).written = pipe.written ++ response date rows := by
  have hdigits : (decimal (jsonText rows).length).length ≤ 4 := (length_decimal_le_iff (by decide)).mpr hlength
  have hgap : contentLengthGap = List.replicate (decimal (jsonText rows).length).length 32 ++
      List.replicate (4 - (decimal (jsonText rows).length).length) 32 := by
    rw [List.replicate_append_replicate, Nat.add_sub_cancel' hdigits]
    rfl
  have hspaces : (decimal (jsonText rows).length).length =
      (List.replicate (decimal (jsonText rows).length).length (32 : UInt8)).length := List.length_replicate.symm
  have hmemory := writeBytes_overwrite hspaces pipe.memory pipe.advanced dbPreamble
      (List.replicate (4 - (decimal (jsonText rows).length).length) 32 ++ (date.headerBytes ++ jsonText rows))
  have hsame : (dbPreamble ++ (contentLengthGap ++ (date.headerBytes ++ jsonText rows))).length =
      (response date rows).length := by
    rw [hgap, response]
    simp only [List.length_append, List.length_replicate]
    omega
  have hwritten := written_writeBytes pipe (response date rows)
  rw [outputMultipleQueries_eq h (by omega), outputBody_eq h, hsame, ← hwritten, response, ← hmemory, hgap, List.append_assoc,
    Int.natCast_add]

/-! ### The response -/

/-- A line with characters, and without line ends. -/
def Clean (line : List UInt8) : Prop := line ≠ [] ∧ CR ∉ line ∧ LF ∉ line

theorem clean_of_all {line : List UInt8} (hne : line ≠ []) (h : line.all (fun c => c != CR && c != LF) = true) :
    Clean line := by
  rw [List.all_eq_true] at h
  refine ⟨hne, fun hmem => ?_, fun hmem => ?_⟩
  · exact absurd (h CR hmem) (by decide)
  · exact absurd (h LF hmem) (by decide)

theorem Clean.append {line rest : List UInt8} (h : Clean line) (hcr : CR ∉ rest) (hlf : LF ∉ rest) :
    Clean (line ++ rest) := by
  refine ⟨fun hnil => h.1 (List.append_eq_nil_iff.mp hnil).1, ?_, ?_⟩
  · rw [List.mem_append, not_or]
    exact ⟨h.2.1, hcr⟩
  · rw [List.mem_append, not_or]
    exact ⟨h.2.2, hlf⟩

theorem not_mem_length {c : UInt8} (hdigit : isDigit c = false) (hspace : c ≠ 32) (n spaces : ℕ) :
    c ∉ decimal n ++ List.replicate spaces 32 := by
  rw [List.mem_append, not_or]
  constructor
  · intro hmem
    rw [isDigit_of_mem_decimal hmem] at hdigit
    cases hdigit
  · intro hmem
    exact hspace (List.eq_of_mem_replicate hmem)

theorem response_wellFormed (date : HttpDate) (rows : List World) : WellFormed (response date rows) (jsonText rows) := by
  refine ⟨ascii "HTTP/1.1 200 OK", [ascii "Server: K", ascii "Content-Type: application/json",
    ascii "Content-Length: " ++ (decimal (jsonText rows).length ++
      List.replicate (4 - (decimal (jsonText rows).length).length) 32), ascii "Date: " ++ date.text],
    4 - (decimal (jsonText rows).length).length, ?_, ?_, ⟨ascii "200 OK", rfl⟩, rfl⟩
  · have hpreamble : dbPreamble = ended [ascii "HTTP/1.1 200 OK", ascii "Server: K", ascii "Content-Type: application/json"] ++
        ascii "Content-Length: " := rfl
    have hheader : date.headerBytes = lineEnd ++ (ascii "Date: " ++ (date.text ++ (lineEnd ++ lineEnd))) := rfl
    rw [response, hpreamble, hheader]
    simp only [ended, List.flatMap_cons, List.flatMap_nil, List.append_nil, List.append_assoc]
  · have hlines : ∀ line ∈ [ascii "HTTP/1.1 200 OK", ascii "Server: K", ascii "Content-Type: application/json",
        ascii "Content-Length: " ++ (decimal (jsonText rows).length ++
          List.replicate (4 - (decimal (jsonText rows).length).length) 32), ascii "Date: " ++ date.text], Clean line := by
      simp only [List.mem_cons, List.not_mem_nil, or_false, forall_eq_or_imp, forall_eq]
      refine ⟨clean_of_all (List.cons_ne_nil _ _) rfl, clean_of_all (List.cons_ne_nil _ _) rfl,
        clean_of_all (List.cons_ne_nil _ _) rfl, ?_, ?_⟩
      · exact (clean_of_all (List.cons_ne_nil _ _) rfl).append (not_mem_length rfl (by decide) _ _)
          (not_mem_length rfl (by decide) _ _)
      · exact (clean_of_all (List.cons_ne_nil _ _) rfl).append date.clean.1 date.clean.2
    exact hlines

/-- A length of five digits changes the carriage return behind the gap. -/
theorem outside_iff (h : 1 ≤ rows.length) (hlength : (jsonText rows).length < 2 ^ 32) (pipe : Pipe) :
    (∀ i : ℤ, i < pipe.advanced + dbPreamble.length ∨
      pipe.advanced + dbPreamble.length + contentLengthGap.length ≤ i →
        (outputMultipleQueries spans date rows pipe).memory i = (outputBody spans date rows pipe).2.memory i) ↔
      (jsonText rows).length < 10000 := by
  have hgap : contentLengthGap.length = 4 := rfl
  have hdigits : (decimal (jsonText rows).length).length ≤ 4 ↔ (jsonText rows).length < 10000 :=
    length_decimal_le_iff (by decide)
  rw [outputMultipleQueries_eq h hlength, Int.natCast_add]
  constructor
  · intro hsame
    by_contra hlarge
    have hlt : 4 < (decimal (jsonText rows).length).length := by omega
    have hat : writeBytes (outputBody spans date rows pipe).2.memory (pipe.advanced + dbPreamble.length)
        (decimal (jsonText rows).length) (pipe.advanced + dbPreamble.length + contentLengthGap.length) =
        (outputBody spans date rows pipe).2.memory (pipe.advanced + dbPreamble.length + contentLengthGap.length) :=
      hsame _ (Or.inr (Int.le_refl _))
    have hbefore : (outputBody spans date rows pipe).2.memory
        (pipe.advanced + dbPreamble.length + contentLengthGap.length) = CR := by
      have hindex : ((pipe.advanced : ℤ) + (76 : ℕ) + (4 : ℕ) - pipe.advanced).toNat = 80 := by omega
      have helement : (dbPreamble ++ (contentLengthGap ++ (date.headerBytes ++ jsonText rows)))[80]? = some CR := rfl
      rw [outputBody_eq h, length_dbPreamble, hgap]
      simp only [writeBytes, hindex, helement, Option.getD_some]
      exact if_pos (by omega)
    have hindex : ((pipe.advanced : ℤ) + (76 : ℕ) + (4 : ℕ) - (pipe.advanced + (76 : ℕ))).toNat = 4 := by omega
    rw [hbefore, length_dbPreamble, hgap, writeBytes, hindex, List.getElem?_eq_getElem hlt, if_pos (by omega),
      Option.getD_some] at hat
    have hdigit := isDigit_of_mem_decimal (List.getElem_mem hlt)
    rw [hat] at hdigit
    cases hdigit
  · intro hsmall i hi
    apply writeBytes_of_outside
    have hle := hdigits.mpr hsmall
    omega

theorem sum_digits_le {rows : List World}
    (hvalues : ∀ row ∈ rows, row.id ≤ 10000 ∧ 0 ≤ row.randomNumber ∧ row.randomNumber ≤ 10000) :
    (rows.map World.digits).sum ≤ 10 * rows.length := by
  induction rows with
  | nil => exact Nat.le_refl _
  | cons row rows ih =>
    have hrest := ih fun row' hrow' => hvalues row' (List.mem_cons_of_mem row hrow')
    obtain ⟨hid, hpos, hnumber⟩ := hvalues row List.mem_cons_self
    have hidDigits : (decimal row.id).length ≤ 5 := (length_decimal_le_iff (by decide)).mpr (by omega)
    have hnumberDigits : (decimalInt row.randomNumber).length ≤ 5 := by
      rw [decimalInt_of_nonneg hpos]
      exact (length_decimal_le_iff (by decide)).mpr (by omega)
    rw [List.map_cons, List.sum_cons, List.length_cons, World.digits]
    omega

/-- For up to 500 rows, the response is well formed and the length stays in its gap if and only if the JSON text of the
rows, with 24 bytes and the digits for each of them, is shorter than 10000 bytes. -/
theorem outputMultipleQueries_fits_iff {spans : Spans} {date : HttpDate} {rows : List World} {pipe : Pipe}
    (hrows : 1 ≤ rows.length ∧ rows.length ≤ 500)
    (hvalues : ∀ row ∈ rows, row.id ≤ 10000 ∧ 0 ≤ row.randomNumber ∧ row.randomNumber ≤ 10000) :
    OutputFits spans date rows pipe ↔ 24 * rows.length + 1 + (rows.map World.digits).sum < 10000 := by
  have hdigits := sum_digits_le hvalues
  have hlength := length_jsonText hrows.1
  rw [← hlength]
  constructor
  · intro hfits
    exact (outside_iff hrows.1 (by omega) pipe).mp hfits.outside
  · intro hsmall
    exact ⟨⟨response date rows, outputMultipleQueries_written hrows.1 hsmall pipe, response_wellFormed date rows⟩,
      (outside_iff hrows.1 (by omega) pipe).mpr hsmall⟩

/-- Spans with one byte more than is asked for. -/
def tightSpans : Spans := ⟨fun _ sizeHint => sizeHint + 1, fun _ sizeHint => Nat.le_succ sizeHint, fun _ _ => Nat.succ_pos _⟩

def someDate : HttpDate :=
  ⟨ascii "Wed, 14 Mar 2018 14:20:00 GMT", rfl, (clean_of_all (List.cons_ne_nil _ _) rfl).2⟩

/-- A single row. -/
theorem outputMultipleQueries_fits_one : OutputFits tightSpans someDate [⟨1, 1⟩] ⟨fun _ => 0, 0⟩ ↔
    24 * [(⟨1, 1⟩ : World)].length + 1 + ([(⟨1, 1⟩ : World)].map World.digits).sum < 10000 :=
  outputMultipleQueries_fits_iff (by decide) (by decide)

theorem not_outputFits {rows : List World} (hrows : 1 ≤ rows.length)
    (hlength : 24 * rows.length + 1 + (rows.map World.digits).sum = 17001) (pipe : Pipe) :
    ¬OutputFits tightSpans someDate rows pipe := by
  intro hfits
  have htext := length_jsonText hrows
  rw [hlength] at htext
  have hsmall := (outside_iff hrows (by omega) pipe).mp hfits.outside
  omega

/-- 500 rows with numbers of five digits have a JSON text of 17001 bytes. -/
theorem outputMultipleQueries_long :
    ¬OutputFits tightSpans someDate (List.replicate 500 ⟨10000, 10000⟩) ⟨fun _ => 0, 0⟩ := by
  have hdigits : World.digits ⟨10000, 10000⟩ = 10 := rfl
  apply not_outputFits
  · rw [List.length_replicate]
    omega
  · rw [List.length_replicate, List.map_replicate, List.sum_replicate_nat, hdigits]

end FrameworkBenchmarks.AspNetCore
