import FrameworkBenchmarks.Common.Memory
import FrameworkBenchmarks.Common.SqlUpdates
import FrameworkBenchmarks.H2o.RandomIds
import FrameworkBenchmarks.H2o.WorldSteps

/-!
# Prepared update statements of the h2o server

`initialize_world_handlers` prepares an update for each number of queries, and prints its name and its text
into two buffers that it uses again for the next one. `do_updates` prints the name of the statement for its
number of results. The macros are those of `world.c`, with `MAX_QUERIES` as a parameter; sizes are taken not
to overflow.
-/

namespace FrameworkBenchmarks.H2o

open FrameworkBenchmarks.Common

/-! ### Macros -/

/-- `sizeof` of a string literal -/
def sizeof (text : List UInt8) : ℕ := text.length + 1

def WORLD_TABLE_NAME : List UInt8 := ascii "World"

def UPDATE_QUERY_BEGIN : List UInt8 := ascii "UPDATE " ++ WORLD_TABLE_NAME ++ ascii " SET randomNumber = CASE id "

def UPDATE_QUERY_ELEM : List UInt8 := ascii "WHEN $%zu::integer THEN $%zu::integer "

def UPDATE_QUERY_MIDDLE : List UInt8 := ascii "ELSE randomNumber END WHERE id IN ($1::integer"

def UPDATE_QUERY_ELEM2 : List UInt8 := ascii ",$%zu::integer"

def UPDATE_QUERY_END : List UInt8 := ascii ");"

/-- `MAX_UPDATE_QUERY_LEN(n)` -/
def MAX_UPDATE_QUERY_LEN (maxQueries n : ℕ) : ℕ :=
  sizeof UPDATE_QUERY_BEGIN + sizeof UPDATE_QUERY_MIDDLE + sizeof UPDATE_QUERY_END - 1 - sizeof UPDATE_QUERY_ELEM2 +
    n * (sizeof UPDATE_QUERY_ELEM - 1 + sizeof UPDATE_QUERY_ELEM2 - 1 + 3 * sizeof (decimal maxQueries) -
      3 * (sizeof (ascii "%zu") - 1))

def UPDATE_QUERY_NAME_PREFIX : List UInt8 := WORLD_TABLE_NAME ++ ascii "Update"

def WORLD_QUERY : List UInt8 := ascii "SELECT * FROM " ++ WORLD_TABLE_NAME ++ ascii " WHERE id = $1::integer;"

/-! ### Printing -/

/-- A format with its conversions `%zu` filled in. -/
def formatted : List UInt8 → List ℕ → List UInt8
  | 37 :: 122 :: 117 :: format, n :: ns => decimal n ++ formatted format ns
  | c :: format, ns => c :: formatted format ns
  | [], _ => []

/-- A place in a buffer, and the room from there on. -/
structure Cursor where
  memory : Memory
  iter : ℕ
  sz : ℕ

/-- `snprintf`, and the step behind the text if it was not cut off. -/
def Cursor.print (s : Cursor) (text : List UInt8) : Cursor :=
  let memory := if s.sz = 0 then s.memory else writeBytes s.memory s.iter (text.take (s.sz - 1) ++ [0])
  if s.sz ≤ text.length then ⟨memory, s.iter, s.sz⟩ else ⟨memory, s.iter + text.length, s.sz - text.length⟩

/-- An assertion that a literal fits, and `memcpy` of it without its end. -/
def Cursor.copy (s : Cursor) (text : List UInt8) : Except Fault Cursor :=
  if s.sz < sizeof text then .error .assertion
  else .ok ⟨writeBytes s.memory s.iter text, s.iter + text.length, s.sz - text.length⟩

/-- The string in a buffer. -/
def cString (size : ℕ) (memory : Memory) : List UInt8 := (readBytes memory 0 size).takeWhile (· ≠ 0)

/-! ### The statements -/

/-- The text for `i + 1` updates, in the buffer `query`. -/
def printQuery (maxQueries i : ℕ) (query : Memory) : Except Fault Memory := do
  let s : Cursor := ⟨query, sizeof UPDATE_QUERY_BEGIN - 1,
    MAX_UPDATE_QUERY_LEN maxQueries maxQueries - sizeof UPDATE_QUERY_BEGIN + 1⟩
  let s := (List.range (i + 1)).foldl (fun s j => s.print (formatted UPDATE_QUERY_ELEM [2 * j + 1, 2 * j + 2])) s
  let s ← s.copy UPDATE_QUERY_MIDDLE
  let s := (List.range' 1 i).foldl (fun s j => s.print (formatted UPDATE_QUERY_ELEM2 [2 * j + 1])) s
  if s.sz < sizeof UPDATE_QUERY_END then .error .assertion
  else return writeBytes s.memory s.iter (UPDATE_QUERY_END ++ [0])

def sizeofName (maxQueries : ℕ) : ℕ := sizeof (UPDATE_QUERY_NAME_PREFIX ++ decimal maxQueries)

/-- The two buffers, and the names and texts of the statements, the last one first. -/
structure Preparation where
  name : Memory
  query : Memory
  preparedStatements : List (List UInt8 × List UInt8)

/-- The body of the loop of `initialize_world_handlers`. -/
def prepareUpdate (maxQueries : ℕ) (s : Preparation) (i : ℕ) : Except Fault Preparation := do
  let nameSize := sizeofName maxQueries - sizeof UPDATE_QUERY_NAME_PREFIX + 1
  let printed := Cursor.print ⟨s.name, sizeof UPDATE_QUERY_NAME_PREFIX - 1, nameSize⟩ (decimal (i + 1))
  if nameSize ≤ (decimal (i + 1)).length then return { s with name := printed.memory }
  else
    let query ← printQuery maxQueries i s.query
    return ⟨printed.memory, query, (cString (sizeofName maxQueries) printed.memory,
      cString (MAX_UPDATE_QUERY_LEN maxQueries maxQueries) query) :: s.preparedStatements⟩

/-- The statements that `initialize_world_handlers` prepares; the buffers hold anything at first. -/
def initializeWorldHandlers (maxQueries : ℕ) (name query : Memory) :
    Except Fault (List (List UInt8 × List UInt8)) :=
  if sizeofName maxQueries < sizeof UPDATE_QUERY_NAME_PREFIX then .error .assertion
  else if MAX_UPDATE_QUERY_LEN maxQueries maxQueries < sizeof UPDATE_QUERY_BEGIN then .error .assertion
  else do
    let s ← (List.range maxQueries).foldlM (prepareUpdate maxQueries)
      ⟨writeBytes name 0 UPDATE_QUERY_NAME_PREFIX, writeBytes query 0 UPDATE_QUERY_BEGIN, []⟩
    return (WORLD_TABLE_NAME, WORLD_QUERY) :: s.preparedStatements

/-- The command of `do_updates`, if its number is not cut off. -/
def updateCommand (maxQueries numResult : ℕ) (command : Memory) : Option (List UInt8) :=
  let commandSize := sizeofName maxQueries - sizeof UPDATE_QUERY_NAME_PREFIX + 1
  let printed := Cursor.print ⟨command, sizeof UPDATE_QUERY_NAME_PREFIX - 1, commandSize⟩ (decimal numResult)
  if commandSize ≤ (decimal numResult).length then none
  else some (cString (sizeofName maxQueries) (writeBytes printed.memory 0 UPDATE_QUERY_NAME_PREFIX))

/-- `paramValues` of `do_updates` for its results. -/
def updateParams (res : List World.QueryResult) : List ℤ := res.flatMap fun r => [(r.id : ℤ), (r.randomNumber : ℤ)]

/-! ### Names and texts -/

def updateName (n : ℕ) : List UInt8 := UPDATE_QUERY_NAME_PREFIX ++ decimal n

def elemText (j : ℕ) : List UInt8 := formatted UPDATE_QUERY_ELEM [2 * j + 1, 2 * j + 2]

def elem2Text (j : ℕ) : List UInt8 := formatted UPDATE_QUERY_ELEM2 [2 * j + 1]

/-- The text of the statement for `i + 1` updates. -/
def updateText (i : ℕ) : List UInt8 :=
  UPDATE_QUERY_BEGIN ++ ((List.range (i + 1)).flatMap elemText ++ (UPDATE_QUERY_MIDDLE ++
    ((List.range' 1 i).flatMap elem2Text ++ UPDATE_QUERY_END)))

theorem elemText_eq (j : ℕ) : elemText j = ascii "WHEN $" ++ (decimal (2 * j + 1) ++
    (ascii "::integer THEN $" ++ (decimal (2 * j + 2) ++ ascii "::integer "))) := rfl

theorem elem2Text_eq (j : ℕ) : elem2Text j = ascii ",$" ++ (decimal (2 * j + 1) ++ ascii "::integer") := rfl

theorem length_elemText (j : ℕ) :
    (elemText j).length = 32 + ((decimal (2 * j + 1)).length + (decimal (2 * j + 2)).length) := by
  rw [elemText_eq]
  simp only [List.length_append, show (ascii "WHEN $").length = 6 from rfl,
    show (ascii "::integer THEN $").length = 16 from rfl, show (ascii "::integer ").length = 10 from rfl]
  omega

theorem length_elem2Text (j : ℕ) : (elem2Text j).length = 11 + (decimal (2 * j + 1)).length := by
  rw [elem2Text_eq]
  simp only [List.length_append, show (ascii ",$").length = 2 from rfl, show (ascii "::integer").length = 9 from rfl]
  omega

/-- The number of a parameter has at most one digit more than the bound of the queries. -/
theorem length_decimal_param {maxQueries k : ℕ} (hk : k ≤ 2 * maxQueries) :
    (decimal k).length ≤ (decimal maxQueries).length + 1 := by
  have hbound := (length_decimal_le_iff (length_decimal_pos maxQueries)).mp (Nat.le_refl _)
  rw [length_decimal_le_iff (Nat.succ_pos _), Nat.pow_succ]
  omega

theorem length_flatMap_le {f : ℕ → List UInt8} {js : List ℕ} {m : ℕ} (h : ∀ j ∈ js, (f j).length ≤ m) :
    (js.flatMap f).length ≤ js.length * m := by
  induction js with
  | nil => exact Nat.zero_le _
  | cons j js ih =>
    have hfirst := h j List.mem_cons_self
    have hrest := ih fun k hk => h k (List.mem_cons_of_mem j hk)
    rw [List.flatMap_cons, List.length_append, List.length_cons, Nat.succ_mul]
    omega

/-- The first element has two digits, and no other number has more digits than it is given room. -/
theorem length_updateText_lt {maxQueries i : ℕ} (hi : i < maxQueries) :
    (updateText i).length < MAX_UPDATE_QUERY_LEN maxQueries maxQueries := by
  have hdigits := length_decimal_pos maxQueries
  have helems : ∀ j ∈ List.range' 1 i, (elemText j).length ≤ 32 + 2 * ((decimal maxQueries).length + 1) := by
    intro j hj
    rw [List.mem_range'_1] at hj
    have hleft := @length_decimal_param maxQueries (2 * j + 1) (by omega)
    have hright := @length_decimal_param maxQueries (2 * j + 2) (by omega)
    rw [length_elemText]
    omega
  have helems2 : ∀ j ∈ List.range' 1 i, (elem2Text j).length ≤ 11 + ((decimal maxQueries).length + 1) := by
    intro j hj
    rw [List.mem_range'_1] at hj
    have hdecimal := @length_decimal_param maxQueries (2 * j + 1) (by omega)
    rw [length_elem2Text]
    omega
  have hfirst : (elemText 0).length = 34 := rfl
  have hlength := length_flatMap_le helems
  have hlength2 := length_flatMap_le helems2
  rw [List.length_range'] at hlength hlength2
  have hbegin : UPDATE_QUERY_BEGIN.length = 40 := rfl
  have hmiddle : UPDATE_QUERY_MIDDLE.length = 46 := rfl
  have hend : UPDATE_QUERY_END.length = 2 := rfl
  have hrange : List.range (i + 1) = 0 :: List.range' 1 i := by
    rw [List.range_eq_range', List.range'_succ]
  unfold updateText
  rw [hrange, List.flatMap_cons]
  simp only [List.length_append, hfirst, hbegin, hmiddle, hend]
  have hroom : MAX_UPDATE_QUERY_LEN maxQueries maxQueries =
      75 + maxQueries * (43 + 3 * ((decimal maxQueries).length + 1)) := by
    unfold MAX_UPDATE_QUERY_LEN sizeof
    rw [hbegin, hmiddle, hend, show UPDATE_QUERY_ELEM.length = 38 from rfl, show UPDATE_QUERY_ELEM2.length = 14 from rfl,
      show (ascii "%zu").length = 3 from rfl, Nat.add_sub_cancel, Nat.add_sub_cancel]
    have hwidth : 38 + (14 + 1) - 1 + 3 * ((decimal maxQueries).length + 1) - 3 * 3 =
        43 + 3 * ((decimal maxQueries).length + 1) := by omega
    rw [hwidth]
  have hcount : (i + 1) * (43 + 3 * ((decimal maxQueries).length + 1)) ≤
      maxQueries * (43 + 3 * ((decimal maxQueries).length + 1)) := Nat.mul_le_mul_right _ hi
  have hsum : i * (32 + 2 * ((decimal maxQueries).length + 1)) + i * (11 + ((decimal maxQueries).length + 1)) =
      i * (43 + 3 * ((decimal maxQueries).length + 1)) := by
    rw [← Nat.mul_add]
    congr 1
    omega
  rw [Nat.succ_mul] at hcount
  rw [hroom]
  have hwide : 49 ≤ 43 + 3 * ((decimal maxQueries).length + 1) := by omega
  generalize 43 + 3 * ((decimal maxQueries).length + 1) = width at hcount hsum hwide ⊢
  generalize i * (32 + 2 * ((decimal maxQueries).length + 1)) = elems at hlength hsum
  generalize i * (11 + ((decimal maxQueries).length + 1)) = elems2 at hlength2 hsum
  generalize maxQueries * width = total at hcount ⊢
  generalize i * width = used at hcount hsum
  omega

/-! ### The buffers -/

/-- A buffer of some size with a text from its start up to the place. -/
structure Filled (size : ℕ) (s : Cursor) (text : List UInt8) : Prop where
  iter : s.iter = text.length
  room : s.iter + s.sz = size
  bytes : readBytes s.memory 0 text.length = text

/-- A text that fits is printed. -/
theorem Filled.print {size : ℕ} {s : Cursor} {text : List UInt8} (h : Filled size s text) {more : List UInt8}
    (hfits : text.length + more.length < size) : Filled size (s.print more) (text ++ more) := by
  have hiter := h.iter
  have hroom := h.room
  have hmore : ¬ s.sz ≤ more.length := by omega
  have hsz : s.sz ≠ 0 := by omega
  have htake : more.take (s.sz - 1) = more := List.take_of_length_le (by omega)
  unfold Cursor.print
  rw [if_neg hmore, if_neg hsz, htake]
  constructor
  · show s.iter + more.length = (text ++ more).length
    rw [List.length_append, hiter]
  · show s.iter + more.length + (s.sz - more.length) = size
    omega
  · show readBytes (writeBytes s.memory (s.iter : ℤ) (more ++ [0])) 0 (text ++ more).length = text ++ more
    have hbytes := readBytes_writeBytes_behind h.bytes (more ++ [0])
    rw [Int.zero_add, ← hiter, List.length_append, ← Nat.add_assoc, ← List.append_assoc, hiter,
      ← List.length_append] at hbytes
    rw [hiter]
    exact readBytes_left hbytes

theorem Filled.prints {size : ℕ} {s : Cursor} {text : List UInt8} (h : Filled size s text) {f : ℕ → List UInt8}
    {js : List ℕ} (hfits : text.length + (js.flatMap f).length < size) :
    Filled size (js.foldl (fun s j => s.print (f j)) s) (text ++ js.flatMap f) := by
  induction js generalizing s text with
  | nil =>
    rw [List.flatMap_nil, List.append_nil]
    exact h
  | cons j js ih =>
    rw [List.flatMap_cons, List.length_append] at hfits
    rw [List.foldl_cons, List.flatMap_cons, ← List.append_assoc]
    apply ih (h.print (by omega))
    rw [List.length_append]
    omega

theorem Filled.copy {size : ℕ} {s : Cursor} {text : List UInt8} (h : Filled size s text) {more : List UInt8}
    (hfits : text.length + more.length < size) :
    ∃ s', s.copy more = .ok s' ∧ Filled size s' (text ++ more) := by
  have hiter := h.iter
  have hroom := h.room
  have hmore : ¬ s.sz < sizeof more := by
    unfold sizeof
    omega
  refine ⟨_, if_neg hmore, ?_, ?_, ?_⟩
  · show s.iter + more.length = (text ++ more).length
    rw [List.length_append, hiter]
  · show s.iter + more.length + (s.sz - more.length) = size
    omega
  · show readBytes (writeBytes s.memory (s.iter : ℤ) more) 0 (text ++ more).length = text ++ more
    have hbytes := readBytes_writeBytes_behind h.bytes more
    rwa [Int.zero_add, ← List.length_append, ← hiter] at hbytes

/-- A text without a zero byte is the string of its buffer. -/
theorem cString_eq {size : ℕ} {memory : Memory} {text : List UInt8} (hfits : text.length < size)
    (hbytes : readBytes memory 0 (text.length + 1) = text ++ [0]) (hzero : 0 ∉ text) : cString size memory = text := by
  obtain ⟨rest, rfl⟩ := Nat.exists_eq_add_of_lt hfits
  have hsize : text.length + rest + 1 = text.length + 1 + rest := by omega
  have hall : ∀ c ∈ text, decide (c ≠ 0) = true := by
    intro c hc
    apply decide_eq_true
    rintro rfl
    exact hzero hc
  unfold cString
  rw [hsize, readBytes_append, hbytes, List.append_assoc, List.takeWhile_append_of_pos hall]
  simp

/-- A text and its end are written, whatever the buffer held behind them. -/
theorem Filled.finish {size : ℕ} {s : Cursor} {text : List UInt8} (h : Filled size s text) {more : List UInt8}
    (hfits : text.length + more.length < size) (hzero : 0 ∉ text ++ more) :
    readBytes (writeBytes s.memory s.iter (more ++ [0])) 0 (text ++ more).length = text ++ more ∧
      cString size (writeBytes s.memory s.iter (more ++ [0])) = text ++ more := by
  have hbytes := readBytes_writeBytes_behind h.bytes (more ++ [0])
  rw [Int.zero_add, ← h.iter, List.length_append, ← Nat.add_assoc, ← List.append_assoc, h.iter,
    ← List.length_append] at hbytes
  rw [h.iter]
  refine ⟨readBytes_left hbytes, cString_eq ?_ hbytes hzero⟩
  rwa [List.length_append]

theorem zero_not_mem_decimal (n : ℕ) : 0 ∉ decimal n := by
  intro hmem
  have hdigit := isDigit_of_mem_decimal hmem
  revert hdigit
  decide

theorem zero_not_mem_flatMap {f : ℕ → List UInt8} (h : ∀ j, 0 ∉ f j) (js : List ℕ) : 0 ∉ js.flatMap f := by
  intro hmem
  obtain ⟨j, -, hj⟩ := List.mem_flatMap.mp hmem
  exact h j hj

theorem zero_not_mem_updateText (i : ℕ) : 0 ∉ updateText i := by
  have helem (j : ℕ) : 0 ∉ elemText j := by
    rw [elemText_eq]
    simp only [List.mem_append, not_or]
    exact ⟨by decide, zero_not_mem_decimal _, by decide, zero_not_mem_decimal _, by decide⟩
  have helem2 (j : ℕ) : 0 ∉ elem2Text j := by
    rw [elem2Text_eq]
    simp only [List.mem_append, not_or]
    exact ⟨by decide, zero_not_mem_decimal _, by decide⟩
  unfold updateText
  simp only [List.mem_append, not_or]
  exact ⟨by decide, zero_not_mem_flatMap helem _, by decide, zero_not_mem_flatMap helem2 _, by decide⟩

variable {maxQueries i : ℕ}

/-- The buffer is filled with the text, whatever stands behind its beginning. -/
theorem printQuery_eq (hi : i < maxQueries) {query : Memory}
    (hquery : readBytes query 0 UPDATE_QUERY_BEGIN.length = UPDATE_QUERY_BEGIN) :
    ∃ query', printQuery maxQueries i query = .ok query' ∧
      cString (MAX_UPDATE_QUERY_LEN maxQueries maxQueries) query' = updateText i ∧
      readBytes query' 0 UPDATE_QUERY_BEGIN.length = UPDATE_QUERY_BEGIN := by
  have hlength := length_updateText_lt hi
  have hsize := hlength
  unfold updateText at hlength
  simp only [List.length_append] at hlength
  have hstart : Filled (MAX_UPDATE_QUERY_LEN maxQueries maxQueries) ⟨query, sizeof UPDATE_QUERY_BEGIN - 1,
      MAX_UPDATE_QUERY_LEN maxQueries maxQueries - sizeof UPDATE_QUERY_BEGIN + 1⟩ UPDATE_QUERY_BEGIN := by
    refine ⟨rfl, ?_, hquery⟩
    show sizeof UPDATE_QUERY_BEGIN - 1 + (MAX_UPDATE_QUERY_LEN maxQueries maxQueries - sizeof UPDATE_QUERY_BEGIN + 1) = _
    unfold sizeof
    omega
  have helems := @Filled.prints _ _ _ hstart elemText (List.range (i + 1)) (by omega)
  obtain ⟨middle, hcopy, hmiddle⟩ := @Filled.copy _ _ _ helems UPDATE_QUERY_MIDDLE (by
    simp only [List.length_append]
    omega)
  have helems2 := @Filled.prints _ _ _ hmiddle elem2Text (List.range' 1 i) (by
    simp only [List.length_append]
    omega)
  have htext : UPDATE_QUERY_BEGIN ++ (List.range (i + 1)).flatMap elemText ++ UPDATE_QUERY_MIDDLE ++
      (List.range' 1 i).flatMap elem2Text ++ UPDATE_QUERY_END = updateText i := by
    simp only [updateText, List.append_assoc]
  have hfinish := @Filled.finish _ _ _ helems2 UPDATE_QUERY_END (by
    simp only [List.length_append]
    omega) (htext ▸ zero_not_mem_updateText i)
  rw [htext] at hfinish
  refine ⟨_, ?_, hfinish.2, ?_⟩
  · have hend : ¬ ((List.range' 1 i).foldl (fun s j => s.print (elem2Text j)) middle).sz < sizeof UPDATE_QUERY_END := by
      have hiter := helems2.iter
      have hroom := helems2.room
      simp only [List.length_append] at hiter
      unfold sizeof
      omega
    have hprinted : printQuery maxQueries i query = (do
        let s ← Cursor.copy ((List.range (i + 1)).foldl (fun s j => s.print (elemText j))
          ⟨query, sizeof UPDATE_QUERY_BEGIN - 1,
            MAX_UPDATE_QUERY_LEN maxQueries maxQueries - sizeof UPDATE_QUERY_BEGIN + 1⟩) UPDATE_QUERY_MIDDLE
        let s := (List.range' 1 i).foldl (fun s j => s.print (elem2Text j)) s
        if s.sz < sizeof UPDATE_QUERY_END then .error .assertion
        else return writeBytes s.memory s.iter (UPDATE_QUERY_END ++ [0])) := rfl
    rw [hprinted, hcopy]
    exact if_neg hend
  · have hfirst := hfinish.1
    unfold updateText at hfirst
    rw [List.length_append] at hfirst
    exact readBytes_left hfirst

/-! ### The loop -/

/-- The room for the number in a name. -/
theorem nameSize_eq (maxQueries : ℕ) :
    sizeofName maxQueries - sizeof UPDATE_QUERY_NAME_PREFIX + 1 = (decimal maxQueries).length + 1 := by
  unfold sizeofName sizeof
  rw [List.length_append]
  omega

theorem length_decimal_le {n m : ℕ} (h : n ≤ m) : (decimal n).length ≤ (decimal m).length := by
  have hbound := (length_decimal_le_iff (length_decimal_pos m)).mp (Nat.le_refl _)
  exact (length_decimal_le_iff (length_decimal_pos m)).mpr (Nat.lt_of_le_of_lt h hbound)

theorem zero_not_mem_updateName (n : ℕ) : 0 ∉ updateName n := by
  unfold updateName
  rw [List.mem_append, not_or]
  exact ⟨by decide, zero_not_mem_decimal n⟩

/-- The memory behind a text that is printed. -/
theorem Cursor.print_memory {s : Cursor} {text : List UInt8} (h : text.length < s.sz) :
    (s.print text).memory = writeBytes s.memory s.iter (text ++ [0]) := by
  have htake : text.take (s.sz - 1) = text := List.take_of_length_le (by omega)
  unfold Cursor.print
  rw [if_neg (by omega), if_neg (by omega), htake]

theorem updateName_fits {n : ℕ} (hn : n ≤ maxQueries) :
    UPDATE_QUERY_NAME_PREFIX.length + (decimal n).length < sizeofName maxQueries := by
  have hlength := length_decimal_le hn
  unfold sizeofName sizeof
  rw [List.length_append]
  omega

/-- The place of the number in a name. -/
def nameCursor (maxQueries : ℕ) (memory : Memory) : Cursor :=
  ⟨memory, sizeof UPDATE_QUERY_NAME_PREFIX - 1, sizeofName maxQueries - sizeof UPDATE_QUERY_NAME_PREFIX + 1⟩

theorem number_fits {n : ℕ} (hn : n ≤ maxQueries) (memory : Memory) :
    (decimal n).length < (nameCursor maxQueries memory).sz := by
  have hlength := length_decimal_le hn
  show (decimal n).length < sizeofName maxQueries - sizeof UPDATE_QUERY_NAME_PREFIX + 1
  rw [nameSize_eq]
  omega

/-- A number printed behind the beginning of a name makes the name. -/
theorem print_name {n : ℕ} (hn : n ≤ maxQueries) {memory : Memory}
    (hmemory : readBytes memory 0 UPDATE_QUERY_NAME_PREFIX.length = UPDATE_QUERY_NAME_PREFIX) :
    readBytes ((nameCursor maxQueries memory).print (decimal n)).memory 0 UPDATE_QUERY_NAME_PREFIX.length =
        UPDATE_QUERY_NAME_PREFIX ∧
      cString (sizeofName maxQueries) ((nameCursor maxQueries memory).print (decimal n)).memory = updateName n := by
  have hfits := updateName_fits hn
  have hstart : Filled (sizeofName maxQueries) (nameCursor maxQueries memory) UPDATE_QUERY_NAME_PREFIX := by
    refine ⟨rfl, ?_, hmemory⟩
    show sizeof UPDATE_QUERY_NAME_PREFIX - 1 + (sizeofName maxQueries - sizeof UPDATE_QUERY_NAME_PREFIX + 1) = _
    unfold sizeof
    omega
  have hname := hstart.finish hfits (zero_not_mem_updateName n)
  rw [← Cursor.print_memory (number_fits hn memory), List.length_append] at hname
  exact ⟨readBytes_left hname.1, hname.2⟩

/-- The buffers hold the beginnings of the name and of the text. -/
structure Prepared (maxQueries k : ℕ) (s : Preparation) : Prop where
  name : readBytes s.name 0 UPDATE_QUERY_NAME_PREFIX.length = UPDATE_QUERY_NAME_PREFIX
  query : readBytes s.query 0 UPDATE_QUERY_BEGIN.length = UPDATE_QUERY_BEGIN
  statements : s.preparedStatements = (List.range k).reverse.map fun i => (updateName (i + 1), updateText i)

/-- One iteration prepares the statement for one more update. -/
theorem Prepared.step {s : Preparation} (h : Prepared maxQueries i s) (hi : i < maxQueries) :
    ∃ s', prepareUpdate maxQueries s i = .ok s' ∧ Prepared maxQueries (i + 1) s' := by
  obtain ⟨query', hquery, htext, hbegin⟩ := printQuery_eq hi h.query
  obtain ⟨hfirst, hname⟩ := print_name hi h.name
  have hfits : (decimal (i + 1)).length < sizeofName maxQueries - sizeof UPDATE_QUERY_NAME_PREFIX + 1 :=
    number_fits hi s.name
  refine ⟨⟨((nameCursor maxQueries s.name).print (decimal (i + 1))).memory, query',
    (cString (sizeofName maxQueries) ((nameCursor maxQueries s.name).print (decimal (i + 1))).memory,
      cString (MAX_UPDATE_QUERY_LEN maxQueries maxQueries) query') :: s.preparedStatements⟩, ?_, ?_⟩
  · unfold prepareUpdate
    dsimp only
    rw [if_neg (Nat.not_le_of_lt hfits), hquery]
    rfl
  · refine ⟨hfirst, hbegin, ?_⟩
    have hpair : (cString (sizeofName maxQueries) ((nameCursor maxQueries s.name).print (decimal (i + 1))).memory,
        cString (MAX_UPDATE_QUERY_LEN maxQueries maxQueries) query') = (updateName (i + 1), updateText i) :=
      congrArg₂ Prod.mk hname htext
    rw [List.range_succ, List.reverse_append, List.map_append, ← h.statements, hpair]
    rfl

theorem prepared_all {s : Preparation} (h : Prepared maxQueries 0 s) {k : ℕ} (hk : k ≤ maxQueries) :
    ∃ s', (List.range k).foldlM (prepareUpdate maxQueries) s = .ok s' ∧ Prepared maxQueries k s' := by
  induction k with
  | zero => exact ⟨s, rfl, h⟩
  | succ k ih =>
    obtain ⟨s₁, hrun, hprepared⟩ := ih (Nat.le_of_succ_le hk)
    obtain ⟨s₂, hstep, hprepared₂⟩ := hprepared.step hk
    refine ⟨s₂, ?_, hprepared₂⟩
    rw [List.range_succ, List.foldlM_append, hrun]
    exact (bind_pure _).trans hstep

/-- The statements of all numbers of queries are prepared, with their whole texts. -/
theorem initializeWorldHandlers_eq (maxQueries : ℕ) (name query : Memory) :
    initializeWorldHandlers maxQueries name query = .ok ((WORLD_TABLE_NAME, WORLD_QUERY) ::
      (List.range maxQueries).reverse.map fun i => (updateName (i + 1), updateText i)) := by
  have hname : ¬ sizeofName maxQueries < sizeof UPDATE_QUERY_NAME_PREFIX := by
    unfold sizeofName sizeof
    rw [List.length_append]
    omega
  have hquery : ¬ MAX_UPDATE_QUERY_LEN maxQueries maxQueries < sizeof UPDATE_QUERY_BEGIN := by
    unfold MAX_UPDATE_QUERY_LEN
    have hconstant : sizeof UPDATE_QUERY_BEGIN ≤ sizeof UPDATE_QUERY_BEGIN + sizeof UPDATE_QUERY_MIDDLE +
      sizeof UPDATE_QUERY_END - 1 - sizeof UPDATE_QUERY_ELEM2 := by decide
    omega
  have hstart : Prepared maxQueries 0
      ⟨writeBytes name 0 UPDATE_QUERY_NAME_PREFIX, writeBytes query 0 UPDATE_QUERY_BEGIN, []⟩ :=
    ⟨readBytes_writeBytes _ _ _, readBytes_writeBytes _ _ _, rfl⟩
  obtain ⟨s, hrun, hprepared⟩ := prepared_all hstart (Nat.le_refl maxQueries)
  unfold initializeWorldHandlers
  rw [if_neg hname, if_neg hquery, hrun, ← hprepared.statements]
  rfl

/-- `do_updates` prints the name of the statement for its number of results. -/
theorem updateCommand_eq {n : ℕ} (hn : n ≤ maxQueries) (command : Memory) :
    updateCommand maxQueries n command = some (updateName n) := by
  have hname := (print_name hn (readBytes_writeBytes command 0 UPDATE_QUERY_NAME_PREFIX)).2
  rw [Cursor.print_memory (number_fits hn _)] at hname
  have hfits : (decimal n).length < sizeofName maxQueries - sizeof UPDATE_QUERY_NAME_PREFIX + 1 :=
    number_fits hn command
  unfold updateCommand
  dsimp only
  rw [if_neg (Nat.not_le_of_lt hfits)]
  apply congrArg some
  rw [show (Cursor.print ⟨command, sizeof UPDATE_QUERY_NAME_PREFIX - 1,
    sizeofName maxQueries - sizeof UPDATE_QUERY_NAME_PREFIX + 1⟩ (decimal n)).memory =
      writeBytes command (UPDATE_QUERY_NAME_PREFIX.length : ℕ) (decimal n ++ [0]) from Cursor.print_memory hfits,
    writeBytes_comm (by omega)]
  exact hname

end FrameworkBenchmarks.H2o
