import Mathlib.Data.List.Chain
import Mathlib.Data.List.Induction
import Mathlib.Data.Nat.Notation

/-!
# Escaping of JSON strings

`json.c` escapes a string twice over: `json_escape_internal` streams it to a callback in runs of
characters that need no escape, and `json_escape` makes room in place, from the end of the buffer.
A `char` is a byte, signed where it is widened.
-/

namespace FrameworkBenchmarks.Lwan

/-- Some byte of the word is zero. -/
def hasZero (v : BitVec 64) : BitVec 64 :=
  (v - 0x0101010101010101#64) &&& ~~~v &&& 0x8080808080808080#64

/-- The bytes of the word that a character equals. -/
def hasValue (x : BitVec 64) (n : UInt8) : BitVec 64 :=
  hasZero (x ^^^ (BitVec.allOnes 64 / 255#64 * n.toBitVec.signExtend 64))

/-- The letter after the backslash, or 0 if the character needs no escape. -/
def escapeAs (chr : UInt8) : UInt8 :=
  let escaped : List UInt8 := [34, 92, 98, 102, 110, 114, 116, 116]
  let mask := hasValue 0x225c080c0a0d0909#64 chr
  if mask = 0 then 0 else escaped.getD (mask.clz.toNat / 8) 0

/-- The loop of `json_escape_internal`, with the text between `unescaped` and `cur`: the pieces that
are handed to `append_bytes`. -/
def escapeRuns (run : List UInt8) : List UInt8 → List (List UInt8)
  | [] => if run = [] then [] else [run]
  | chr :: cur =>
    if chr = 0 then if run = [] then [] else [run]
    else
      let escaped := escapeAs chr
      if escaped ≠ 0 then
        if run ≠ [] then run :: [92, escaped] :: escapeRuns [] cur
        else [92, escaped] :: escapeRuns (run ++ [chr]) cur
      else escapeRuns (run ++ [chr]) cur

/-- `json_escape_internal`, on the string up to its NUL -/
def jsonEscapeInternal (str : List UInt8) : List (List UInt8) := escapeRuns [] str

/-- `json_calc_escaped_len` -/
def jsonCalcEscapedLen (str : List UInt8) : ℕ :=
  str.foldl (fun escapedLen chr => if escapeAs chr ≠ 0 then escapedLen + 1 else escapedLen) str.length

/-- The loop of `json_escape`, for the characters before `next`. -/
def escapeBackwards : ℕ → ℕ → List UInt8 → List UInt8
  | 0, _, buf => buf
  | next + 1, dest, buf =>
    let nextC := buf.getD next 0
    let escape := escapeAs nextC
    if escape ≠ 0 then escapeBackwards next (dest - 2) ((buf.set (dest - 1) escape).set (dest - 2) 92)
    else escapeBackwards next (dest - 1) (buf.set (dest - 1) nextC)

/-- `json_escape` on a buffer of its size: the new contents and the new length, or `-ENOMEM` -/
def jsonEscape (buf : List UInt8) (len : ℕ) : Option (List UInt8 × ℕ) :=
  let escapedLen := jsonCalcEscapedLen (buf.take len)
  if escapedLen = len then some (buf, len)
  else if buf.length ≤ escapedLen then none
  else some (escapeBackwards len escapedLen (buf.set escapedLen 0), escapedLen)

/-- The escape of one character. -/
def escapeChar (chr : UInt8) : List UInt8 :=
  if escapeAs chr ≠ 0 then [92, escapeAs chr] else [chr]

/-- The escape of a string, character by character. -/
def escaped (str : List UInt8) : List UInt8 := str.flatMap escapeChar

/-- Characters that need an escape neither come first nor follow each other. -/
def EscapesApart (str : List UInt8) : Prop :=
  (∀ chr ∈ str.head?, escapeAs chr = 0) ∧
    str.IsChain fun chr next => escapeAs chr = 0 ∨ escapeAs next = 0

section EscapeAs

/-- What is escaped, and how. -/
theorem escapeAs_eq (chr : UInt8) : escapeAs chr =
    if chr = 34 then 34 else if chr = 92 then 92 else if chr = 8 then 98 else if chr = 12 then 102
    else if chr = 10 then 110 else if chr = 13 then 114 else if chr = 9 then 116 else 0 := by
  have hall : ∀ n : Fin 256, escapeAs (UInt8.ofFin n) =
      if UInt8.ofFin n = 34 then 34 else if UInt8.ofFin n = 92 then 92 else if UInt8.ofFin n = 8 then 98
      else if UInt8.ofFin n = 12 then 102 else if UInt8.ofFin n = 10 then 110
      else if UInt8.ofFin n = 13 then 114 else if UInt8.ofFin n = 9 then 116 else 0 := by
    decide +kernel
  exact hall chr.toFin

/-- The backslash is escaped by itself, so an escape is never a NUL. -/
theorem escapeAs_zero : escapeAs 0 = 0 := by
  rw [escapeAs_eq]
  decide

@[simp] theorem escaped_nil : escaped [] = [] := rfl

@[simp] theorem escaped_cons (chr : UInt8) (str : List UInt8) :
    escaped (chr :: str) = escapeChar chr ++ escaped str := rfl

theorem escaped_append (str str' : List UInt8) :
    escaped (str ++ str') = escaped str ++ escaped str' :=
  List.flatMap_append

theorem escapeChar_of_zero {chr : UInt8} (h : escapeAs chr = 0) : escapeChar chr = [chr] :=
  if_neg (not_not_intro h)

theorem escapeChar_of_ne {chr : UInt8} (h : escapeAs chr ≠ 0) : escapeChar chr = [92, escapeAs chr] :=
  if_pos h

theorem length_escapeChar (chr : UInt8) :
    (escapeChar chr).length = if escapeAs chr ≠ 0 then 2 else 1 := by
  rw [escapeChar]
  split
  · rfl
  · rfl

end EscapeAs

section Length

theorem foldl_escapedLen (str : List UInt8) (n : ℕ) :
    str.foldl (fun escapedLen chr => if escapeAs chr ≠ 0 then escapedLen + 1 else escapedLen)
      (n + str.length) = n + (escaped str).length := by
  induction str generalizing n with
  | nil => rfl
  | cons chr str ih =>
    rw [List.foldl_cons, escaped_cons, List.length_append, length_escapeChar, List.length_cons]
    split
    · rw [show n + (str.length + 1) + 1 = n + 2 + str.length by omega, ih]
      omega
    · rw [show n + (str.length + 1) = n + 1 + str.length by omega, ih]
      omega

/-- `json_calc_escaped_len` is the length of the escaped string. -/
theorem jsonCalcEscapedLen_eq (str : List UInt8) : jsonCalcEscapedLen str = (escaped str).length := by
  have h := foldl_escapedLen str 0
  rwa [Nat.zero_add, Nat.zero_add] at h

/-- Escaping never shortens a string. -/
theorem length_le_escaped (str : List UInt8) : str.length ≤ (escaped str).length := by
  induction str with
  | nil => exact Nat.le_refl _
  | cons chr str ih =>
    rw [escaped_cons, List.length_append, length_escapeChar, List.length_cons]
    split
    · omega
    · omega

/-- A string that keeps its length has nothing to escape. -/
theorem escaped_eq_self {str : List UInt8} (h : (escaped str).length = str.length) :
    escaped str = str := by
  induction str with
  | nil => rfl
  | cons chr str ih =>
    have hle := length_le_escaped str
    rw [escaped_cons, List.length_append, length_escapeChar, List.length_cons] at h
    by_cases hchr : escapeAs chr = 0
    · rw [if_neg (not_not_intro hchr)] at h
      rw [escaped_cons, escapeChar_of_zero hchr, ih (by omega)]
      rfl
    · rw [if_pos hchr] at h
      omega

end Length

section InPlace

theorem set_middle {α : Type} (a b : List α) (x y : α) :
    (a ++ x :: b).set a.length y = a ++ y :: b := by
  rw [List.set_append_right _ _ (Nat.le_refl _), Nat.sub_self, List.set_cons_zero]

/-- Walking backwards, the characters before `next` are still what they were, and behind `dest`
stands the escape of the others; what lies between is as long as the escapes to come need. -/
theorem escapeBackwards_eq (str gap done : List UInt8)
    (hgap : str.length + gap.length = (escaped str).length) :
    escapeBackwards str.length (escaped str).length (str ++ gap ++ done) = escaped str ++ done := by
  induction str using List.reverseRecOn generalizing gap done with
  | nil =>
    obtain rfl : gap = [] := List.eq_nil_of_length_eq_zero (by simpa using hgap)
    rfl
  | append_singleton pre chr ih =>
    have hle := length_le_escaped pre
    have hnext : (pre ++ [chr] ++ gap ++ done).getD pre.length 0 = chr := by simp
    rw [List.length_append, escaped_append, List.length_append, List.length_singleton] at hgap ⊢
    rw [escapeBackwards, hnext]
    by_cases hchr : escapeAs chr = 0
    · have hescape : escaped [chr] = [chr] := by
        rw [escaped_cons, escapeChar_of_zero hchr]
        rfl
      rw [hescape, List.length_singleton] at hgap ⊢
      rw [if_neg (not_not_intro hchr), Nat.add_sub_cancel]
      -- the last place of the gap takes the character
      obtain ⟨gap', last, hlast⟩ : ∃ gap' last, chr :: gap = gap' ++ [last] :=
        ⟨_, _, (List.dropLast_append_getLast (List.cons_ne_nil chr gap)).symm⟩
      have hlength : gap'.length = gap.length := by simpa using (congrArg List.length hlast).symm
      have hbuf : pre ++ [chr] ++ gap ++ done = (pre ++ gap') ++ last :: done := by
        rw [List.append_assoc pre, List.singleton_append, hlast]
        simp
      have hplace : (escaped pre).length = (pre ++ gap').length := by
        rw [List.length_append, hlength]
        omega
      rw [hbuf, hplace, set_middle, ← hplace, ih gap' (chr :: done) (by omega), List.append_assoc]
      rfl
    · have hescape : escaped [chr] = [92, escapeAs chr] := by
        rw [escaped_cons, escapeChar_of_ne hchr]
        rfl
      rw [hescape] at hgap ⊢
      dsimp only [List.length_cons, List.length_nil] at hgap ⊢
      rw [if_pos hchr]
      -- the last two places of the gap take the escape
      have hne : gap ≠ [] := by
        rintro rfl
        simp only [List.length_nil] at hgap
        omega
      obtain ⟨gap₁, last, rfl⟩ : ∃ gap₁ last, gap = gap₁ ++ [last] :=
        ⟨_, _, (List.dropLast_append_getLast hne).symm⟩
      obtain ⟨gap', first, hfirst⟩ : ∃ gap' first, chr :: gap₁ = gap' ++ [first] :=
        ⟨_, _, (List.dropLast_append_getLast (List.cons_ne_nil chr gap₁)).symm⟩
      have hlength : gap'.length = gap₁.length := by simpa using (congrArg List.length hfirst).symm
      have hbuf : pre ++ [chr] ++ (gap₁ ++ [last]) ++ done = (pre ++ gap') ++ first :: last :: done := by
        rw [List.append_assoc pre, List.singleton_append, ← List.cons_append, hfirst]
        simp
      rw [List.length_append, List.length_singleton] at hgap
      have hplace : (escaped pre).length = (pre ++ gap').length := by
        rw [List.length_append, hlength]
        omega
      have hsecond : (pre ++ gap' ++ first :: last :: done).set ((pre ++ gap').length + 1) (escapeAs chr) =
          pre ++ gap' ++ first :: escapeAs chr :: done := by
        have hset := set_middle (pre ++ gap' ++ [first]) done last (escapeAs chr)
        rw [List.length_append] at hset
        simpa using hset
      rw [show (escaped pre).length + (0 + 1 + 1) - 1 = (escaped pre).length + 1 by omega,
        show (escaped pre).length + (0 + 1 + 1) - 2 = (escaped pre).length by omega, hbuf, hplace,
        hsecond, set_middle, ← hplace, ih gap' (92 :: escapeAs chr :: done) (by omega),
        List.append_assoc]
      rfl

/-- In a buffer that is large enough, `json_escape` leaves the escaped string. -/
theorem jsonEscape_eq {str rest : List UInt8}
    (hroom : jsonCalcEscapedLen str < (str ++ 0 :: rest).length) :
    ∃ buf, jsonEscape (str ++ 0 :: rest) str.length = some (buf, (escaped str).length) ∧
      buf.take (escaped str).length = escaped str := by
  have htake : (str ++ 0 :: rest).take str.length = str := List.take_left
  rw [jsonEscape, htake]
  rw [jsonCalcEscapedLen_eq] at hroom ⊢
  by_cases hsame : (escaped str).length = str.length
  · rw [if_pos hsame, hsame]
    refine ⟨_, rfl, ?_⟩
    rw [htake, escaped_eq_self hsame]
  · rw [if_neg hsame, if_neg (Nat.not_le.mpr hroom)]
    refine ⟨_, rfl, ?_⟩
    have hle := length_le_escaped str
    obtain ⟨gap, done, hbuf, hgap⟩ : ∃ gap done, (str ++ 0 :: rest).set (escaped str).length 0 =
        str ++ gap ++ done ∧ str.length + gap.length = (escaped str).length := by
      refine ⟨((0 :: rest).set ((escaped str).length - str.length) 0).take
          ((escaped str).length - str.length),
        ((0 :: rest).set ((escaped str).length - str.length) 0).drop
          ((escaped str).length - str.length), ?_, ?_⟩
      · rw [List.set_append_right _ _ hle, List.append_assoc, List.take_append_drop]
      · rw [List.length_take, List.length_set]
        simp only [List.length_append, List.length_cons] at hroom ⊢
        omega
    rw [hbuf, escapeBackwards_eq str gap done hgap]
    exact List.take_left

end InPlace

section Streamed

variable {run str rest : List UInt8}

/-- What is passed on is at least as long as the escaped string. -/
theorem length_le_escapeRuns (run rest : List UInt8) (hnul : 0 ∉ str) :
    run.length + (escaped str).length ≤ (escapeRuns run (str ++ 0 :: rest)).flatten.length := by
  induction str generalizing run with
  | nil =>
    rw [List.nil_append, escapeRuns, if_pos rfl]
    split
    · rename_i hrun
      simp [hrun]
    · simp
  | cons chr str ih =>
    have hchr : chr ≠ 0 := fun hzero => hnul (hzero ▸ List.mem_cons_self)
    have hstr : 0 ∉ str := fun hmem => hnul (List.mem_cons_of_mem _ hmem)
    rw [List.cons_append, escapeRuns, if_neg hchr, escaped_cons, List.length_append, length_escapeChar]
    dsimp only
    by_cases hescape : escapeAs chr = 0
    · rw [if_neg (not_not_intro hescape), if_neg (not_not_intro hescape)]
      have := ih (run ++ [chr]) hstr
      rw [List.length_append, List.length_singleton] at this
      omega
    · rw [if_pos hescape, if_pos hescape]
      split
      · have := ih [] hstr
        simp only [List.flatten_cons, List.length_append, List.length_cons, List.length_nil] at this ⊢
        omega
      · have := ih (run ++ [chr]) hstr
        simp only [List.flatten_cons, List.length_append, List.length_cons, List.length_nil] at this ⊢
        omega

/-- A run that is empty must not be met by a character to escape. -/
def RunsReady (run str : List UInt8) : Prop :=
  (run = [] → ∀ chr ∈ str.head?, escapeAs chr = 0) ∧
    str.IsChain fun chr next => escapeAs chr = 0 ∨ escapeAs next = 0

/-- Then every piece is passed on once. -/
theorem escapeRuns_eq (rest : List UInt8) (hnul : 0 ∉ str) (hready : RunsReady run str) :
    (escapeRuns run (str ++ 0 :: rest)).flatten = run ++ escaped str := by
  induction str generalizing run with
  | nil =>
    rw [List.nil_append, escapeRuns, if_pos rfl]
    split
    · rename_i hrun
      simp [hrun]
    · simp
  | cons chr str ih =>
    obtain ⟨hhead, hchain⟩ := hready
    have hchr : chr ≠ 0 := fun hzero => hnul (hzero ▸ List.mem_cons_self)
    have hstr : 0 ∉ str := fun hmem => hnul (List.mem_cons_of_mem _ hmem)
    have htail := hchain.tail
    rw [List.cons_append, escapeRuns, if_neg hchr, escaped_cons]
    dsimp only
    by_cases hescape : escapeAs chr = 0
    · have hready : RunsReady (run ++ [chr]) str :=
        ⟨fun hnil => absurd hnil (by simp), htail⟩
      rw [if_neg (not_not_intro hescape), ih hstr hready, escapeChar_of_zero hescape,
        List.append_assoc]
    · have hrun : run ≠ [] := fun hnil => hescape (hhead hnil chr rfl)
      have hready : RunsReady [] str := by
        refine ⟨fun _ next hnext => ?_, htail⟩
        cases str with
        | nil => cases hnext
        | cons d str =>
          obtain rfl : d = next := Option.some.inj hnext
          exact (List.isChain_cons_cons.mp hchain).1.resolve_left hescape
      rw [if_pos hescape, if_pos hrun, List.flatten_cons, List.flatten_cons, ih hstr hready,
        escapeChar_of_ne hescape]
      rfl

/-- Otherwise a character to escape is passed on a second time, in the run it should have ended. -/
theorem escapeRuns_length_lt (rest : List UInt8) (hnul : 0 ∉ str) (hready : ¬RunsReady run str) :
    run.length + (escaped str).length < (escapeRuns run (str ++ 0 :: rest)).flatten.length := by
  induction str generalizing run with
  | nil => exact absurd ⟨fun _ _ h => (nomatch h), .nil⟩ hready
  | cons chr str ih =>
    have hchr : chr ≠ 0 := fun hzero => hnul (hzero ▸ List.mem_cons_self)
    have hstr : 0 ∉ str := fun hmem => hnul (List.mem_cons_of_mem _ hmem)
    rw [List.cons_append, escapeRuns, if_neg hchr, escaped_cons, List.length_append, length_escapeChar]
    dsimp only
    by_cases hescape : escapeAs chr = 0
    · have hlater : ¬RunsReady (run ++ [chr]) str := by
        intro hlater
        refine hready ⟨fun _ c hc => ?_, ?_⟩
        · obtain rfl : chr = c := Option.some.inj hc
          exact hescape
        · cases str with
          | nil => exact .singleton _
          | cons d str => exact List.isChain_cons_cons.mpr ⟨.inl hescape, hlater.2⟩
      have := ih hstr hlater
      rw [List.length_append, List.length_singleton] at this
      rw [if_neg (not_not_intro hescape), if_neg (not_not_intro hescape)]
      omega
    · rw [if_pos hescape, if_pos hescape]
      by_cases hrun : run = []
      · rw [if_neg (not_not_intro hrun)]
        have := length_le_escapeRuns (run ++ [chr]) rest hstr
        simp only [List.flatten_cons, List.length_append, List.length_cons, List.length_nil] at this ⊢
        omega
      · rw [if_pos hrun]
        have hlater : ¬RunsReady [] str := by
          intro hlater
          refine hready ⟨fun hnil => absurd hnil hrun, ?_⟩
          cases str with
          | nil => exact .singleton _
          | cons d str => exact List.isChain_cons_cons.mpr ⟨.inr (hlater.1 rfl d rfl), hlater.2⟩
        have := ih hstr hlater
        simp only [List.flatten_cons, List.length_append, List.length_cons, List.length_nil] at this ⊢
        omega

end Streamed

/-- The streamed escape of a string is its escape, as the one in place is, and has the length that was
computed, exactly if the characters to escape are neither first nor adjacent. -/
theorem jsonEscape_agree_iff {str rest : List UInt8} (hnul : 0 ∉ str)
    (hroom : jsonCalcEscapedLen str < (str ++ 0 :: rest).length) :
    ((jsonEscapeInternal (str ++ 0 :: rest)).flatten = escaped str ∧
      (∃ buf, jsonEscape (str ++ 0 :: rest) str.length = some (buf, (escaped str).length) ∧
        buf.take (escaped str).length = escaped str) ∧
      (escaped str).length = jsonCalcEscapedLen str) ↔ EscapesApart str := by
  have hready : RunsReady [] str ↔ EscapesApart str :=
    and_congr_left fun _ => ⟨fun h => h rfl, fun h _ => h⟩
  constructor
  · rintro ⟨hstreamed, -, -⟩
    by_contra hapart
    have hlt := escapeRuns_length_lt rest hnul fun h => hapart (hready.mp h)
    rw [jsonEscapeInternal] at hstreamed
    rw [hstreamed, List.length_nil, Nat.zero_add] at hlt
    exact Nat.lt_irrefl _ hlt
  · intro hapart
    exact ⟨escapeRuns_eq rest hnul (hready.mpr hapart), jsonEscape_eq hroom,
      (jsonCalcEscapedLen_eq str).symm⟩

/-- A line break between words. -/
theorem jsonEscape_agree_words :
    (jsonEscapeInternal [97, 10, 98, 0, 0]).flatten = [97, 92, 110, 98] ∧ EscapesApart [97, 10, 98] := by
  have hnul : (0 : UInt8) ∉ [97, 10, 98] := by decide
  have hroom : jsonCalcEscapedLen [97, 10, 98] < ([97, 10, 98] ++ 0 :: [0] : List UInt8).length := by
    decide +kernel
  have hapart : EscapesApart [97, 10, 98] := ⟨by decide +kernel, by decide +kernel⟩
  have hescaped : escaped [97, 10, 98] = [97, 92, 110, 98] := by decide +kernel
  exact ⟨((jsonEscape_agree_iff hnul hroom).mpr hapart).1.trans hescaped, hapart⟩

/-- A string that begins with a quote: the quote is passed on again, without a backslash. -/
theorem jsonEscape_quote_first :
    (jsonEscapeInternal [34, 97, 0]).flatten = [92, 34, 34, 97] ∧
      (jsonEscapeInternal [34, 97, 0]).flatten ≠ escaped [34, 97] := by
  decide +kernel

end FrameworkBenchmarks.Lwan
