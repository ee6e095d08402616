import FrameworkBenchmarks.Lwan.JsonEncoder
import FrameworkBenchmarks.Lwan.JsonMachine
import FrameworkBenchmarks.Lwan.JsonText

/-!
# Decoding what has been encoded

The decoder writes exactly the cells that the encoder has read, so two fields may even share one. A
length is counted up while the elements are decoded and must lie outside of them. Strings are decoded
as they were escaped.
-/

namespace FrameworkBenchmarks.Lwan

open Common (ascii isDigit)
open Machine

/-- Induction over a descriptor and those below it. -/
theorem JsonObjDescr.induct {P : JsonObjDescr → Prop} (number : ∀ field, P (.number field))
    (string : ∀ field, P (.string field)) (boolean : ∀ field, P (.boolean field))
    (object : ∀ field subDescr, (∀ descr ∈ subDescr, P descr) → P (.object field subDescr))
    (array : ∀ field elemDescr nElements, P elemDescr → P (.array field elemDescr nElements))
    (descr : JsonObjDescr) : P descr :=
  @JsonObjDescr.rec P (fun descrs => ∀ descr ∈ descrs, P descr) number string boolean object array
    (fun _ h => nomatch h) (fun _ _ hhead htail => List.forall_mem_cons.mpr ⟨hhead, htail⟩) descr

section Overwrites

variable {α : Type} {f f' f'' g : ℤ → α} {s s' : ℤ → Prop} {δ : ℤ}

/-- The second map is the first with the cells of a set copied from a third one, where they lie `δ`
lower. -/
def Overwrites (δ : ℤ) (g : ℤ → α) (s : ℤ → Prop) (f f' : ℤ → α) : Prop :=
  ∀ a, (s a → f' (a + δ) = g a) ∧ (¬s a → f' (a + δ) = f (a + δ))

theorem Overwrites.refl (h : ∀ a, ¬s a) : Overwrites δ g s f f :=
  fun a => ⟨fun ha => absurd ha (h a), fun _ => rfl⟩

theorem Overwrites.trans (h : Overwrites δ g s f f') (h' : Overwrites δ g s' f' f'') :
    Overwrites δ g (fun a => s a ∨ s' a) f f'' := by
  intro a
  by_cases ha' : s' a
  · exact ⟨fun _ => (h' a).1 ha', fun hn => absurd (.inr ha') hn⟩
  · constructor
    · intro ha
      rw [(h' a).2 ha', (h a).1 (ha.resolve_right ha')]
    · intro hn
      rw [(h' a).2 ha', (h a).2 fun ha => hn (.inl ha)]

theorem Overwrites.congr (h : Overwrites δ g s f f') (heq : ∀ a, s a ↔ s' a) :
    Overwrites δ g s' f f' :=
  fun a => ⟨fun ha => (h a).1 ((heq a).mpr ha), fun ha => (h a).2 fun hs => ha ((heq a).mp hs)⟩

/-- One cell. -/
theorem overwrites_storeAt (addr : ℤ) :
    Overwrites δ g (fun a => a = addr) f (storeAt f (addr + δ) (g addr)) := by
  intro a
  constructor
  · rintro rfl
    exact if_pos rfl
  · intro ha
    exact if_neg fun h => ha (by omega)

/-- A cell outside, changed before or after. -/
theorem Overwrites.storeAt (h : Overwrites δ g s f f') {addr : ℤ} (haddr : ¬s addr) (x : α) :
    Overwrites δ g s (storeAt f (addr + δ) x) (storeAt f' (addr + δ) x) := by
  intro a
  by_cases ha : a = addr
  · subst ha
    exact ⟨fun hs => absurd hs haddr, fun _ => (if_pos rfl).trans (if_pos rfl).symm⟩
  · have hne : a + δ ≠ addr + δ := fun heq => ha (by omega)
    have hf : Lwan.storeAt f (addr + δ) x (a + δ) = f (a + δ) := if_neg hne
    have hf' : Lwan.storeAt f' (addr + δ) x (a + δ) = f' (a + δ) := if_neg hne
    rw [hf, hf']
    exact h a

end Overwrites

section Copied

/-- One of the parts has its cell at the address. -/
def HasCell (cell : JsonObjDescr × ℤ → Option ℤ) (ps : List (JsonObjDescr × ℤ)) (a : ℤ) : Prop :=
  ∃ p ∈ ps, cell p = some a

/-- The cells of the parts have been copied from one memory to another, `δ` higher. -/
structure Copied (source : Memory) (δ : ℤ) (ps : List (JsonObjDescr × ℤ)) (mem mem' : Memory) :
    Prop where
  num : Overwrites δ source.num (HasCell numCell ps) mem.num mem'.num
  bool : Overwrites δ source.bool (HasCell boolCell ps) mem.bool mem'.bool
  str : Overwrites δ source.str (HasCell strCell ps) mem.str mem'.str
  size : Overwrites δ source.size (HasCell sizeCell ps) mem.size mem'.size

variable {source mem mem' mem'' : Memory} {δ : ℤ} {ps ps' : List (JsonObjDescr × ℤ)}
  {cell : JsonObjDescr × ℤ → Option ℤ} {p : JsonObjDescr × ℤ}

theorem hasCell_nil (a : ℤ) : ¬HasCell cell [] a := fun ⟨_, hmem, _⟩ => nomatch hmem

theorem hasCell_append (a : ℤ) : HasCell cell (ps ++ ps') a ↔ HasCell cell ps a ∨ HasCell cell ps' a := by
  simp only [HasCell, List.mem_append, or_and_right, exists_or]

theorem hasCell_singleton (a : ℤ) : HasCell cell [p] a ↔ cell p = some a := by
  simp only [HasCell, List.mem_singleton, exists_eq_left]

theorem hasCell_congr (h : ∀ p, p ∈ ps ↔ p ∈ ps') (a : ℤ) : HasCell cell ps a ↔ HasCell cell ps' a := by
  simp only [HasCell, h]

theorem overwrites_single {α : Type} {f g : ℤ → α} {addr : ℤ} (h : cell p = some addr) :
    Overwrites δ g (HasCell cell [p]) f (storeAt f (addr + δ) (g addr)) := by
  apply (overwrites_storeAt addr).congr
  intro a
  rw [hasCell_singleton, h]
  exact ⟨fun heq => congrArg some heq.symm, fun heq => (Option.some.inj heq).symm⟩

theorem overwrites_none {α : Type} {f g : ℤ → α} (h : cell p = none) :
    Overwrites δ g (HasCell cell [p]) f f := by
  apply Overwrites.refl
  intro a ha
  rw [hasCell_singleton, h] at ha
  exact nomatch ha

theorem copied_number (field : DescrField) (val : ℤ) : Copied source δ [(.number field, val)] mem
    (mem.setNum (val + field.offset + δ) (source.num (val + field.offset))) :=
  ⟨overwrites_single rfl, overwrites_none rfl, overwrites_none rfl, overwrites_none rfl⟩

theorem copied_boolean (field : DescrField) (val : ℤ) : Copied source δ [(.boolean field, val)] mem
    (mem.setBool (val + field.offset + δ) (source.bool (val + field.offset))) :=
  ⟨overwrites_none rfl, overwrites_single rfl, overwrites_none rfl, overwrites_none rfl⟩

theorem copied_string (field : DescrField) (val : ℤ) : Copied source δ [(.string field, val)] mem
    (mem.setStr (val + field.offset + δ) (source.str (val + field.offset))) :=
  ⟨overwrites_none rfl, overwrites_none rfl, overwrites_single rfl, overwrites_none rfl⟩

/-- An array has its length, apart from its elements. -/
theorem copied_array (field : DescrField) (elemDescr : JsonObjDescr) (nElements : ℕ) (val : ℤ) :
    Copied source δ [(.array field elemDescr nElements, val)] mem
      (mem.setSize (val + elemDescr.field.offset + δ) (source.size (val + elemDescr.field.offset))) :=
  ⟨overwrites_none rfl, overwrites_none rfl, overwrites_none rfl, overwrites_single rfl⟩

/-- An object has no cell of its own. -/
theorem copied_object (field : DescrField) (subDescr : List JsonObjDescr) (val : ℤ) :
    Copied source δ [(.object field subDescr, val)] mem mem :=
  ⟨overwrites_none rfl, overwrites_none rfl, overwrites_none rfl, overwrites_none rfl⟩

theorem Copied.refl : Copied source δ [] mem mem :=
  ⟨.refl hasCell_nil, .refl hasCell_nil, .refl hasCell_nil, .refl hasCell_nil⟩

theorem Copied.trans (h : Copied source δ ps mem mem') (h' : Copied source δ ps' mem' mem'') :
    Copied source δ (ps ++ ps') mem mem'' := by
  constructor
  · exact (h.num.trans h'.num).congr fun a => (hasCell_append a).symm
  · exact (h.bool.trans h'.bool).congr fun a => (hasCell_append a).symm
  · exact (h.str.trans h'.str).congr fun a => (hasCell_append a).symm
  · exact (h.size.trans h'.size).congr fun a => (hasCell_append a).symm

theorem Copied.congr (h : Copied source δ ps mem mem') (heq : ∀ p, p ∈ ps ↔ p ∈ ps') :
    Copied source δ ps' mem mem' := by
  constructor
  · exact h.num.congr (hasCell_congr heq)
  · exact h.bool.congr (hasCell_congr heq)
  · exact h.str.congr (hasCell_congr heq)
  · exact h.size.congr (hasCell_congr heq)

/-- A length outside of the parts, changed before or after. -/
theorem Copied.setSize (h : Copied source δ ps mem mem') {addr : ℤ} (haddr : ¬HasCell sizeCell ps addr)
    (n : ℕ) : Copied source δ ps (mem.setSize (addr + δ) n) (mem'.setSize (addr + δ) n) :=
  ⟨h.num, h.bool, h.str, h.size.storeAt haddr n⟩

end Copied

section Leaves

/-- `int_to_string` writes an `int32_t` in decimal digits. -/
def WritesDecimal (intToString : ℤ → List UInt8) : Prop :=
  ∀ n : ℤ, -2 ^ 31 ≤ n → n < 2 ^ 31 → ∃ chr digits, (∀ b ∈ chr :: digits, isDigit b) ∧
    digitsValue (chr :: digits) = n.natAbs ∧
    intToString n = (if n < 0 then [45] else []) ++ chr :: digits

/-- `strtol` reads the digits to their end. -/
theorem strtol_decimal {chr : UInt8} {digits : List UInt8} (hdigits : ∀ b ∈ chr :: digits, isDigit b)
    {n : ℤ} (hlow : -2 ^ 31 ≤ n) (hhigh : n < 2 ^ 31) (hvalue : digitsValue (chr :: digits) = n.natAbs) :
    strtol ((if n < 0 then [45] else []) ++ chr :: digits) = (n, []) := by
  have htake : (chr :: digits).takeWhile isDigit = chr :: digits := by
    have h : (chr :: digits ++ []).takeWhile isDigit = chr :: digits ++ [].takeWhile isDigit :=
      List.takeWhile_append_of_pos hdigits
    rwa [List.takeWhile_nil, List.append_nil] at h
  have hdrop : (chr :: digits).dropWhile isDigit = [] := by
    have h : (chr :: digits ++ []).dropWhile isDigit = [].dropWhile isDigit :=
      List.dropWhile_append_of_pos hdigits
    rwa [List.append_nil] at h
  rw [strtol]
  by_cases hneg : n < 0
  · rw [if_pos hneg, List.singleton_append, List.head?_cons, if_pos rfl, List.tail_cons, htake, hdrop,
      hvalue]
    congr 1
    omega
  · have hminus : ¬chr = 45 := by
      rintro rfl
      exact absurd (hdigits 45 List.mem_cons_self) (by decide)
    rw [if_neg hneg, List.nil_append, List.head?_cons,
      if_neg fun h => hminus (Option.some.inj h), htake, hdrop, hvalue]
    congr 1
    omega

/-- A number that has been written is decoded. -/
theorem decodeNum_decimal {intToString : ℤ → List UInt8} (hdec : WritesDecimal intToString) {n : ℤ}
    (hlow : -2 ^ 31 ≤ n) (hhigh : n < 2 ^ 31) {rest : List UInt8} (hrest : EndsNumber rest) :
    lexer (intToString n ++ rest) = ⟨.number, intToString n⟩ :: lexer rest ∧
      ∀ addr mem, decodeNum ⟨.number, intToString n⟩ addr mem = (0, mem.setNum addr n) := by
  obtain ⟨chr, digits, hdigits, hvalue, htext⟩ := hdec n hlow hhigh
  rw [htext]
  constructor
  · have h := lexer_signed (decide (n < 0)) (hdigits chr List.mem_cons_self)
      (fun b hb => isNumberByte_of_isDigit (hdigits b (List.mem_cons_of_mem _ hb))) hrest
    simpa using h
  · intro addr mem
    have hint : (BitVec.ofInt 32 n).toInt = n := by
      rw [BitVec.toInt_ofInt]
      exact Int.bmod_eq_of_le (by omega) (by omega)
    rw [decodeNum, strtol_decimal hdigits hlow hhigh hvalue]
    simp only [hint, ne_eq, not_true_eq_false, if_false, if_true]

/-- The letter of an escape is one that the lexer takes. -/
theorem escapeAs_mem {chr : UInt8} (h : escapeAs chr ≠ 0) : escapeAs chr ∈ ascii "\"\\/bfnrt" := by
  revert h
  rw [escapeAs_eq]
  split
  · decide
  split
  · decide
  split
  · decide
  split
  · decide
  split
  · decide
  split
  · decide
  split
  · decide
  · exact fun h => absurd rfl h

theorem lexerString_escapeChar {chr : UInt8} (hnul : chr ≠ 0) (start pos : List UInt8) :
    lexerString start (escapeChar chr ++ pos) = lexerString (start ++ escapeChar chr) pos := by
  by_cases hescape : escapeAs chr = 0
  · have hquote : chr ≠ 34 := by
      rintro rfl
      rw [escapeAs_eq] at hescape
      exact absurd hescape (by decide)
    have hslash : chr ≠ 92 := by
      rintro rfl
      rw [escapeAs_eq] at hescape
      exact absurd hescape (by decide)
    rw [escapeChar_of_zero hescape, List.singleton_append, lexerString.eq_def]
    exact (if_neg hnul).trans ((if_neg hslash).trans (if_neg hquote))
  · rw [escapeChar_of_ne hescape, List.cons_append, List.singleton_append, lexerString.eq_def]
    exact (if_neg (by decide)).trans ((if_pos rfl).trans (if_pos (escapeAs_mem hescape)))

theorem lexerString_escaped {str : List UInt8} (hnul : 0 ∉ str) (start rest : List UInt8) :
    lexerString start (escaped str ++ 34 :: rest) = (⟨.string, start ++ escaped str⟩, rest) := by
  induction str generalizing start with
  | nil =>
    rw [escaped_nil, List.append_nil, List.nil_append, lexerString.eq_def]
    exact (if_neg (by decide)).trans ((if_neg (by decide)).trans (if_pos rfl))
  | cons chr str ih =>
    rw [escaped_cons, List.append_assoc, lexerString_escapeChar fun h => hnul (h ▸ List.mem_cons_self),
      ih fun h => hnul (List.mem_cons_of_mem _ h), List.append_assoc]

/-- A string that has been written is read as it was escaped. -/
theorem lexer_strEncode {str : List UInt8} (hnul : 0 ∉ str) (hapart : EscapesApart str)
    (rest : List UInt8) : lexer (strEncode str ++ rest) = ⟨.string, escaped str⟩ :: lexer rest := by
  have hruns : (jsonEscapeInternal (str ++ [0])).flatten = escaped str :=
    escapeRuns_eq [] hnul ⟨fun _ => hapart.1, hapart.2⟩
  rw [strEncode, hruns, List.cons_append, List.append_assoc, List.singleton_append]
  exact lexer_of_lexerJson (congrArg some (lexerString_escaped hnul [] rest))

end Leaves

/-- The field name is written as the macros write it, once as it is and once as a key, in characters
that need no escape. -/
def MacroNamed (field : DescrField) : Prop :=
  field.fieldName = field.fieldName.take field.fieldNameLen ++
      34 :: (field.fieldName.take field.fieldNameLen ++ [34, 58]) ∧
    (field.fieldName.take field.fieldNameLen).length = field.fieldNameLen ∧
    ∀ c ∈ field.fieldName.take field.fieldNameLen, c ≠ 0 ∧ escapeAs c = 0

instance (field : DescrField) : Decidable (MacroNamed field) :=
  inferInstanceAs (Decidable (_ ∧ _ ∧ _))

/-- The fields of an object are less than 31 and have names of their own, written by the macros. -/
def FieldsFit (descrs : List JsonObjDescr) : Prop :=
  descrs.length < 31 ∧ (descrs.map JsonObjDescr.name).Nodup ∧ ∀ descr ∈ descrs, MacroNamed descr.field

/-- What a part of a structure has to be: its number fits, its string is one that is escaped as it
should be, its fields have names of their own, its array fits, with elements that are no arrays and
lie beside the length. -/
def PartFits (mem : Memory) : JsonObjDescr × ℤ → Prop
  | (.number field, val) =>
    -2 ^ 31 ≤ mem.num (val + field.offset) ∧ mem.num (val + field.offset) < 2 ^ 31
  | (.boolean _, _) => True
  | (.string field, val) =>
    0 ∉ mem.str (val + field.offset) ∧ EscapesApart (mem.str (val + field.offset))
  | (.object _ subDescr, _) => FieldsFit subDescr
  | (.array field elemDescr nElements, val) =>
    mem.size (val + elemDescr.field.offset) ≤ nElements ∧ 0 < getElemSize elemDescr ∧
      elemDescr.type ≠ .listStart ∧
      ∀ i < mem.size (val + elemDescr.field.offset),
        ¬HasCell sizeCell (parts mem elemDescr (elementVal (val + field.offset) elemDescr i))
          (val + elemDescr.field.offset)

section Decoding

variable {intToString : ℤ → List UInt8} {mem : Memory} {δ : ℤ}

/-- The value that is written for a part is decoded into a structure `δ` higher. -/
def Decodes (intToString : ℤ → List UInt8) (mem : Memory) (δ : ℤ) (descr : JsonObjDescr) (val : ℤ) :
    Prop :=
  ∀ rest, EndsNumber rest → ∃ token toks,
    lexer (encode intToString false mem descr val ++ rest) = token :: toks ∧ elementToken token.type ∧
      ∀ callers target, ∃ (ret : ℕ) (target' : Memory),
        exec (decode descr token (val + descr.field.offset + δ) (val + δ) callers target) toks =
          exec (resume ret callers target') (lexer rest) ∧
        Copied mem.escape δ (parts mem descr val) target target'

theorem decodes_boolean (field : DescrField) (val : ℤ) :
    Decodes intToString mem δ (.boolean field) val := by
  intro rest hrest
  have hcopied : ∀ target, Copied mem.escape δ [(.boolean field, val)] target
      (target.setBool (val + field.offset + δ) (mem.bool (val + field.offset))) :=
    fun target => copied_boolean field val
  rw [encode, boolEncode]
  cases hbool : mem.bool (val + field.offset) with
  | true =>
    rw [hbool] at hcopied
    exact ⟨_, _, lexer_true rest, rfl, fun callers target => ⟨0, _, rfl, hcopied target⟩⟩
  | false =>
    rw [hbool] at hcopied
    exact ⟨_, _, lexer_false rest, rfl, fun callers target => ⟨0, _, rfl, hcopied target⟩⟩

theorem decodes_number (hdec : WritesDecimal intToString) (field : DescrField) (val : ℤ)
    (hfits : PartFits mem (.number field, val)) : Decodes intToString mem δ (.number field) val := by
  intro rest hrest
  obtain ⟨hlexer, hnum⟩ := decodeNum_decimal hdec hfits.1 hfits.2 hrest
  refine ⟨_, _, hlexer, rfl, fun callers target => ⟨0, _, ?_, copied_number field val⟩⟩
  rw [decode, hnum]
  rfl

theorem decodes_string (field : DescrField) (val : ℤ) (hfits : PartFits mem (.string field, val)) :
    Decodes intToString mem δ (.string field) val := by
  intro rest hrest
  exact ⟨_, _, lexer_strEncode hfits.1 hfits.2 rest, rfl, fun callers target =>
    ⟨0, _, rfl, copied_string field val⟩⟩

/-- Where an element lies does not depend on what its descriptor's offset stands for. -/
theorem elementVal_add (field : ℤ) (elemDescr : JsonObjDescr) (i : ℕ) :
    elementVal field elemDescr i + elemDescr.field.offset = field + getElemSize elemDescr * i := by
  rw [elementVal]
  omega

/-- Only an array asks for the structure around it. -/
theorem decode_val {descr : JsonObjDescr} (h : descr.type ≠ .listStart) (token : Token)
    (field val val' : ℤ) (callers : List Frame) (target : Memory) :
    decode descr token field val callers target = decode descr token field val' callers target := by
  cases descr with
  | array _ _ _ => exact absurd rfl h
  | _ => rfl

theorem setSize_setSize (target : Memory) (addr : ℤ) (n n' : ℕ) :
    (target.setSize addr n).setSize addr n' = target.setSize addr n' := by
  have hsize : storeAt (storeAt target.size addr n) addr n' = storeAt target.size addr n' := by
    funext a
    by_cases ha : a = addr
    · rw [storeAt, if_pos ha, storeAt, if_pos ha]
    · rw [storeAt, if_neg ha, storeAt, if_neg ha, storeAt, if_neg ha]
  rw [Memory.setSize, Memory.setSize, hsize, Memory.setSize]

theorem setSize_self (target : Memory) (addr : ℤ) : target.setSize addr (target.size addr) = target := by
  have hsize : storeAt target.size addr (target.size addr) = target.size := by
    funext a
    by_cases ha : a = addr
    · rw [storeAt, if_pos ha, ha]
    · rw [storeAt, if_neg ha]
  rw [Memory.setSize, hsize]

theorem separated_cons (element : List UInt8) {elements : List (List UInt8)} (h : elements ≠ []) :
    separated (element :: elements) = element ++ 44 :: separated elements := by
  cases elements with
  | nil => exact absurd rfl h
  | cons _ _ => rfl

section Elements

variable {field : DescrField} {elemDescr : JsonObjDescr} {nElements : ℕ} {val : ℤ}

/-- The value of one element, at the start of the array or after a comma. -/
theorem exec_element (hfits : PartFits mem (.array field elemDescr nElements, val)) {i : ℕ}
    (hi : i < mem.size (val + elemDescr.field.offset))
    (hdecodes : Decodes intToString mem δ elemDescr (elementVal (val + field.offset) elemDescr i))
    (callers : List Frame) {rest : List UInt8} (hrest : EndsNumber rest) {phase : Phase}
    (hphase : phase = .next ∨ phase = .afterComma) (target : Memory)
    (hsize : target.size (val + elemDescr.field.offset + δ) = i) :
    let start := val + field.offset + δ
    let last := start + getElemSize elemDescr * nElements
    let length := val + elemDescr.field.offset + δ
    ∃ target',
      exec (running (.arr elemDescr last (start + getElemSize elemDescr * i) (val + δ)) callers phase target)
          (lexer (encode intToString false mem elemDescr
            (elementVal (val + field.offset) elemDescr i) ++ rest)) =
        exec (running (.arr elemDescr last (start + getElemSize elemDescr * (i + 1 : ℕ)) (val + δ)) callers
          .next (target'.setSize length (i + 1))) (lexer rest) ∧
      Copied mem.escape δ (parts mem elemDescr (elementVal (val + field.offset) elemDescr i))
        target target' := by
  intro start last length
  obtain ⟨hle, hpos, hnested, hapart⟩ := hfits
  obtain ⟨token, toks, hlexer, helem, hexec⟩ := hdecodes rest hrest
  obtain ⟨ret, target', hexec, hcopied⟩ := hexec
    (.arr elemDescr last (start + getElemSize elemDescr * i) (val + δ) :: callers) target
  refine ⟨target', ?_, hcopied⟩
  have hfield : elementVal (val + field.offset) elemDescr i + elemDescr.field.offset + δ =
      start + getElemSize elemDescr * i := by
    rw [elementVal_add]
    omega
  have hlast : start + getElemSize elemDescr * i ≠ last := by
    have hlt : getElemSize elemDescr * i < getElemSize elemDescr * nElements :=
      Nat.mul_lt_mul_of_pos_left (Nat.lt_of_lt_of_le hi hle) hpos
    omega
  have hcount : target'.size (val + elemDescr.field.offset + δ) = i :=
    ((hcopied.size (val + elemDescr.field.offset)).2 (hapart i hi)).trans hsize
  have hnext : start + getElemSize elemDescr * i + getElemSize elemDescr =
      start + getElemSize elemDescr * (i + 1 : ℕ) := by
    rw [Int.natCast_succ, Int.mul_add, Int.mul_one, Int.add_assoc]
  rw [hfield, decode_val hnested _ _ _ (val + δ)] at hexec
  rw [hlexer, exec_cons, step_element helem hphase, element, if_pos helem, if_neg hlast, hexec, resume_arr,
    hnext, Int.add_right_comm val δ, hcount]

/-- The rest of the elements, from the `i`-th on. -/
theorem exec_elements (hfits : PartFits mem (.array field elemDescr nElements, val))
    (hdecodes : ∀ i < mem.size (val + elemDescr.field.offset),
      Decodes intToString mem δ elemDescr (elementVal (val + field.offset) elemDescr i))
    (callers : List Frame) (rest : List UInt8) (m i : ℕ)
    (hcount : i + m = mem.size (val + elemDescr.field.offset)) {phase : Phase}
    (hphase : phase = .next ∨ phase = .afterComma ∧ m ≠ 0) (target : Memory)
    (hsize : target.size (val + elemDescr.field.offset + δ) = i) :
    let start := val + field.offset + δ
    let last := start + getElemSize elemDescr * nElements
    let length := val + elemDescr.field.offset + δ
    ∃ target',
      exec (running (.arr elemDescr last (start + getElemSize elemDescr * i) (val + δ)) callers phase target)
          (lexer (separated ((List.range' i m).map fun i => encode intToString false mem elemDescr
            (elementVal (val + field.offset) elemDescr i)) ++ 93 :: rest)) =
        exec (resume 0 callers target') (lexer rest) ∧
      Copied mem.escape δ ((List.range' i m).flatMap fun i =>
          parts mem elemDescr (elementVal (val + field.offset) elemDescr i))
        (target.setSize length (i + m)) target' := by
  intro start last length
  induction m generalizing i phase target with
  | zero =>
    obtain rfl : phase = .next := hphase.resolve_right fun h => h.2 rfl
    have hself : target.setSize length (i + 0) = target := by
      rw [Nat.add_zero, ← hsize]
      exact setSize_self target length
    refine ⟨target, ?_, ?_⟩
    · rw [List.range'_zero, List.map_nil, separated, List.nil_append, lexer_punctuator rfl]
      rfl
    · rw [hself]
      exact .refl
  | succ m ih =>
    have hi : i < mem.size (val + elemDescr.field.offset) := by omega
    have hphase' : phase = .next ∨ phase = .afterComma := hphase.imp_right And.left
    have hapart := hfits.2.2.2 i hi
    have hsizes : ∀ target' : Memory, (target'.setSize length (i + 1)).size length = i + 1 :=
      fun _ => if_pos rfl
    have hcopied : ∀ {target' target'' : Memory},
        Copied mem.escape δ (parts mem elemDescr (elementVal (val + field.offset) elemDescr i))
          target target' →
        Copied mem.escape δ ((List.range' (i + 1) m).flatMap fun i =>
          parts mem elemDescr (elementVal (val + field.offset) elemDescr i))
          ((target'.setSize length (i + 1)).setSize length (i + 1 + m)) target'' →
        Copied mem.escape δ ((List.range' i (m + 1)).flatMap fun i =>
          parts mem elemDescr (elementVal (val + field.offset) elemDescr i))
          (target.setSize length (i + (m + 1))) target'' := by
      intro target' target'' h h'
      rw [setSize_setSize] at h'
      rw [List.range'_succ, List.flatMap_cons, show i + (m + 1) = i + 1 + m by omega]
      exact (h.setSize hapart (i + 1 + m)).trans h'
    cases m with
    | zero =>
      have hrest : EndsNumber (93 :: rest) := endsNumber_cons (by decide) rest
      obtain ⟨target', hexec, hcopy⟩ :=
        exec_element hfits hi (hdecodes i hi) callers hrest hphase' target hsize
      obtain ⟨target'', hexec', hcopy'⟩ := ih (i + 1) (by omega) (.inl rfl) _ (hsizes target')
      exact ⟨target'', hexec.trans hexec', hcopied hcopy hcopy'⟩
    | succ m =>
      have hrest : EndsNumber (44 :: (separated ((List.range' (i + 1) (m + 1)).map fun i =>
          encode intToString false mem elemDescr (elementVal (val + field.offset) elemDescr i)) ++
            93 :: rest)) := endsNumber_cons (by decide) _
      obtain ⟨target', hexec, hcopy⟩ :=
        exec_element hfits hi (hdecodes i hi) callers hrest hphase' target hsize
      obtain ⟨target'', hexec', hcopy'⟩ := ih (i + 1) (by omega) (.inr ⟨rfl, Nat.succ_ne_zero m⟩) _
        (hsizes target')
      refine ⟨target'', ?_, hcopied hcopy hcopy'⟩
      rw [List.range'_succ, List.map_cons, separated_cons _ (by simp), List.append_assoc, List.cons_append,
        hexec, lexer_comma]
      exact hexec'

end Elements

theorem decodes_array (field : DescrField) (elemDescr : JsonObjDescr) (nElements : ℕ) (val : ℤ)
    (hfits : PartFits mem (.array field elemDescr nElements, val))
    (hdecodes : ∀ i < mem.size (val + elemDescr.field.offset),
      Decodes intToString mem δ elemDescr (elementVal (val + field.offset) elemDescr i)) :
    Decodes intToString mem δ (.array field elemDescr nElements) val := by
  intro rest hrest
  have hlexer : lexer (encode intToString false mem (.array field elemDescr nElements) val ++ rest) =
      ⟨.listStart, [91]⟩ :: lexer (separated ((List.range (mem.size (val + elemDescr.field.offset))).map
        fun i => encode intToString false mem elemDescr
          (elementVal (val + field.offset) elemDescr i)) ++ 93 :: rest) := by
    rw [encode, List.cons_append, lexer_punctuator rfl, List.append_assoc, List.singleton_append]
  refine ⟨_, _, hlexer, rfl, fun callers target => ?_⟩
  obtain ⟨target', hexec, hcopied⟩ := exec_elements hfits hdecodes callers rest
    (mem.size (val + elemDescr.field.offset)) 0 (Nat.zero_add _) (.inl rfl)
    (target.setSize (val + elemDescr.field.offset + δ) 0) (if_pos rfl)
  have hstart : val + field.offset + δ + getElemSize elemDescr * (0 : ℕ) = val + field.offset + δ := by
    omega
  have hdecode : decode (.array field elemDescr nElements) ⟨.listStart, [91]⟩ (val + field.offset + δ)
      (val + δ) callers target =
        running (.arr elemDescr (val + field.offset + δ + getElemSize elemDescr * nElements)
          (val + field.offset + δ) (val + δ)) callers .next
          (target.setSize (val + δ + elemDescr.field.offset) 0) := rfl
  rw [hstart, ← List.range_eq_range'] at hexec
  rw [setSize_setSize, Nat.zero_add, ← List.range_eq_range'] at hcopied
  refine ⟨0, target', ?_, ?_⟩
  · rw [JsonObjDescr.field, hdecode, Int.add_right_comm val δ]
    exact hexec
  · rw [parts]
    exact (copied_array field elemDescr nElements val).trans hcopied

section Fields

variable {subDescr : List JsonObjDescr} {base : ℤ}

theorem escaped_of_plain {str : List UInt8} (h : ∀ c ∈ str, escapeAs c = 0) : escaped str = str := by
  induction str with
  | nil => rfl
  | cons c str ih =>
    rw [escaped_cons, escapeChar_of_zero (h c List.mem_cons_self),
      ih fun c hc => h c (List.mem_cons_of_mem _ hc), List.singleton_append]

/-- The key that the macros write is read as the name of the field. -/
theorem lexer_encodeKey {descr : JsonObjDescr} (h : MacroNamed descr.field) (rest : List UInt8) :
    lexer (encodeKey descr.field false ++ rest) =
      ⟨.string, descr.name⟩ :: ⟨.colon, [58]⟩ :: lexer rest := by
  obtain ⟨hname, hlength, hplain⟩ := h
  have hkey : encodeKey descr.field false = 34 :: (descr.name ++ [34, 58]) := by
    have hdrop : descr.field.fieldName.drop descr.field.fieldNameLen = 34 :: (descr.name ++ [34, 58]) :=
      List.append_cancel_left ((List.take_append_drop _ _).trans hname)
    rw [encodeKey, Bool.not_false, if_pos rfl, hdrop]
    apply List.take_of_length_le
    rw [List.length_cons, List.length_append, JsonObjDescr.name, hlength]
    exact Nat.le_refl _
  have hnul : 0 ∉ descr.name := fun h => (hplain 0 h).1 rfl
  have hescaped : escaped descr.name = descr.name := escaped_of_plain fun c hc => (hplain c hc).2
  have hstring := lexerString_escaped hnul [] (58 :: rest)
  rw [hescaped] at hstring
  have hjson : lexerJson (34 :: (descr.name ++ 34 :: 58 :: rest)) =
      some (⟨.string, descr.name⟩, 58 :: rest) := congrArg some hstring
  rw [hkey, List.cons_append, List.append_assoc]
  exact (lexer_of_lexerJson hjson).trans (congrArg _ (lexer_colon rest))

/-- A field that has not been decoded is found by its name. -/
theorem findField_name {descr : JsonObjDescr} {decodedFields : ℕ} {descrs : List JsonObjDescr} (k i : ℕ)
    (hget : descrs[i]? = some descr) (hnodup : (descrs.map JsonObjDescr.name).Nodup)
    (hlength : descr.name.length = descr.field.fieldNameLen)
    (hbit : decodedFields.testBit (k + i) = false) :
    findField decodedFields descr.name k descrs = some (k + i, descr) := by
  induction descrs generalizing k i with
  | nil => exact nomatch hget
  | cons descr' descrs ih =>
    rw [findField]
    cases i with
    | zero =>
      obtain rfl : descr' = descr := Option.some.inj hget
      rw [if_neg (by rw [← Nat.add_zero k, hbit]; exact Bool.false_ne_true),
        if_neg (not_not_intro hlength), if_neg (not_not_intro rfl)]
      rfl
    | succ i =>
      have htail := ih (k + 1) i hget (List.nodup_cons.mp hnodup).2 (by rwa [Nat.succ_add_eq_add_succ])
      rw [Nat.succ_add_eq_add_succ] at htail
      have hne : descr.name ≠ descr'.name := by
        intro heq
        apply (List.nodup_cons.mp hnodup).1
        rw [← heq]
        exact List.mem_map_of_mem (List.mem_of_getElem? hget)
      split
      · exact htail
      · split
        · exact htail
        · exact htail

/-- One field, at the start of the object or after a comma. -/
theorem exec_field (hfits : PartFits mem (.object field subDescr, val)) {i : ℕ} {descr : JsonObjDescr}
    (hget : subDescr[i]? = some descr) (hdecodes : Decodes intToString mem δ descr base)
    (callers : List Frame) {rest : List UInt8} (hrest : EndsNumber rest) {phase : Phase}
    (hphase : phase = .next ∨ phase = .afterComma) {decodedFields : ℕ}
    (hbit : decodedFields.testBit i = false) (target : Memory) :
    ∃ target',
      exec (running (.obj subDescr (base + δ) decodedFields) callers phase target)
          (lexer (encodeKey descr.field false ++ encode intToString false mem descr base ++ rest)) =
        exec (running (.obj subDescr (base + δ) (decodedFields ||| 1 <<< i)) callers .next target')
          (lexer rest) ∧
      Copied mem.escape δ (parts mem descr base) target target' := by
  obtain ⟨hlen, hnodup, hmacro⟩ := hfits
  have hnamed := hmacro descr (List.mem_of_getElem? hget)
  obtain ⟨token, toks, hlexer, helem, hexec⟩ := hdecodes rest hrest
  obtain ⟨ret, target', hexec, hcopied⟩ := hexec
    (.obj subDescr (base + δ) (decodedFields ||| 1 <<< i) :: callers) target
  refine ⟨target', ?_, hcopied⟩
  have hfind := findField_name 0 i hget hnodup hnamed.2.1 (by rwa [Nat.zero_add])
  have hstring : ∀ toks, exec (running (.obj subDescr (base + δ) decodedFields) callers phase target)
      (⟨.string, descr.name⟩ :: ⟨.colon, [58]⟩ :: toks) =
        exec (running (.obj subDescr (base + δ) decodedFields) callers (.value descr.name) target) toks := by
    intro toks
    rcases hphase with rfl | rfl
    · rfl
    · rfl
  rw [Int.add_right_comm base, resume_obj] at hexec
  rw [List.append_assoc, lexer_encodeKey hnamed, hstring, hlexer, exec_cons, step, if_pos helem, member,
    hfind, Nat.zero_add]
  exact hexec

theorem encodeFields_eq (descrs : List JsonObjDescr) :
    encodeFields intToString false mem descrs base = descrs.map fun descr =>
      encodeKey descr.field false ++ encode intToString false mem descr base := by
  induction descrs with
  | nil => rfl
  | cons descr descrs ih => rw [encodeFields, ih, List.map_cons]

/-- The bits of the fields that have been decoded, with those of the fields from `k` on. -/
def Marked (k m : ℕ) (decodedFields decodedFields' : ℕ) : Prop :=
  ∀ j, decodedFields'.testBit j = (decodedFields.testBit j || decide (k ≤ j ∧ j < k + m))

theorem marked_cons {k m decodedFields decodedFields' : ℕ}
    (h : Marked (k + 1) m (decodedFields ||| 1 <<< k) decodedFields') :
    Marked k (m + 1) decodedFields decodedFields' := by
  intro j
  rw [h j, Nat.testBit_or, Nat.one_shiftLeft, Nat.testBit_two_pow, Bool.or_assoc]
  congr 1
  rw [← Bool.decide_or]
  congr 1
  exact propext (by omega)

/-- The fields from the `k`-th on, with a comma after each. -/
theorem exec_fields (hfits : PartFits mem (.object field subDescr, val))
    (callers : List Frame) (rest : List UInt8) (descrs : List JsonObjDescr) (k : ℕ)
    (hget : ∀ i, descrs[i]? = none ∨ descrs[i]? = subDescr[k + i]?)
    (hdecodes : ∀ descr ∈ descrs, Decodes intToString mem δ descr base) {phase : Phase}
    (hphase : phase = .next ∨ phase = .afterComma) {decodedFields : ℕ}
    (hbits : ∀ j, k ≤ j → decodedFields.testBit j = false) (target : Memory) :
    ∃ phase' decodedFields' target', (phase' = .next ∨ phase' = .afterComma) ∧
      Marked k descrs.length decodedFields decodedFields' ∧
      exec (running (.obj subDescr (base + δ) decodedFields) callers phase target)
          (lexer ((encodeFields intToString false mem descrs base).flatMap (· ++ [44]) ++ rest)) =
        exec (running (.obj subDescr (base + δ) decodedFields') callers phase' target') (lexer rest) ∧
      Copied mem.escape δ (fieldParts mem descrs base) target target' := by
  induction descrs generalizing k phase decodedFields target with
  | nil =>
    refine ⟨phase, decodedFields, target, hphase, fun j => ?_, rfl, .refl⟩
    rw [List.length_nil, Nat.add_zero, decide_eq_false (by omega), Bool.or_false]
  | cons descr descrs ih =>
    have hget' : subDescr[k]? = some descr := ((hget 0).resolve_left (by simp)).symm
    have hrest : EndsNumber (44 :: ((encodeFields intToString false mem descrs base).flatMap (· ++ [44]) ++
        rest)) := endsNumber_cons (by decide) _
    obtain ⟨target', hexec, hcopied⟩ := exec_field hfits hget' (hdecodes descr List.mem_cons_self) callers
      hrest hphase (hbits k (Nat.le_refl k)) target
    have hbits' : ∀ j, k + 1 ≤ j → (decodedFields ||| 1 <<< k).testBit j = false := by
      intro j hj
      rw [Nat.testBit_or, hbits j (by omega), Nat.one_shiftLeft, Nat.testBit_two_pow,
        decide_eq_false (by omega), Bool.or_false]
    obtain ⟨phase', decodedFields', target'', hphase', hmarked, hexec', hcopied'⟩ := ih (k + 1)
      (fun i => by have := hget (i + 1); rwa [List.getElem?_cons_succ, ← Nat.succ_add_eq_add_succ] at this)
      (fun descr hmem => hdecodes descr (List.mem_cons_of_mem _ hmem)) (.inr rfl) hbits' target'
    refine ⟨phase', decodedFields', target'', hphase', marked_cons hmarked, ?_, hcopied.trans hcopied'⟩
    rw [encodeFields, List.flatMap_cons, List.append_assoc, List.append_assoc, List.singleton_append,
      hexec, lexer_comma]
    exact hexec'

/-- All the fields, the first one last: the bits of all of them are returned. -/
theorem exec_object (hfits : PartFits mem (.object field subDescr, val))
    (hdecodes : ∀ descr ∈ subDescr, Decodes intToString mem δ descr base) (callers : List Frame)
    (rest : List UInt8) (target : Memory) :
    ∃ target',
      exec (running (.obj subDescr (base + δ) 0) callers .next target)
          (lexer (firstLast (encodeFields intToString false mem subDescr base) ++ 125 :: rest)) =
        exec (resume (2 ^ subDescr.length - 1 : ℕ) callers target') (lexer rest) ∧
      Copied mem.escape δ (fieldParts mem subDescr base) target target' := by
  cases subDescr with
  | nil =>
    refine ⟨target, ?_, .refl⟩
    rw [encodeFields, firstLast, List.nil_append, lexer_punctuator rfl]
    rfl
  | cons first descrs =>
    have hrest : EndsNumber (125 :: rest) := endsNumber_cons (by decide) rest
    have hget : ∀ i, descrs[i]? = none ∨ descrs[i]? = (first :: descrs)[1 + i]? := by
      intro i
      rw [Nat.add_comm 1 i, List.getElem?_cons_succ]
      exact .inr rfl
    obtain ⟨phase', decodedFields, target', hphase, hmarked, hexec, hcopied⟩ := exec_fields hfits callers
      (encodeKey first.field false ++ encode intToString false mem first base ++ 125 :: rest) descrs 1 hget (fun descr hmem => hdecodes descr (List.mem_cons_of_mem _ hmem)) (.inl rfl)
      (fun j _ => Nat.zero_testBit j) target
    have hbit : decodedFields.testBit 0 = false := by
      rw [hmarked 0, Nat.zero_testBit, decide_eq_false (by omega)]
      rfl
    obtain ⟨target'', hexec', hcopied'⟩ := exec_field hfits (List.getElem?_cons_zero)
      (hdecodes first List.mem_cons_self) callers hrest hphase hbit target'
    have hall : decodedFields ||| 1 <<< 0 = 2 ^ (first :: descrs).length - 1 := by
      apply Nat.eq_of_testBit_eq
      intro j
      rw [Nat.testBit_or, hmarked j, Nat.zero_testBit, Nat.one_shiftLeft, Nat.testBit_two_pow,
        Nat.testBit_two_pow_sub_one, Bool.false_or, ← Bool.decide_or, List.length_cons]
      congr 1
      exact propext (by omega)
    refine ⟨target'', ?_, (hcopied.trans hcopied').congr fun p => ?_⟩
    · rw [encodeFields, firstLast, List.append_assoc, hexec, hexec', lexer_punctuator rfl, hall]
      rfl
    · rw [fieldParts, List.mem_append, List.mem_append, or_comm]

theorem decodes_object (hfits : PartFits mem (.object field subDescr, val))
    (hdecodes : ∀ descr ∈ subDescr, Decodes intToString mem δ descr (val + field.offset)) :
    Decodes intToString mem δ (.object field subDescr) val := by
  intro rest hrest
  have hlexer : lexer (encode intToString false mem (.object field subDescr) val ++ rest) =
      ⟨.objectStart, [123]⟩ :: lexer (firstLast (encodeFields intToString false mem subDescr
        (val + field.offset)) ++ 125 :: rest) := by
    rw [encode, List.cons_append, lexer_punctuator rfl, List.append_assoc, List.singleton_append]
  refine ⟨_, _, hlexer, rfl, fun callers target => ?_⟩
  obtain ⟨target', hexec, hcopied⟩ := exec_object hfits hdecodes callers rest target
  refine ⟨2 ^ subDescr.length - 1, target', hexec, ?_⟩
  rw [parts]
  exact (copied_object field subDescr val).trans hcopied

end Fields

theorem mem_fieldParts {p : JsonObjDescr × ℤ} {descr : JsonObjDescr} {descrs : List JsonObjDescr}
    {base : ℤ} (hmem : descr ∈ descrs) (hp : p ∈ parts mem descr base) : p ∈ fieldParts mem descrs base := by
  induction descrs with
  | nil => exact nomatch hmem
  | cons descr' descrs ih =>
    rw [fieldParts, List.mem_append]
    cases List.mem_cons.mp hmem with
    | inl heq => exact .inl (heq ▸ hp)
    | inr hmem => exact .inr (ih hmem)

/-- Every part that fits is decoded. -/
theorem decodes_of_fits (hdec : WritesDecimal intToString) (descr : JsonObjDescr) :
    ∀ val, (∀ p ∈ parts mem descr val, PartFits mem p) → Decodes intToString mem δ descr val := by
  induction descr using JsonObjDescr.induct with
  | number field =>
    intro val hfits
    exact decodes_number hdec field val (hfits _ (by rw [parts]; exact List.mem_singleton_self _))
  | string field =>
    intro val hfits
    exact decodes_string field val (hfits _ (by rw [parts]; exact List.mem_singleton_self _))
  | boolean field => exact fun val _ => decodes_boolean field val
  | object field subDescr ih =>
    intro val hfits
    rw [parts] at hfits
    apply decodes_object (hfits _ List.mem_cons_self)
    intro descr hmem
    exact ih descr hmem (val + field.offset) fun p hp =>
      hfits p (List.mem_cons_of_mem _ (mem_fieldParts hmem hp))
  | array field elemDescr nElements ih =>
    intro val hfits
    rw [parts] at hfits
    apply decodes_array field elemDescr nElements val (hfits _ List.mem_cons_self)
    intro i hi
    exact ih _ fun p hp => hfits p (List.mem_cons_of_mem _ (List.mem_flatMap.mpr
      ⟨i, List.mem_range.mpr hi, hp⟩))

theorem fieldValues_eq {target target' : Memory} {descrs : List JsonObjDescr} {base base' : ℤ}
    (h : ∀ descr ∈ descrs, valueOf target descr base = valueOf target' descr base') :
    fieldValues target descrs base = fieldValues target' descrs base' := by
  induction descrs with
  | nil => rfl
  | cons descr descrs ih =>
    rw [fieldValues, fieldValues, h descr List.mem_cons_self,
      ih fun descr hmem => h descr (List.mem_cons_of_mem _ hmem)]

/-- Where the cells have been copied, the same value lies. -/
theorem valueOf_copied {ps : List (JsonObjDescr × ℤ)} {target target' : Memory}
    (hcopied : Copied mem.escape δ ps target target') (descr : JsonObjDescr) :
    ∀ val, (∀ p ∈ parts mem descr val, p ∈ ps) →
      valueOf target' descr (val + δ) = valueOf mem.escape descr val := by
  induction descr using JsonObjDescr.induct with
  | number field =>
    intro val hparts
    rw [parts] at hparts
    have hnum := (hcopied.num (val + field.offset)).1 ⟨_, hparts _ List.mem_cons_self, rfl⟩
    rw [valueOf, valueOf, Int.add_right_comm, hnum]
  | string field =>
    intro val hparts
    rw [parts] at hparts
    have hstr := (hcopied.str (val + field.offset)).1 ⟨_, hparts _ List.mem_cons_self, rfl⟩
    rw [valueOf, valueOf, Int.add_right_comm, hstr]
  | boolean field =>
    intro val hparts
    rw [parts] at hparts
    have hbool := (hcopied.bool (val + field.offset)).1 ⟨_, hparts _ List.mem_cons_self, rfl⟩
    rw [valueOf, valueOf, Int.add_right_comm, hbool]
  | object field subDescr ih =>
    intro val hparts
    rw [parts] at hparts
    rw [valueOf, valueOf, Int.add_right_comm]
    congr 1
    apply fieldValues_eq
    intro descr hmem
    exact ih descr hmem _ fun p hp => hparts p (List.mem_cons_of_mem _ (mem_fieldParts hmem hp))
  | array field elemDescr nElements ih =>
    intro val hparts
    rw [parts] at hparts
    have hsize := (hcopied.size (val + elemDescr.field.offset)).1 ⟨_, hparts _ List.mem_cons_self, rfl⟩
    have helement : ∀ i, elementVal (val + δ + field.offset) elemDescr i =
        elementVal (val + field.offset) elemDescr i + δ := by
      intro i
      rw [elementVal, elementVal]
      omega
    rw [valueOf, valueOf, Int.add_right_comm val δ elemDescr.field.offset, hsize]
    congr 1
    apply List.map_congr_left
    intro i hi
    rw [helement]
    exact ih _ fun p hp => hparts p (List.mem_cons_of_mem _ (List.mem_flatMap.mpr ⟨i, hi, hp⟩))

end Decoding

/-- Strings that need no escape are what they are escaped to. -/
theorem fieldValues_escape {mem : Memory} {descr : List JsonObjDescr} {val : ℤ}
    (hplain : ∀ addr, HasCell strCell (fieldParts mem descr val) addr →
      ∀ c ∈ mem.str addr, escapeAs c = 0) :
    fieldValues mem.escape descr val = fieldValues mem descr val := by
  have hself : Copied mem.escape 0 (fieldParts mem descr val) mem mem := by
    constructor
    · exact fun a => ⟨fun _ => congrArg mem.num (Int.add_zero a), fun _ => rfl⟩
    · exact fun a => ⟨fun _ => congrArg mem.bool (Int.add_zero a), fun _ => rfl⟩
    · intro a
      constructor
      · intro ha
        exact (congrArg mem.str (Int.add_zero a)).trans (escaped_of_plain (hplain a ha)).symm
      · exact fun _ => rfl
    · exact fun a => ⟨fun _ => congrArg mem.size (Int.add_zero a), fun _ => rfl⟩
  symm
  apply fieldValues_eq
  intro d hmem
  have hvalue := valueOf_copied hself d val fun p hp => mem_fieldParts hmem hp
  rwa [Int.add_zero] at hvalue

/-- The structure at an address fits the descriptor of its fields. -/
structure Fits (mem : Memory) (descr : List JsonObjDescr) (val : ℤ) : Prop where
  fields : FieldsFit descr
  parts : ∀ p ∈ fieldParts mem descr val, PartFits mem p

/-- What `json_obj_encode_full` writes, without escaping the keys again, `json_obj_parse` decodes: every
field, and the strings as they were escaped. -/
theorem jsonObjParse_encode {intToString : ℤ → List UInt8} (hdec : WritesDecimal intToString)
    {mem : Memory} {descr : List JsonObjDescr} {val : ℤ} (hfits : Fits mem descr val) (val' : ℤ)
    (target : Memory) :
    ∃ decoded, jsonObjParse (jsonObjEncodeFull intToString false mem descr val) descr val' target =
        some (2 ^ descr.length - 1, decoded) ∧
      fieldValues decoded descr val' = fieldValues mem.escape descr val ∧
      ((∀ addr, HasCell strCell (fieldParts mem descr val) addr → ∀ c ∈ mem.str addr, escapeAs c = 0) →
        fieldValues decoded descr val' = fieldValues mem descr val) := by
  obtain ⟨δ, rfl⟩ : ∃ δ, val' = val + δ := ⟨val' - val, by omega⟩
  have hobject : PartFits mem (.object ⟨[], 0, 1, 0⟩ descr, val) := hfits.fields
  have hdecodes : ∀ d ∈ descr, Decodes intToString mem δ d val := fun d hmem =>
    decodes_of_fits hdec d val fun p hp => hfits.parts p (mem_fieldParts hmem hp)
  obtain ⟨decoded, hexec, hcopied⟩ := exec_object hobject hdecodes [] [] target
  have hescaped : fieldValues decoded descr (val + δ) = fieldValues mem.escape descr val := by
    apply fieldValues_eq
    intro d hmem
    exact valueOf_copied hcopied d val fun p hp => mem_fieldParts hmem hp
  refine ⟨decoded, ?_, hescaped, fun hplain => hescaped.trans (fieldValues_escape hplain)⟩
  · rw [jsonObjParse_eq, jsonObjEncodeFull, lexer_punctuator rfl]
    dsimp only
    have hreturned : resume (2 ^ descr.length - 1 : ℕ) [] decoded =
        returned (2 ^ descr.length - 1 : ℕ) decoded := if_neg (Int.not_lt.mpr (Int.natCast_nonneg _))
    rw [if_pos rfl, hexec, hreturned, exec_returned, Int.natCast_sub Nat.one_le_two_pow, Int.natCast_pow]
    rfl

/-- The decimal digits of a number. -/
def decimalDigits (n : ℕ) : List UInt8 :=
  if n < 10 then [48 + UInt8.ofNat n] else decimalDigits (n / 10) ++ [48 + UInt8.ofNat (n % 10)]

/-- A number in decimal digits. -/
def decimal (n : ℤ) : List UInt8 := (if n < 0 then [45] else []) ++ decimalDigits n.natAbs

theorem digit_toNat {n : ℕ} (h : n < 10) :
    isDigit (48 + UInt8.ofNat n) ∧ (48 + UInt8.ofNat n : UInt8).toNat - 48 = n := by
  have hall : ∀ n : Fin 10, isDigit (48 + UInt8.ofNat n) ∧ (48 + UInt8.ofNat n : UInt8).toNat - 48 = n := by
    decide +kernel
  exact hall ⟨n, h⟩

theorem decimalDigits_spec (n : ℕ) : decimalDigits n ≠ [] ∧ (∀ b ∈ decimalDigits n, isDigit b) ∧
    digitsValue (decimalDigits n) = n := by
  induction n using Nat.strongRecOn with
  | ind n ih =>
    rw [decimalDigits]
    split
    case isTrue h =>
      obtain ⟨hdigit, hvalue⟩ := digit_toNat h
      refine ⟨List.cons_ne_nil _ _, List.forall_mem_singleton.mpr hdigit, ?_⟩
      rw [digitsValue, List.foldl_cons, List.foldl_nil, hvalue, Nat.mul_zero, Nat.zero_add]
    case isFalse h =>
      obtain ⟨hne, hdigits, hvalue⟩ := ih (n / 10) (by omega)
      obtain ⟨hdigit, hlast⟩ := digit_toNat (Nat.mod_lt n (by omega : 0 < 10))
      refine ⟨List.append_ne_nil_of_left_ne_nil hne _,
        List.forall_mem_append.mpr ⟨hdigits, List.forall_mem_singleton.mpr hdigit⟩, ?_⟩
      rw [digitsValue] at hvalue ⊢
      rw [List.foldl_append, hvalue, List.foldl_cons, List.foldl_nil, hlast]
      omega

theorem writesDecimal_decimal : WritesDecimal decimal := by
  intro n _ _
  obtain ⟨hne, hdigits, hvalue⟩ := decimalDigits_spec n.natAbs
  obtain ⟨chr, digits, heq⟩ := List.exists_cons_of_ne_nil hne
  rw [heq] at hdigits hvalue
  exact ⟨chr, digits, hdigits, hvalue, congrArg (_ ++ ·) heq⟩

/-- A message and an array of objects, with their number after it. -/
def messageDescr : List JsonObjDescr :=
  [.string ⟨ascii "message\"message\":", 7, 8, 0⟩,
    .array ⟨ascii "queries\"queries\":", 7, 8, 8⟩
      (.object ⟨[], 0, 8, 24⟩ [.number ⟨ascii "id\"id\":", 2, 4, 0⟩]) 4]

/-- A line break in the message, and two objects. -/
def messageMemory : Memory where
  num addr := if addr = 8 then -1 else 70
  bool _ := false
  str _ := [97, 10, 98]
  size _ := 2

theorem jsonObjParse_encode_message :
    WritesDecimal decimal ∧ Fits messageMemory messageDescr 0 ∧ ∀ val' target, ∃ decoded,
      jsonObjParse (jsonObjEncodeFull decimal false messageMemory messageDescr 0) messageDescr val' target =
          some (2 ^ 2 - 1, decoded) ∧
        fieldValues decoded messageDescr val' = fieldValues messageMemory.escape messageDescr 0 ∧
        ((∀ addr, HasCell strCell (fieldParts messageMemory messageDescr 0) addr →
            ∀ c ∈ messageMemory.str addr, escapeAs c = 0) →
          fieldValues decoded messageDescr val' = fieldValues messageMemory messageDescr 0) := by
  have hapart : EscapesApart [97, 10, 98] := by
    constructor
    · decide +kernel
    · decide +kernel
  have hfits : Fits messageMemory messageDescr 0 := by
    constructor
    · refine ⟨by decide, by decide, ?_⟩
      decide +kernel
    · have hsize : getElemSize (.object ⟨[], 0, 8, 24⟩ [.number ⟨ascii "id\"id\":", 2, 4, 0⟩]) = 4 := by
        decide +kernel
      intro p hp
      simp [messageDescr, messageMemory, fieldParts, parts, List.range_succ, elementVal, hsize,
        JsonObjDescr.field] at hp
      have hid : FieldsFit [.number ⟨ascii "id\"id\":", 2, 4, 0⟩] :=
        ⟨by decide, by decide, by decide +kernel⟩
      rcases hp with rfl | rfl | rfl | rfl | rfl | rfl
      · exact ⟨by decide, hapart⟩
      · refine ⟨by decide, by rw [hsize]; decide, by decide, fun i _ h => ?_⟩
        simp [HasCell, parts, fieldParts, sizeCell] at h
      · exact hid
      · exact ⟨by decide, by decide⟩
      · exact hid
      · exact ⟨by decide, by decide⟩
  exact ⟨writesDecimal_decimal, hfits, jsonObjParse_encode writesDecimal_decimal hfits⟩

/-- Nothing but zeros. -/
def zeroMemory : Memory := ⟨fun _ => 0, fun _ => false, fun _ => [], fun _ => 0⟩

/-- Arrays of numbers in an array: its length lies at 100, and `encode` takes the lengths of the inner
arrays from 200 on. -/
def nestedDescr : JsonObjDescr :=
  .array ⟨ascii "m\"m\":", 1, 8, 0⟩ (.array ⟨[], 0, 8, 100⟩ (.number ⟨[], 0, 4, 300⟩) 2) 2

/-- The arrays `[1]` and `[2, 3]`. -/
def nestedMemory : Memory :=
  { zeroMemory with
    num := fun addr => if addr = 0 then 1 else if addr = 8 then 2 else if addr = 12 then 3 else 0
    size := fun addr => if addr = 100 then 2 else if addr = 200 then 1 else if addr = 208 then 2 else 0 }

/-- A line break is decoded as its escape; keys that are escaped again are not found; the lengths of
arrays in an array are stored elsewhere. -/
theorem roundTrip_fails :
    (jsonObjParse (jsonObjEncodeFull decimal false messageMemory [.string ⟨ascii "s\"s\":", 1, 8, 0⟩] 0)
        [.string ⟨ascii "s\"s\":", 1, 8, 0⟩] 0 zeroMemory).map (fun parsed => (parsed.1, parsed.2.str 0)) =
          some (1, [97, 92, 110, 98]) ∧ messageMemory.str 0 = [97, 10, 98] ∧
      (jsonObjParse (jsonObjEncodeFull decimal true zeroMemory [.boolean ⟨ascii "b\"b\":", 1, 1, 0⟩] 0)
        [.boolean ⟨ascii "b\"b\":", 1, 1, 0⟩] 0 zeroMemory).map Prod.fst = some 0 ∧
      jsonObjEncodeFull decimal false nestedMemory [nestedDescr] 0 = ascii "\x7b\"m\":[[1],[2,3]]\x7d" ∧
      (jsonObjParse (jsonObjEncodeFull decimal false nestedMemory [nestedDescr] 0) [nestedDescr] 0
        zeroMemory).map (fun parsed => (parsed.1, parsed.2.size 200, parsed.2.size 208)) =
          some (1, 0, 0) ∧ nestedMemory.size 200 = 1 ∧ nestedMemory.size 208 = 2 := by
  decide +kernel

end FrameworkBenchmarks.Lwan
