import FrameworkBenchmarks.Lwan.JsonLexer
import Mathlib.Logic.Basic

/-!
# Well-formed JSON texts

The values of JSON as they are written, with their white space, the spelling of every number and the
escapes of every string. The lexer reads a text token by token; it does not know exponents.
-/

namespace FrameworkBenchmarks.Lwan

open Common (ascii isDigit)

/-- White space between two tokens. -/
structure Blank where
  bytes : List UInt8
  isBlank : ∀ b ∈ bytes, b = 32 ∨ b = 9 ∨ b = 10 ∨ b = 13

/-- A digit and the digits after it. -/
structure Digits where
  head : UInt8
  tail : List UInt8
  isDigit : ∀ b ∈ head :: tail, isDigit b

/-- The bytes of the digits. -/
def Digits.bytes (digits : Digits) : List UInt8 := digits.head :: digits.tail

/-- The exponent of a number. -/
structure Exponent where
  letter : UInt8
  isLetter : letter = 101 ∨ letter = 69
  sign : Option UInt8
  isSign : ∀ c ∈ sign, c = 43 ∨ c = 45
  digits : Digits

/-- A number as it is written. -/
structure NumberText where
  minus : Bool
  int : Digits
  noZero : int.head = 48 → int.tail = []
  frac : Option Digits
  exponent : Option Exponent

namespace NumberText

/-- The number up to its exponent. -/
def mantissa (n : NumberText) : List UInt8 :=
  (if n.minus then [45] else []) ++ n.int.bytes ++ (n.frac.elim [] fun digits => 46 :: digits.bytes)

/-- The bytes of a number. -/
def bytes (n : NumberText) : List UInt8 :=
  n.mantissa ++ n.exponent.elim [] fun e => e.letter :: (e.sign.toList ++ e.digits.bytes)

end NumberText

/-- A character of a string as it is written. -/
inductive StringItem
  | plain (c : UInt8) (h : 32 ≤ c ∧ c ≠ 34 ∧ c ≠ 92)
  | escape (c : UInt8) (h : c ∈ ascii "\"\\/bfnrt")
  | unicode (a b c d : UInt8) (h : isXDigit a && isXDigit b && isXDigit c && isXDigit d)

/-- The bytes of a character. -/
def StringItem.bytes : StringItem → List UInt8
  | plain c _ => [c]
  | escape c _ => [92, c]
  | unicode a b c d _ => [92, 117, a, b, c, d]

/-- A string as it is written, without its quotes. -/
abbrev StringText := List StringItem

/-- The bytes of a string between its quotes. -/
def StringText.bytes (s : StringText) : List UInt8 := s.flatMap StringItem.bytes

/-- An element of an array, with the white space around it. -/
structure Element (Value : Type) where
  before : Blank
  value : Value
  after : Blank

/-- A member of an object, with the white space in it. -/
structure Member (Value : Type) where
  before : Blank
  key : StringText
  afterKey : Blank
  beforeValue : Blank
  value : Value
  after : Blank

/-- A value as it is written. -/
inductive JsonText
  | null
  | boolean (b : Bool)
  | number (n : NumberText)
  | string (s : StringText)
  | array (blank : Blank) (elements : List (Element JsonText))
  | object (blank : Blank) (members : List (Member JsonText))

mutual

/-- The bytes of a value. -/
def JsonText.bytes : JsonText → List UInt8
  | .null => ascii "null"
  | .boolean true => ascii "true"
  | .boolean false => ascii "false"
  | .number n => n.bytes
  | .string s => 34 :: (s.bytes ++ [34])
  | .array blank elements => 91 :: (blank.bytes ++ ((elementsBytes elements).tail ++ [93]))
  | .object blank members => 123 :: (blank.bytes ++ ((membersBytes members).tail ++ [125]))

/-- The bytes of elements, with a comma before each. -/
def elementsBytes : List (Element JsonText) → List UInt8
  | [] => []
  | ⟨before, value, after⟩ :: elements =>
    44 :: (before.bytes ++ (value.bytes ++ (after.bytes ++ elementsBytes elements)))

/-- The bytes of members, with a comma before each. -/
def membersBytes : List (Member JsonText) → List UInt8
  | [] => []
  | ⟨before, key, afterKey, beforeValue, value, after⟩ :: members =>
    44 :: (before.bytes ++ (34 :: (key.bytes ++ (34 :: (afterKey.bytes ++ (58 ::
      (beforeValue.bytes ++ (value.bytes ++ (after.bytes ++ membersBytes members)))))))))

end

/-- The comma. -/
def commaToken : Token := ⟨.comma, [44]⟩

mutual

/-- The tokens of a value: an exponent is an error. -/
def JsonText.tokens : JsonText → List Token
  | .null => [⟨.null, ascii "null"⟩]
  | .boolean true => [⟨.true, ascii "true"⟩]
  | .boolean false => [⟨.false, ascii "false"⟩]
  | .number n => ⟨.number, n.mantissa⟩ :: n.exponent.elim [] fun _ => [⟨.error, []⟩]
  | .string s => [⟨.string, s.bytes⟩]
  | .array _ elements => ⟨.listStart, [91]⟩ :: ((elementsTokens elements).tail ++ [⟨.listEnd, [93]⟩])
  | .object _ members => ⟨.objectStart, [123]⟩ :: ((membersTokens members).tail ++ [⟨.objectEnd, [125]⟩])

/-- The tokens of elements, with a comma before each. -/
def elementsTokens : List (Element JsonText) → List Token
  | [] => []
  | ⟨_, value, _⟩ :: elements => commaToken :: (value.tokens ++ elementsTokens elements)

/-- The tokens of members, with a comma before each. -/
def membersTokens : List (Member JsonText) → List Token
  | [] => []
  | ⟨_, key, _, _, value, _⟩ :: members =>
    commaToken :: ⟨.string, key.bytes⟩ :: ⟨.colon, [58]⟩ :: (value.tokens ++ membersTokens members)

end

/-- The tokens up to the first error, after which the lexer is at its end. -/
def untilError : List Token → List Token
  | [] => []
  | token :: toks => if token.type = .error then [token] else token :: untilError toks

section Tokens

theorem lexer_of_lexerJson {pos rest : List UInt8} {token : Token}
    (h : lexerJson pos = some (token, rest)) : lexer pos = token :: lexer rest := by
  rw [lexer_eq, h]

theorem lexer_punctuator {chr : UInt8} {type : JsonTokens} (h : punctuator chr = some type)
    (rest : List UInt8) : lexer (chr :: rest) = ⟨type, [chr]⟩ :: lexer rest := by
  apply lexer_of_lexerJson
  have hne : chr ≠ 0 := by
    rintro rfl
    exact nomatch h
  rw [lexerJson, if_neg hne, h]

theorem lexer_comma (rest : List UInt8) : lexer (44 :: rest) = commaToken :: lexer rest :=
  lexer_punctuator rfl rest

theorem lexer_colon (rest : List UInt8) : lexer (58 :: rest) = ⟨.colon, [58]⟩ :: lexer rest :=
  lexer_punctuator rfl rest

theorem lexer_space {chr : UInt8} (h : chr = 32 ∨ chr = 9 ∨ chr = 10 ∨ chr = 13) (rest : List UInt8) :
    lexer (chr :: rest) = lexer rest := by
  have hjson : lexerJson (chr :: rest) = lexerJson rest := by
    rcases h with rfl | rfl | rfl | rfl
    · rfl
    · rfl
    · rfl
    · rfl
  rw [lexer_eq, hjson, ← lexer_eq]

theorem lexer_blank (blank : Blank) (rest : List UInt8) : lexer (blank.bytes ++ rest) = lexer rest := by
  obtain ⟨bytes, h⟩ := blank
  induction bytes with
  | nil => rfl
  | cons chr bytes ih =>
    rw [List.cons_append, lexer_space (h chr List.mem_cons_self)]
    exact ih fun b hb => h b (List.mem_cons_of_mem _ hb)

theorem lexerString_item (item : StringItem) (start pos : List UInt8) :
    lexerString start (item.bytes ++ pos) = lexerString (start ++ item.bytes) pos := by
  cases item with
  | plain c h =>
    have hne : c ≠ 0 := by
      rintro rfl
      exact absurd h.1 (by decide)
    rw [StringItem.bytes, List.singleton_append, lexerString.eq_def]
    exact (if_neg hne).trans ((if_neg h.2.2).trans (if_neg h.2.1))
  | escape c h =>
    rw [StringItem.bytes, List.cons_append, List.singleton_append, lexerString.eq_def]
    exact (if_neg (by decide)).trans ((if_pos rfl).trans (if_pos h))
  | unicode a b c d h =>
    rw [StringItem.bytes, List.cons_append, lexerString.eq_def]
    exact (if_neg (by decide)).trans ((if_pos rfl).trans
      ((if_neg (by decide)).trans ((if_pos rfl).trans (if_pos h))))

theorem lexerString_bytes (s : StringText) (start rest : List UInt8) :
    lexerString start (s.bytes ++ 34 :: rest) = (⟨.string, start ++ s.bytes⟩, rest) := by
  induction s generalizing start with
  | nil =>
    rw [StringText.bytes, List.flatMap_nil, List.append_nil, List.nil_append, lexerString.eq_def]
    exact (if_neg (by decide)).trans ((if_neg (by decide)).trans (if_pos rfl))
  | cons item s ih =>
    rw [StringText.bytes, List.flatMap_cons, List.append_assoc, lexerString_item]
    rw [StringText.bytes] at ih
    rw [ih, List.append_assoc]

theorem lexer_string (s : StringText) (rest : List UInt8) :
    lexer (34 :: (s.bytes ++ 34 :: rest)) = ⟨.string, s.bytes⟩ :: lexer rest := by
  apply lexer_of_lexerJson
  exact congrArg some (lexerString_bytes s [] rest)

theorem lexer_null (rest : List UInt8) :
    lexer (ascii "null" ++ rest) = ⟨.null, ascii "null"⟩ :: lexer rest := by
  apply lexer_of_lexerJson
  rfl

theorem lexer_true (rest : List UInt8) :
    lexer (ascii "true" ++ rest) = ⟨.true, ascii "true"⟩ :: lexer rest := by
  apply lexer_of_lexerJson
  rfl

theorem lexer_false (rest : List UInt8) :
    lexer (ascii "false" ++ rest) = ⟨.false, ascii "false"⟩ :: lexer rest := by
  apply lexer_of_lexerJson
  rfl

/-- The first byte is none that continues a number. -/
def EndsNumber (rest : List UInt8) : Prop := ∀ b ∈ rest.head?, ¬isNumberByte b

theorem lexerNumber_append (chr : UInt8) {bytes rest : List UInt8} (hbytes : ∀ b ∈ bytes, isNumberByte b)
    (hrest : EndsNumber rest) : lexerNumber chr (bytes ++ rest) = (⟨.number, chr :: bytes⟩, rest) := by
  rw [lexerNumber, List.takeWhile_append_of_pos hbytes, List.dropWhile_append_of_pos hbytes]
  cases rest with
  | nil => simp
  | cons b rest =>
    have hb : ¬isNumberByte b := hrest b rfl
    rw [List.takeWhile_cons_of_neg hb, List.dropWhile_cons_of_neg hb, List.append_nil]

theorem isNumberByte_of_isDigit {b : UInt8} (h : isDigit b) : isNumberByte b := by
  rw [isNumberByte, h, Bool.true_or]

theorem numberBytes_frac (n : NumberText) :
    ∀ b ∈ n.int.tail ++ (n.frac.elim [] fun digits => 46 :: digits.bytes), isNumberByte b := by
  intro b hb
  cases List.mem_append.mp hb with
  | inl hb => exact isNumberByte_of_isDigit (n.int.isDigit b (List.mem_cons_of_mem _ hb))
  | inr hb =>
    cases hfrac : n.frac with
    | none =>
      rw [hfrac] at hb
      exact nomatch hb
    | some digits =>
      rw [hfrac] at hb
      cases List.mem_cons.mp hb with
      | inl hb =>
        rw [hb]
        rfl
      | inr hb => exact isNumberByte_of_isDigit (digits.isDigit b hb)

/-- The first digit is not taken for anything else. -/
theorem lexerJson_digit {chr : UInt8} (h : isDigit chr) (pos : List UInt8) :
    lexerJson (chr :: pos) = some (lexerNumber chr pos) := by
  have hne : ∀ {c : UInt8}, ¬isDigit c → chr ≠ c := by
    rintro c hc rfl
    exact hc h
  have hpunctuator : punctuator chr = none := by
    rw [punctuator, if_neg (hne (by decide)), if_neg (hne (by decide)), if_neg (hne (by decide)),
      if_neg (hne (by decide)), if_neg (hne (by decide)), if_neg (hne (by decide))]
  have hspace : ¬isSpace chr := by
    intro hspace
    have hdigit := h
    simp only [isSpace, isDigit, Bool.or_eq_true, Bool.and_eq_true, decide_eq_true_eq] at hspace hdigit
    cases hspace with
    | inl heq =>
      rw [heq] at hdigit
      exact absurd hdigit.1 (by decide)
    | inr hle => exact absurd (UInt8.le_trans hdigit.1 hle.2) (by decide)
  rw [lexerJson, if_neg (hne (by decide)), hpunctuator]
  dsimp only
  rw [if_neg (hne (by decide)), if_neg (hne (by decide)),
    if_neg (not_or.mpr ⟨hne (by decide), hne (by decide)⟩),
    if_neg (not_and_of_not_left _ (hne (by decide))), if_neg hspace, if_pos h]

/-- The lexer takes a number that does not go on. -/
theorem lexer_signed (minus : Bool) {chr : UInt8} (hdigit : isDigit chr) {bytes rest : List UInt8}
    (hbytes : ∀ b ∈ bytes, isNumberByte b) (h : EndsNumber rest) :
    lexer ((if minus then [45] else []) ++ chr :: bytes ++ rest) =
      ⟨.number, (if minus then [45] else []) ++ chr :: bytes⟩ :: lexer rest := by
  apply lexer_of_lexerJson
  cases minus with
  | false =>
    rw [if_neg Bool.false_ne_true, List.nil_append, List.cons_append, lexerJson_digit hdigit,
      lexerNumber_append _ hbytes h]
  | true =>
    have hfirst : ∀ pos, lexerJson (45 :: chr :: pos) = some (lexerNumber 45 (chr :: pos)) := by
      intro pos
      rw [lexerJson, if_neg (by decide)]
      exact (if_neg (by decide)).trans ((if_neg (by decide)).trans ((if_neg (by decide)).trans
        (if_pos ⟨rfl, hdigit⟩)))
    have hall : ∀ b ∈ chr :: bytes, isNumberByte b :=
      List.forall_mem_cons.mpr ⟨isNumberByte_of_isDigit hdigit, hbytes⟩
    rw [if_pos rfl, List.singleton_append, List.cons_append, List.cons_append, hfirst, ← List.cons_append,
      lexerNumber_append _ hall h]

/-- The lexer takes a number up to its exponent. -/
theorem lexer_mantissa (n : NumberText) {rest : List UInt8} (h : EndsNumber rest) :
    lexer (n.mantissa ++ rest) = ⟨.number, n.mantissa⟩ :: lexer rest := by
  have hdigit := n.int.isDigit n.int.head List.mem_cons_self
  have hmantissa : n.mantissa = (if n.minus then [45] else []) ++
      n.int.head :: (n.int.tail ++ n.frac.elim [] fun digits => 46 :: digits.bytes) := by
    rw [NumberText.mantissa, Digits.bytes, List.append_assoc, List.cons_append]
  rw [hmantissa]
  exact lexer_signed n.minus hdigit (numberBytes_frac n) h

/-- A letter is no part of a number, and nothing else starts with it. -/
theorem lexer_exponent (e : Exponent) (rest : List UInt8) :
    lexer (e.letter :: rest) = [⟨.error, []⟩] ∧ EndsNumber (e.letter :: rest) := by
  constructor
  · have herror : lexerJson (e.letter :: rest) = some emitError := by
      cases e.isLetter with
      | inl h =>
        rw [h]
        rfl
      | inr h =>
        rw [h]
        rfl
    exact lexer_of_lexerJson herror
  · intro b hb
    rw [← Option.some.inj hb]
    cases e.isLetter with
    | inl h =>
      rw [h]
      decide
    | inr h =>
      rw [h]
      decide

/-- An exponent is an error. -/
theorem lexer_number (n : NumberText) {rest : List UInt8} (h : EndsNumber rest) :
    lexer (n.bytes ++ rest) = ⟨.number, n.mantissa⟩ ::
      n.exponent.elim (lexer rest) fun _ => [⟨.error, []⟩] := by
  rw [NumberText.bytes, List.append_assoc]
  cases n.exponent with
  | none => exact lexer_mantissa n h
  | some e =>
    obtain ⟨hlexer, hends⟩ := lexer_exponent e (e.sign.toList ++ e.digits.bytes ++ rest)
    rw [Option.elim_some, Option.elim_some, ← hlexer]
    exact lexer_mantissa n hends

end Tokens

section UntilError

theorem untilError_append {toks toks' : List Token} (h : untilError toks = untilError toks')
    (before : List Token) : untilError (before ++ toks) = untilError (before ++ toks') := by
  induction before with
  | nil => exact h
  | cons token before ih =>
    rw [List.cons_append, List.cons_append, untilError, untilError, ih]

theorem untilError_cons {token : Token} (h : token.type ≠ .error) (toks : List Token) :
    untilError (token :: toks) = token :: untilError toks :=
  if_neg h

theorem untilError_error {token : Token} (h : token.type = .error) (toks : List Token) :
    untilError (token :: toks) = [token] :=
  if_pos h

end UntilError

section Texts

theorem endsNumber_blank (blank : Blank) {rest : List UInt8} (h : EndsNumber rest) :
    EndsNumber (blank.bytes ++ rest) := by
  obtain ⟨bytes, hblank⟩ := blank
  cases bytes with
  | nil => exact h
  | cons chr bytes =>
    intro b hb
    rw [← Option.some.inj hb]
    rcases hblank chr List.mem_cons_self with rfl | rfl | rfl | rfl
    · decide
    · decide
    · decide
    · decide

theorem endsNumber_cons {chr : UInt8} (h : ¬isNumberByte chr) (rest : List UInt8) :
    EndsNumber (chr :: rest) := by
  intro b hb
  rw [← Option.some.inj hb]
  exact h

theorem endsNumber_elements (elements : List (Element JsonText)) {rest : List UInt8}
    (h : EndsNumber rest) : EndsNumber (elementsBytes elements ++ rest) := by
  cases elements with
  | nil => exact h
  | cons element elements => exact endsNumber_cons (by decide) _

theorem endsNumber_members (members : List (Member JsonText)) {rest : List UInt8}
    (h : EndsNumber rest) : EndsNumber (membersBytes members ++ rest) := by
  cases members with
  | nil => exact h
  | cons member members => exact endsNumber_cons (by decide) _

/-- The comma before the first one is not written. -/
theorem untilError_tail {bytes rest : List UInt8} {toks after : List Token}
    (hcomma : bytes = [] ∧ toks = [] ∨ ∃ bytes' toks', bytes = 44 :: bytes' ∧ toks = commaToken :: toks')
    (h : untilError (lexer (bytes ++ rest)) = untilError (toks ++ after)) :
    untilError (lexer (bytes.tail ++ rest)) = untilError (toks.tail ++ after) := by
  rcases hcomma with ⟨rfl, rfl⟩ | ⟨bytes', toks', rfl, rfl⟩
  · exact h
  · rw [List.cons_append, lexer_punctuator rfl, untilError_cons (by decide), List.cons_append,
      untilError_cons (by decide)] at h
    exact (List.cons.inj h).2

theorem elements_comma (elements : List (Element JsonText)) :
    elementsBytes elements = [] ∧ elementsTokens elements = [] ∨ ∃ bytes' toks',
      elementsBytes elements = 44 :: bytes' ∧ elementsTokens elements = commaToken :: toks' := by
  cases elements with
  | nil => exact .inl ⟨rfl, rfl⟩
  | cons element elements => exact .inr ⟨_, _, rfl, rfl⟩

theorem members_comma (members : List (Member JsonText)) :
    membersBytes members = [] ∧ membersTokens members = [] ∨ ∃ bytes' toks',
      membersBytes members = 44 :: bytes' ∧ membersTokens members = commaToken :: toks' := by
  cases members with
  | nil => exact .inl ⟨rfl, rfl⟩
  | cons member members => exact .inr ⟨_, _, rfl, rfl⟩

/-- What stands between brackets. -/
theorem lexer_brackets {opening closing : UInt8} {type type' : JsonTokens}
    (hopening : punctuator opening = some type) (hclosing : punctuator closing = some type')
    (htype : type ≠ .error) (blank : Blank) {bytes rest : List UInt8} {toks : List Token}
    (hcomma : bytes = [] ∧ toks = [] ∨ ∃ bytes' toks', bytes = 44 :: bytes' ∧ toks = commaToken :: toks')
    (h : untilError (lexer (bytes ++ closing :: rest)) = untilError (toks ++ lexer (closing :: rest))) :
    untilError (lexer (opening :: (blank.bytes ++ (bytes.tail ++ [closing])) ++ rest)) =
      untilError (⟨type, [opening]⟩ :: (toks.tail ++ [⟨type', [closing]⟩]) ++ lexer rest) := by
  have htail := untilError_tail hcomma h
  rw [lexer_punctuator hclosing] at htail
  rw [List.cons_append, lexer_punctuator hopening, List.append_assoc, lexer_blank, List.append_assoc,
    List.singleton_append, untilError_cons htype, htail, List.cons_append, untilError_cons htype,
    List.append_assoc, List.singleton_append]

mutual

/-- The lexer reads a value as its tokens. -/
theorem lexer_value : ∀ (value : JsonText) (rest : List UInt8), EndsNumber rest →
    untilError (lexer (value.bytes ++ rest)) = untilError (value.tokens ++ lexer rest)
  | .null, rest, _ => congrArg untilError (lexer_null rest)
  | .boolean true, rest, _ => congrArg untilError (lexer_true rest)
  | .boolean false, rest, _ => congrArg untilError (lexer_false rest)
  | .number n, rest, h => by
    rw [JsonText.bytes, lexer_number n h, JsonText.tokens]
    cases n.exponent with
    | none => rfl
    | some e => rfl
  | .string s, rest, _ => by
    rw [JsonText.bytes, List.cons_append, List.append_assoc]
    exact congrArg untilError (lexer_string s rest)
  | .array blank elements, rest, _ =>
    lexer_brackets rfl rfl (by decide) blank (elements_comma elements)
      (lexer_elements elements (93 :: rest) (endsNumber_cons (by decide) rest))
  | .object blank members, rest, _ =>
    lexer_brackets rfl rfl (by decide) blank (members_comma members)
      (lexer_members members (125 :: rest) (endsNumber_cons (by decide) rest))

theorem lexer_elements : ∀ (elements : List (Element JsonText)) (rest : List UInt8), EndsNumber rest →
    untilError (lexer (elementsBytes elements ++ rest)) =
      untilError (elementsTokens elements ++ lexer rest)
  | [], _, _ => rfl
  | ⟨before, value, after⟩ :: elements, rest, h => by
    have hrest := endsNumber_blank after (endsNumber_elements elements h)
    have hvalue := lexer_value value (after.bytes ++ (elementsBytes elements ++ rest)) hrest
    rw [lexer_blank] at hvalue
    have helements := untilError_append (lexer_elements elements rest h) value.tokens
    simp only [elementsBytes, elementsTokens, List.cons_append, List.append_assoc,
      lexer_comma, lexer_blank]
    rw [untilError_cons (by decide), hvalue, helements]
    rfl

theorem lexer_members : ∀ (members : List (Member JsonText)) (rest : List UInt8), EndsNumber rest →
    untilError (lexer (membersBytes members ++ rest)) =
      untilError (membersTokens members ++ lexer rest)
  | [], _, _ => rfl
  | ⟨before, key, afterKey, beforeValue, value, after⟩ :: members, rest, h => by
    have hrest := endsNumber_blank after (endsNumber_members members h)
    have hvalue := lexer_value value (after.bytes ++ (membersBytes members ++ rest)) hrest
    rw [lexer_blank] at hvalue
    have hmembers := untilError_append (lexer_members members rest h) value.tokens
    simp only [membersBytes, membersTokens, List.cons_append, List.append_assoc,
      lexer_comma, lexer_colon, lexer_blank, lexer_string]
    rw [untilError_cons (by decide), untilError_cons (show JsonTokens.string ≠ .error by decide),
      untilError_cons (by decide), hvalue, hmembers]
    rfl

end

end Texts

end FrameworkBenchmarks.Lwan
