import FrameworkBenchmarks.Common.Decimal
import Mathlib.Logic.Function.Basic

/-!
# Updates in SQL

The part of SQL that updates a column of a table: a text is cut into tokens, the tokens are read as
statements, and a statement sets the column in the rows that fulfil its condition. A placeholder is `$k` with
the number of a parameter, or `?`, which takes the parameters one after the other.
-/

namespace FrameworkBenchmarks.Common.Sql

/-! ### Tokens -/

inductive Token where
  | word (letters : List UInt8)
  | number (digits : List UInt8)
  | symbol (c : UInt8)
  | param (k : ℕ)
  deriving DecidableEq

def isBlank (c : UInt8) : Bool := c == 32 || (9 ≤ c && c ≤ 13)

def isUpper (c : UInt8) : Bool := 65 ≤ c && c ≤ 90

def isLetter (c : UInt8) : Bool := isUpper c || (97 ≤ c && c ≤ 122) || c == 95

/-- Names and keywords do not depend on the case. -/
def fold (c : UInt8) : UInt8 := if isUpper c then c + 32 else c

/-- The tokens of a text. A letter in front of a letter belongs to its word, and a digit to its number. -/
def lex : List UInt8 → List Token
  | [] => []
  | c :: text =>
    if isBlank c then lex text
    else if isLetter c then
      match text.head?.any isLetter, lex text with
      | true, .word letters :: tokens => .word (fold c :: letters) :: tokens
      | _, tokens => .word [fold c] :: tokens
    else if isDigit c then
      match text.head?.any isDigit, lex text with
      | true, .number digits :: tokens => .number (c :: digits) :: tokens
      | _, tokens => .number [c] :: tokens
    else .symbol c :: lex text

def readNumber (digits : List UInt8) : ℕ := digits.foldl (fun n c => 10 * n + (c.toNat - 48)) 0

/-- The placeholders are parameters, where `next` is the one that `?` takes next. -/
def bindParams : ℕ → List Token → List Token
  | _, [] => []
  | next, .symbol 36 :: .number digits :: tokens => .param (readNumber digits) :: bindParams next tokens
  | next, .symbol 63 :: tokens => .param next :: bindParams (next + 1) tokens
  | next, token :: tokens => token :: bindParams next tokens

def keyword (s : String) : Token := .word (ascii s)

/-! ### Statements -/

inductive Operand where
  | param (k : ℕ)
  | column (name : List UInt8)
  deriving DecidableEq

/-- What a column is set to: an operand, or the choice `CASE … WHEN … THEN … ELSE … END`. -/
inductive Value where
  | operand (operand : Operand)
  | choice (scrutinee : Operand) (whens : List (Operand × Operand)) (otherwise : Operand)
  deriving DecidableEq

inductive Condition where
  | equal (left right : Operand)
  | isIn (operand : Operand) (list : List Operand)
  deriving DecidableEq

structure Update where
  table : List UInt8
  column : List UInt8
  value : Value
  condition : Condition
  deriving DecidableEq

/-- The tokens behind one that is expected. -/
def expect (token : Token) : List Token → Option (List Token)
  | [] => none
  | first :: tokens => if first = token then some tokens else none

/-- A parameter, which may be cast to a type, or a column. -/
def readOperand : List Token → Option (Operand × List Token)
  | .param k :: .symbol 58 :: .symbol 58 :: .word _ :: tokens => some (.param k, tokens)
  | .param k :: tokens => some (.param k, tokens)
  | .word name :: tokens => some (.column name, tokens)
  | _ => none

/-- The alternatives of a choice. -/
def readWhens : ℕ → List Token → Option (List (Operand × Operand) × List Token)
  | 0, _ => none
  | fuel + 1, tokens =>
    match expect (keyword "when") tokens with
    | none => some ([], tokens)
    | some tokens => do
      let (left, tokens) ← readOperand tokens
      let tokens ← expect (keyword "then") tokens
      let (right, tokens) ← readOperand tokens
      let (rest, tokens) ← readWhens fuel tokens
      return ((left, right) :: rest, tokens)

/-- The operands of a list behind its bracket. -/
def readOperands : ℕ → List Token → Option (List Operand × List Token)
  | 0, _ => none
  | fuel + 1, tokens => do
    let (first, tokens) ← readOperand tokens
    match tokens with
    | .symbol 44 :: tokens => do
      let (rest, tokens) ← readOperands fuel tokens
      return (first :: rest, tokens)
    | .symbol 41 :: tokens => return ([first], tokens)
    | _ => none

def readValue (tokens : List Token) : Option (Value × List Token) :=
  match expect (keyword "case") tokens with
  | none => (readOperand tokens).map fun (result, tokens) => (.operand result, tokens)
  | some tokens => do
    let (scrutinee, tokens) ← readOperand tokens
    let (alternatives, tokens) ← readWhens tokens.length tokens
    let tokens ← expect (keyword "else") tokens
    let (otherwise, tokens) ← readOperand tokens
    let tokens ← expect (keyword "end") tokens
    return (.choice scrutinee alternatives otherwise, tokens)

def readCondition (tokens : List Token) : Option (Condition × List Token) := do
  let (left, tokens) ← readOperand tokens
  match tokens with
  | .symbol 61 :: tokens => do
    let (right, tokens) ← readOperand tokens
    return (.equal left right, tokens)
  | tokens => do
    let tokens ← expect (keyword "in") tokens
    let tokens ← expect (.symbol 40) tokens
    let (list, tokens) ← readOperands tokens.length tokens
    return (.isIn left list, tokens)

def readUpdate (tokens : List Token) : Option (Update × List Token) := do
  let tokens ← expect (keyword "update") tokens
  let (.column table, tokens) ← readOperand tokens | none
  let tokens ← expect (keyword "set") tokens
  let (.column column, tokens) ← readOperand tokens | none
  let tokens ← expect (.symbol 61) tokens
  let (result, tokens) ← readValue tokens
  let tokens ← expect (keyword "where") tokens
  let (test, tokens) ← readCondition tokens
  return (⟨table, column, result, test⟩, tokens)

/-- Statements, each but the last ended by a semicolon, which may end the last one too. -/
def readUpdates : ℕ → List Token → Option (List Update)
  | _, [] => some []
  | 0, _ => none
  | fuel + 1, tokens => do
    let (first, tokens) ← readUpdate tokens
    match tokens with
    | [] => return [first]
    | .symbol 59 :: tokens => do
      let rest ← readUpdates fuel tokens
      return first :: rest
    | _ => none

/-- The tokens of a text with its placeholders bound. -/
def tokens (text : List UInt8) : List Token := bindParams 1 (lex text)

def parse (text : List UInt8) : Option (List Update) := readUpdates (tokens text).length (tokens text)

def Token.param? : Token → Option ℕ
  | .param k => some k
  | _ => none

/-- The parameters that a text refers to. -/
def paramNumbers (text : List UInt8) : List ℕ := (tokens text).filterMap Token.param?

/-! ### Execution -/

/-- A row gives a number to each of its columns. -/
abbrev Row := List UInt8 → ℤ

/-- The rows of each table. -/
abbrev Database := List UInt8 → List Row

variable (params : List ℤ)

def Operand.eval (row : Row) : Operand → ℤ
  | .param k => params.getD (k - 1) 0
  | .column name => row name

def Value.eval (row : Row) : Value → ℤ
  | .operand e => e.eval params row
  | .choice scrutinee whens otherwise =>
    match whens.find? fun alternative => alternative.1.eval params row = scrutinee.eval params row with
    | some alternative => alternative.2.eval params row
    | none => otherwise.eval params row

def Condition.holds (row : Row) : Condition → Bool
  | .equal left right => left.eval params row = right.eval params row
  | .isIn operand list => list.any fun element => element.eval params row = operand.eval params row

/-- The row behind an update. -/
def Update.apply (statement : Update) (row : Row) : Row :=
  if statement.condition.holds params row then
    Function.update row statement.column (statement.value.eval params row)
  else row

def Update.run (database : Database) (statement : Update) : Database :=
  Function.update database statement.table ((database statement.table).map (statement.apply params))

/-- The database behind the statements of a text, whose placeholders are those of the parameters. -/
def execute (text : List UInt8) (database : Database) : Option Database :=
  if (∀ k ∈ paramNumbers text, 1 ≤ k ∧ k ≤ params.length) ∧ ∀ k < params.length, k + 1 ∈ paramNumbers text then
    (parse text).map fun statements => statements.foldl (Update.run params) database
  else none

/-! ### Tokens of texts -/

/-- No word and no number goes on from one text into the other. -/
def Apart (text text' : List UInt8) : Prop :=
  ∀ c ∈ text.getLast?, ∀ d ∈ text'.head?, ¬(isLetter c ∧ isLetter d) ∧ ¬(isDigit c ∧ isDigit d)

theorem not_isBlank_of_isLetter {c : UInt8} (h : isLetter c = true) : isBlank c = false := by
  simp only [isLetter, isUpper, isBlank, UInt8.le_iff_toNat_le, ← UInt8.toNat_inj, Bool.or_eq_true, Bool.and_eq_true,
    decide_eq_true_eq, beq_iff_eq, ← Bool.not_eq_true] at h ⊢
  have h32 : (32 : UInt8).toNat = 32 := rfl
  simp at h ⊢
  omega

theorem not_isBlank_of_isDigit {c : UInt8} (h : isDigit c = true) : isBlank c = false := by
  simp only [isDigit, isBlank, UInt8.le_iff_toNat_le, ← UInt8.toNat_inj, Bool.or_eq_true, Bool.and_eq_true,
    decide_eq_true_eq, beq_iff_eq, ← Bool.not_eq_true] at h ⊢
  simp at h ⊢
  omega

theorem not_isLetter_of_isDigit {c : UInt8} (h : isDigit c = true) : isLetter c = false := by
  simp only [isDigit, isLetter, isUpper, UInt8.le_iff_toNat_le, ← UInt8.toNat_inj, Bool.or_eq_true, Bool.and_eq_true,
    decide_eq_true_eq, beq_iff_eq, ← Bool.not_eq_true] at h ⊢
  simp at h ⊢
  omega

/-- A letter begins a word: its own, or the one that starts behind it. -/
theorem lex_letter {c : UInt8} (h : isLetter c = true) (text : List UInt8) :
    lex (c :: text) = match text.head?.any isLetter, lex text with
      | true, .word letters :: tokens => .word (fold c :: letters) :: tokens
      | _, tokens => .word [fold c] :: tokens := by
  rw [lex, not_isBlank_of_isLetter h, if_neg Bool.false_ne_true, if_pos h]

theorem lex_digit {c : UInt8} (h : isDigit c = true) (text : List UInt8) :
    lex (c :: text) = match text.head?.any isDigit, lex text with
      | true, .number digits :: tokens => .number (c :: digits) :: tokens
      | _, tokens => .number [c] :: tokens := by
  rw [lex, not_isBlank_of_isDigit h, if_neg Bool.false_ne_true, not_isLetter_of_isDigit h,
    if_neg Bool.false_ne_true, if_pos h]

theorem lex_letter_ne_nil {c : UInt8} (h : isLetter c = true) (text : List UInt8) :
    ∃ letters tokens, lex (c :: text) = .word letters :: tokens := by
  rw [lex_letter h]
  split
  · exact ⟨_, _, rfl⟩
  · exact ⟨_, _, rfl⟩

theorem lex_digit_ne_nil {c : UInt8} (h : isDigit c = true) (text : List UInt8) :
    ∃ digits tokens, lex (c :: text) = .number digits :: tokens := by
  rw [lex_digit h]
  split
  · exact ⟨_, _, rfl⟩
  · exact ⟨_, _, rfl⟩

theorem lex_append {text text' : List UInt8} (h : Apart text text') : lex (text ++ text') = lex text ++ lex text' := by
  induction text with
  | nil => rfl
  | cons c text ih =>
    have hrest : text ≠ [] → lex (text ++ text') = lex text ++ lex text' := by
      intro hne
      apply ih
      intro e he
      obtain ⟨d, text, rfl⟩ := List.exists_cons_of_ne_nil hne
      exact h e (by rwa [List.getLast?_cons_cons])
    have hlex : lex (text ++ text') = lex text ++ lex text' := by
      by_cases hne : text = []
      · rw [hne]
        rfl
      · exact hrest hne
    rw [List.cons_append]
    by_cases hblank : isBlank c = true
    · rw [lex, lex, if_pos hblank, if_pos hblank, hlex]
    · by_cases hletter : isLetter c = true
      · rw [lex_letter hletter, lex_letter hletter, hlex]
        cases text with
        | nil =>
          have hnone : text'.head?.any isLetter = false := by
            rw [← Bool.not_eq_true, Option.any_eq_true]
            rintro ⟨d, hd, hd'⟩
            exact (h c rfl d hd).1 ⟨hletter, hd'⟩
          rw [List.nil_append, hnone]
          rfl
        | cons d text =>
          rw [List.cons_append, List.head?_cons, List.head?_cons, Option.any_some]
          cases hd : isLetter d with
          | false => rfl
          | true =>
            obtain ⟨letters, tokens, htokens⟩ := lex_letter_ne_nil hd text
            rw [htokens]
            rfl
      · by_cases hdigit : isDigit c = true
        · rw [lex_digit hdigit, lex_digit hdigit, hlex]
          cases text with
          | nil =>
            have hnone : text'.head?.any isDigit = false := by
              rw [← Bool.not_eq_true, Option.any_eq_true]
              rintro ⟨d, hd, hd'⟩
              exact (h c rfl d hd).2 ⟨hdigit, hd'⟩
            rw [List.nil_append, hnone]
            rfl
          | cons d text =>
            rw [List.cons_append, List.head?_cons, List.head?_cons, Option.any_some]
            cases hd : isDigit d with
            | false => rfl
            | true =>
              obtain ⟨digits, tokens, htokens⟩ := lex_digit_ne_nil hd text
              rw [htokens]
              rfl
        · rw [lex, lex, if_neg hblank, if_neg hblank, if_neg hletter, if_neg hletter, if_neg hdigit, if_neg hdigit, hlex]
          rfl

/-- A text that ends in neither a letter nor a digit. -/
theorem apart_of_getLast? {text : List UInt8} {c : UInt8} (h : text.getLast? = some c) (hletter : isLetter c = false)
    (hdigit : isDigit c = false) (text' : List UInt8) : Apart text text' := by
  intro d hd e _
  rw [h] at hd
  obtain rfl := Option.some.inj hd
  constructor
  · intro hboth
    rw [hletter] at hboth
    cases hboth.1
  · intro hboth
    rw [hdigit] at hboth
    cases hboth.1

/-- A text that starts with neither a letter nor a digit. -/
theorem apart_of_head? {text' : List UInt8} {c : UInt8} (h : text'.head? = some c) (hletter : isLetter c = false)
    (hdigit : isDigit c = false) (text : List UInt8) : Apart text text' := by
  intro d _ e he
  rw [h] at he
  obtain rfl := Option.some.inj he
  constructor
  · intro hboth
    rw [hletter] at hboth
    cases hboth.2
  · intro hboth
    rw [hdigit] at hboth
    cases hboth.2

theorem toNat_digit : ∀ {d : ℕ}, d < 10 → (digit d).toNat - 48 = d := by decide

/-- Digits are one number. -/
theorem lex_digits {digits : List UInt8} (hne : digits ≠ []) (h : ∀ c ∈ digits, isDigit c = true) :
    lex digits = [.number digits] := by
  induction digits with
  | nil => exact absurd rfl hne
  | cons c digits ih =>
    rw [lex_digit (h c List.mem_cons_self)]
    cases digits with
    | nil => rfl
    | cons d digits =>
      rw [ih (List.cons_ne_nil d digits) fun e he => h e (List.mem_cons_of_mem c he), List.head?_cons,
        Option.any_some, h d (by simp)]

theorem lex_decimal (n : ℕ) : lex (decimal n) = [.number (decimal n)] :=
  lex_digits (List.ne_nil_of_length_pos (length_decimal_pos n)) fun _ => isDigit_of_mem_decimal

theorem readNumber_decimal (n : ℕ) : readNumber (decimal n) = n := by
  induction n using Nat.strongRecOn with
  | _ n ih =>
    unfold readNumber at ih ⊢
    rcases Nat.lt_or_ge n 10 with hlt | hge
    · rw [decimal_of_lt hlt, List.foldl_cons, List.foldl_nil, toNat_digit hlt, Nat.mul_zero, Nat.zero_add]
    · rw [decimal_of_le hge, List.foldl_append, ih (n / 10) (by omega), List.foldl_cons, List.foldl_nil,
        toNat_digit (Nat.mod_lt n (by omega)), Nat.div_add_mod]

/-- Texts that nothing goes on from are cut into tokens one by one. -/
theorem lex_flatMap {f : ℕ → List UInt8} (h : ∀ j text, Apart (f j) text) (js : List ℕ) (text : List UInt8) :
    lex (js.flatMap f ++ text) = js.flatMap (fun j => lex (f j)) ++ lex text := by
  induction js with
  | nil => rfl
  | cons j js ih => rw [List.flatMap_cons, List.append_assoc, lex_append (h j _), ih, List.flatMap_cons, List.append_assoc]

/-- So are texts that start with a character of their own. -/
theorem lex_flatMap_cons {c : UInt8} {f : ℕ → List UInt8} (hf : ∀ j, (f j).head? = some c) (hletter : isLetter c = false)
    (hdigit : isDigit c = false) (js : List ℕ) {text : List UInt8} {d : UInt8} (htext : text.head? = some d)
    (hletter' : isLetter d = false) (hdigit' : isDigit d = false) :
    lex (js.flatMap f ++ text) = js.flatMap (fun j => lex (f j)) ++ lex text := by
  induction js with
  | nil => rfl
  | cons j js ih =>
    have hapart : Apart (f j) (js.flatMap f ++ text) := by
      cases js with
      | nil => exact apart_of_head? htext hletter' hdigit' _
      | cons k js =>
        apply apart_of_head? _ hletter hdigit
        rw [List.flatMap_cons, List.append_assoc, List.head?_append, hf k]
        rfl
    rw [List.flatMap_cons, List.append_assoc, lex_append hapart, ih, List.flatMap_cons, List.append_assoc]

end FrameworkBenchmarks.Common.Sql
