import FrameworkBenchmarks.Common.Bytes
import Mathlib.Data.Nat.Notation

/-!
# The lexer of JSON payloads

`json.c` reads a payload with a lexer of state functions, one token each time `lexer_next` is called.
What the parser writes into the payload, the NUL after a decoded string, lies before the lexer's
position, so the tokens are those of the payload as it was received.
-/

namespace FrameworkBenchmarks.Lwan

open Common (ascii isDigit)

/-- `enum json_tokens`, without the marks for no token and for the end of the payload -/
inductive JsonTokens
  | objectStart
  | objectEnd
  | listStart
  | listEnd
  | string
  | colon
  | comma
  | number
  | true
  | false
  | null
  | error
  deriving DecidableEq, Repr

/-- `struct token`: its type and the text from `start` to `end` -/
structure Token where
  type : JsonTokens
  text : List UInt8
  deriving DecidableEq, Repr

/-- `isxdigit` -/
def isXDigit (c : UInt8) : Bool := isDigit c || (97 ≤ c && c ≤ 102) || (65 ≤ c && c ≤ 70)

/-- `isspace` in the C locale -/
def isSpace (c : UInt8) : Bool := c = 32 || (9 ≤ c && c ≤ 13)

/-- `emit_end` with an error: the lexer has no state after it, so nothing is left to read. -/
def emitError : Token × List UInt8 := (⟨.error, []⟩, [])

/-- `lexer_string`, with the text read so far -/
def lexerString (start : List UInt8) : List UInt8 → Token × List UInt8
  | [] => emitError
  | chr :: pos =>
    if chr = 0 then emitError
    else if chr = 92 then
      match pos with
      | [] => emitError
      | esc :: pos =>
        if esc ∈ ascii "\"\\/bfnrt" then lexerString (start ++ [chr, esc]) pos
        else if esc = 117 then
          match pos with
          | a :: b :: c :: d :: pos =>
            if isXDigit a && isXDigit b && isXDigit c && isXDigit d then
              lexerString (start ++ [chr, esc, a, b, c, d]) pos
            else emitError
          | _ => emitError
        else emitError
    else if chr = 34 then (⟨.string, start⟩, pos)
    else lexerString (start ++ [chr]) pos

/-- `accept_run` and the token that is emitted after it -/
def acceptRun (run : List UInt8) (token : Token) (pos : List UInt8) : Token × List UInt8 :=
  if run.isPrefixOf pos then (token, pos.drop run.length) else emitError

/-- `lexer_boolean`, after the first letter -/
def lexerBoolean (chr : UInt8) : List UInt8 → Token × List UInt8
  | [] => emitError
  | next :: pos =>
    if next = 114 then acceptRun (ascii "ue") ⟨.true, chr :: ascii "rue"⟩ pos
    else if next = 97 then acceptRun (ascii "lse") ⟨.false, chr :: ascii "alse"⟩ pos
    else emitError

/-- The bytes that `lexer_number` takes. -/
def isNumberByte (chr : UInt8) : Bool := isDigit chr || chr = 46

/-- `lexer_number`, after the first byte -/
def lexerNumber (chr : UInt8) (pos : List UInt8) : Token × List UInt8 :=
  (⟨.number, chr :: pos.takeWhile isNumberByte⟩, pos.dropWhile isNumberByte)

/-- The tokens of one byte. -/
def punctuator (chr : UInt8) : Option JsonTokens :=
  if chr = 125 then some .objectEnd
  else if chr = 123 then some .objectStart
  else if chr = 91 then some .listStart
  else if chr = 93 then some .listEnd
  else if chr = 44 then some .comma
  else if chr = 58 then some .colon
  else none

/-- `lexer_json`: the next token and what is left after it, or nothing at the end of the payload -/
def lexerJson : List UInt8 → Option (Token × List UInt8)
  | [] => none
  | chr :: pos =>
    if chr = 0 then none
    else match punctuator chr with
      | some type => some (⟨type, [chr]⟩, pos)
      | none =>
        if chr = 34 then some (lexerString [] pos)
        else if chr = 110 then some (acceptRun (ascii "ull") ⟨.null, ascii "null"⟩ pos)
        else if chr = 116 ∨ chr = 102 then some (lexerBoolean chr pos)
        else if chr = 45 ∧ pos.head?.any isDigit then some (lexerNumber chr pos)
        else if isSpace chr then lexerJson pos
        else if isDigit chr then some (lexerNumber chr pos)
        else some emitError

/-- The tokens that `lexer_next` returns, one call after the other, `fuel` at most. -/
def lexerTokens : ℕ → List UInt8 → List Token
  | 0, _ => []
  | fuel + 1, pos =>
    match lexerJson pos with
    | none => []
    | some (token, pos) => token :: lexerTokens fuel pos

/-- The tokens of a payload; each one takes a byte. -/
def lexer (payload : List UInt8) : List Token := lexerTokens payload.length payload

section Progress

theorem length_acceptRun (run : List UInt8) (token : Token) (pos : List UInt8) :
    (acceptRun run token pos).2.length ≤ pos.length := by
  unfold acceptRun
  split
  · rw [List.length_drop]
    omega
  · exact Nat.zero_le _

theorem length_lexerString (start pos : List UInt8) :
    (lexerString start pos).2.length ≤ pos.length := by
  fun_induction lexerString start pos with
  | case4 _ _ _ _ _ ih => exact Nat.le_trans ih (by simp; omega)
  | case5 _ _ _ _ _ _ _ _ _ ih => exact Nat.le_trans ih (by simp; omega)
  | case9 => simp
  | case10 _ _ _ _ _ _ ih => exact Nat.le_trans ih (Nat.le_succ _)
  | _ => exact Nat.zero_le _

theorem length_lexerBoolean (chr : UInt8) (pos : List UInt8) :
    (lexerBoolean chr pos).2.length ≤ pos.length := by
  cases pos with
  | nil => exact Nat.zero_le _
  | cons next pos =>
    rw [lexerBoolean]
    split
    · exact Nat.le_succ_of_le (length_acceptRun _ _ pos)
    · split
      · exact Nat.le_succ_of_le (length_acceptRun _ _ pos)
      · exact Nat.zero_le _

/-- Every token takes a byte of the payload. -/
theorem length_lexerJson {pos rest : List UInt8} {token : Token}
    (h : lexerJson pos = some (token, rest)) : rest.length < pos.length := by
  have hof : ∀ {chr : UInt8} {pos : List UInt8} {read : Token × List UInt8},
      some read = some (token, rest) → read.2.length ≤ pos.length →
        rest.length < (chr :: pos).length := by
    intro chr pos read hread hle
    rw [Option.some.inj hread] at hle
    exact Nat.lt_succ_of_le hle
  fun_induction lexerJson pos with
  | case1 => exact nomatch h
  | case2 => exact nomatch h
  | case3 _ pos => exact hof h (Nat.le_refl _)
  | case4 pos => exact hof h (length_lexerString [] pos)
  | case5 pos => exact hof h (length_acceptRun _ _ pos)
  | case6 chr pos => exact hof h (length_lexerBoolean chr pos)
  | case7 _ pos => exact hof h ((List.dropWhile_suffix _).length_le)
  | case8 _ _ _ _ _ _ _ _ _ ih => exact Nat.lt_succ_of_lt (ih h)
  | case9 _ pos => exact hof h ((List.dropWhile_suffix _).length_le)
  | case10 => exact hof h (Nat.zero_le _)

/-- More fuel than bytes changes nothing. -/
theorem lexerTokens_eq (fuel : ℕ) (pos : List UInt8) (h : pos.length ≤ fuel) :
    lexerTokens fuel pos = lexer pos := by
  have haux : ∀ fuel fuel' (pos : List UInt8), pos.length ≤ fuel → pos.length ≤ fuel' →
      lexerTokens fuel pos = lexerTokens fuel' pos := by
    intro fuel
    induction fuel with
    | zero =>
      intro fuel' pos hfuel hfuel'
      rw [List.length_eq_zero_iff.mp (Nat.le_zero.mp hfuel)]
      cases fuel' with
      | zero => rfl
      | succ fuel' => rfl
    | succ fuel ih =>
      intro fuel' pos hfuel hfuel'
      cases fuel' with
      | zero =>
        rw [List.length_eq_zero_iff.mp (Nat.le_zero.mp hfuel')]
        rfl
      | succ fuel' =>
        rw [lexerTokens, lexerTokens]
        cases hread : lexerJson pos with
        | none => rfl
        | some read =>
          have hlt := length_lexerJson hread
          exact congrArg (read.1 :: ·) (ih fuel' read.2 (by omega) (by omega))
  exact haux fuel pos.length pos h (Nat.le_refl _)

/-- The lexer, one token at a time. -/
theorem lexer_eq (pos : List UInt8) : lexer pos =
    match lexerJson pos with
    | none => []
    | some (token, rest) => token :: lexer rest := by
  cases pos with
  | nil => rfl
  | cons chr pos =>
    rw [lexer, List.length_cons, lexerTokens]
    cases hread : lexerJson (chr :: pos) with
    | none => rfl
    | some read =>
      have hlt := length_lexerJson hread
      exact congrArg (read.1 :: ·) (lexerTokens_eq _ _ (Nat.le_of_lt_succ hlt))

end Progress

end FrameworkBenchmarks.Lwan
