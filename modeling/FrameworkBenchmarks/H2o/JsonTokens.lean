import FrameworkBenchmarks.H2o.GenInteger

/-!
# The JSON texts of the h2o server

What the handlers make the generator library write, call by call.
-/

namespace FrameworkBenchmarks.H2o.JsonGenerators

open Common

def HELLO_RESPONSE : List UInt8 := ascii "Hello, World!"

def ID_KEY : List UInt8 := ascii "id"

def RANDOM_NUM_KEY : List UInt8 := ascii "randomNumber"

section Yajl

/-- The calls that append to the buffer of a generator. -/
inductive Token where
  | mapOpen
  | mapClose
  | arrayOpen
  | arrayClose
  | string (text : List UInt8)
  | number (text : List UInt8)

/-- The generator library. Calls return whether their status is `yajl_gen_status_ok`. -/
structure Yajl (G : Type) where
  alloc : G
  gen : Token → G → Bool × G
  getBuf : G → Option (List UInt8)
  reset : G → G
  clear : G → G

variable {G : Type} (y : Yajl G)

/-- Calls in a row, up to the first that fails. -/
def Yajl.emit : List Token → G → Bool × G
  | [], g => (true, g)
  | token :: tokens, g =>
    match y.gen token g with
    | (true, g) => Yajl.emit tokens g
    | (false, g) => (false, g)

/-- The text that the calls leave in the buffer, unless something fails. -/
def Yajl.text (tokens : List Token) (g : G) : Option (List UInt8) :=
  match y.emit tokens g with
  | (true, g) => y.getBuf g
  | (false, _) => none

/-- A generator that writes like a new one. -/
def Yajl.Clean (g : G) : Prop := ∀ tokens, y.text tokens g = y.text tokens y.alloc

/-- Resetting a generator and clearing its buffer takes back all that was written. -/
def Yajl.Documented : Prop := ∀ g, y.Clean (y.clear (y.reset g))

/-- `CHECK_YAJL_STATUS` on one call after another -/
def andThen (first second : G → Bool × G) (g : G) : Bool × G :=
  match first g with
  | (true, g) => second g
  | (false, g) => (false, g)

theorem emit_append (first second : List Token) (g : G) :
    y.emit (first ++ second) g = andThen (y.emit first) (y.emit second) g := by
  induction first generalizing g with
  | nil => rfl
  | cons token first ih =>
    simp only [List.cons_append, Yajl.emit, andThen]
    cases y.gen token g with
    | mk ok g => cases ok with
      | true => exact ih g
      | false => rfl

theorem emit_singleton (token : Token) (g : G) : y.emit [token] g = y.gen token g := by
  simp only [Yajl.emit]
  cases y.gen token g with
  | mk ok g => cases ok <;> rfl

end Yajl

section Serializing

variable {G : Type} (y : Yajl G)

/-- `gen_integer` with its buffer of 32 bytes, whose contents are passed on -/
def genNumber (number : ℤ) (buf : Memory) (g : G) : Bool × G :=
  match (genInteger number 32 buf).1 with
  | .invalidNumber => (false, g)
  | .genNumber text => y.gen (.number text) g

/-- `buf` is what the buffer on the stack contains. -/
def serializeItem (id randomNumber : UInt32) (buf : Memory) : G → Bool × G :=
  andThen (y.gen .mapOpen) <|
  andThen (y.gen (.string ID_KEY)) <|
  andThen (genNumber y id.toNat buf) <|
  andThen (y.gen (.string RANDOM_NUM_KEY)) <|
  andThen (genNumber y randomNumber.toNat (genInteger id.toNat 32 buf).2) <|
  y.gen .mapClose

/-- The loop over the results, each of them a `query_result_t`; every call finds something else on
the stack. -/
def serializeResults (buf : ℕ → Memory) : List (UInt32 × UInt32) → G → Bool × G
  | [] => fun g => (true, g)
  | (id, randomNumber) :: res =>
    andThen (serializeItem y id randomNumber (buf res.length)) (serializeResults buf res)

/-- What `json_serializer` writes. -/
def serializeHello : G → Bool × G :=
  andThen (y.gen .mapOpen) <|
  andThen (y.gen (.string (ascii "message"))) <|
  andThen (y.gen (.string HELLO_RESPONSE)) <|
  y.gen .mapClose

/-- What `serialize_items` writes. -/
def serializeArray (buf : ℕ → Memory) (res : List (UInt32 × UInt32)) : G → Bool × G :=
  andThen (y.gen .arrayOpen) (andThen (serializeResults y buf res) (y.gen .arrayClose))

def helloTokens : List Token :=
  [.mapOpen, .string (ascii "message"), .string HELLO_RESPONSE, .mapClose]

def itemTokens (id randomNumber : UInt32) : List Token :=
  [.mapOpen, .string ID_KEY, .number (decimal id.toNat), .string RANDOM_NUM_KEY,
    .number (decimal randomNumber.toNat), .mapClose]

def itemsTokens (res : List (UInt32 × UInt32)) : List Token :=
  .arrayOpen :: res.flatMap (fun item => itemTokens item.1 item.2) ++ [.arrayClose]

/-- The buffer has room for every `uint32_t`. -/
theorem genNumber_eq (number : UInt32) (buf : Memory) :
    genNumber y number.toNat buf = y.emit [.number (decimal number.toNat)] := by
  funext g
  have hroom : (decimalInt (number.toNat : ℤ)).length ≤ 32 := by
    have hlt : number.toNat < 10 ^ 32 := number.toNat_lt.trans (by norm_num)
    rw [decimalInt_of_nonneg (by omega), Int.natAbs_natCast]
    exact (length_decimal_le_iff (by norm_num)).mpr hlt
  have hgen : (genInteger number.toNat 32 buf).1 = .genNumber (decimal number.toNat) := by
    rw [(exactInBounds_nonneg (by omega) (by norm_num) buf).1, if_pos hroom,
      decimalInt_of_nonneg (by omega), Int.natAbs_natCast]
  rw [genNumber, hgen, emit_singleton]

theorem gen_eq_emit (token : Token) : y.gen token = y.emit [token] := by
  funext g
  exact (emit_singleton y token g).symm

theorem andThen_emit (first second : List Token) :
    andThen (y.emit first) (y.emit second) = y.emit (first ++ second) := by
  funext g
  exact (emit_append y first second g).symm

theorem serializeHello_eq : serializeHello y = y.emit helloTokens := by
  simp only [serializeHello, gen_eq_emit, andThen_emit]
  rfl

theorem serializeItem_eq (id randomNumber : UInt32) (buf : Memory) :
    serializeItem y id randomNumber buf = y.emit (itemTokens id randomNumber) := by
  simp only [serializeItem, genNumber_eq, gen_eq_emit, andThen_emit]
  rfl

theorem serializeResults_eq (buf : ℕ → Memory) (res : List (UInt32 × UInt32)) :
    serializeResults y buf res = y.emit (res.flatMap fun item => itemTokens item.1 item.2) := by
  induction res with
  | nil => rfl
  | cons item res ih =>
    rw [serializeResults, ih, serializeItem_eq, andThen_emit]
    rfl

theorem serializeArray_eq (buf : ℕ → Memory) (res : List (UInt32 × UInt32)) :
    serializeArray y buf res = y.emit (itemsTokens res) := by
  rw [serializeArray, serializeResults_eq]
  simp only [gen_eq_emit, andThen_emit]
  rfl

end Serializing

end FrameworkBenchmarks.H2o.JsonGenerators
