import Mathlib
import FrameworkBenchmarks.Common.Bitset

/-!
# Random ids of the h2o server

`initialize_ids` draws distinct ids by Floyd's method: the bound grows by one with every id, and an id
that has been drawn before is replaced by the bound itself. What `rand_r` returns is a stream of
numbers, of which a finite part has been returned so far; a draw that has used it up is still waiting.
-/

namespace FrameworkBenchmarks.H2o

open FrameworkBenchmarks.Common

def MAX_ID : ℕ := 10000

def MAX_QUERIES : ℕ := 500

def RAND_MAX : ℕ := 2147483647

/-- What must not happen: a failed assertion, an array access or a division without meaning. -/
inductive Fault
  | assertion
  | outOfBounds
  | divisionByZero
  deriving DecidableEq, Repr

variable {w : ℕ}

/-- `bitset_isset` -/
def bitsetIsset (i : ℕ) (b : List (BitVec w)) (num : ℕ) : Except Fault Bool :=
  if i < num then
    match b[i / w]? with
    | none => .error .outOfBounds
    | some word => .ok (word >>> (i % w) &&& 1#w ≠ 0#w)
  else .error .assertion

/-- `bitset_set` -/
def bitsetSet (i : ℕ) (b : List (BitVec w)) (num : ℕ) : Except Fault (List (BitVec w)) :=
  if i < num then
    match b[i / w]? with
    | none => .error .outOfBounds
    | some word => .ok (b.set (i / w) (word ||| 1#w <<< (i % w)))
  else .error .assertion

def bucketSize (maxRand : ℕ) : ℕ := (RAND_MAX + 1) / maxRand

def unbiasedRandMax (maxRand : ℕ) : ℕ := bucketSize maxRand * maxRand

/-- The loop of `get_random_number`: the first number below the bound, and the stream behind it. -/
def drawBelow (bound : ℕ) : List ℕ → Option (ℕ × List ℕ)
  | [] => none
  | ret :: seed => if bound ≤ ret then drawBelow bound seed else some (ret, seed)

/-- `get_random_number`; `none` while it waits for an unbiased number. -/
def getRandomNumber (maxRand : ℕ) (seed : List ℕ) : Except Fault (Option (ℕ × List ℕ)) :=
  if RAND_MAX < maxRand then .error .assertion
  else if maxRand = 0 then .error .divisionByZero
  else .ok ((drawBelow (unbiasedRandMax maxRand) seed).map fun draw =>
    (draw.1 / bucketSize maxRand, draw.2))

/-- The loop of `initialize_ids` for the ids that are still to be drawn. -/
def idsLoop : ℕ → ℕ → List (BitVec w) → List ℕ → Except Fault (Option (List ℕ × List ℕ))
  | 0, _, _, seed => .ok (some ([], seed))
  | n + 1, maxRand, bitset, seed => do
    match ← getRandomNumber maxRand seed with
    | none => return none
    | some (drawn, seed) =>
      let id := if ← bitsetIsset drawn bitset (bitCount bitset) then maxRand - 1 else drawn
      let bitset ← bitsetSet id bitset (bitCount bitset)
      match ← idsLoop n (maxRand + 1) bitset seed with
      | none => return none
      | some (ids, seed) => return some ((id + 1) :: ids, seed)

/-- `initialize_ids`, with words of `w` bits: the ids in `res`, and the stream behind the numbers used. -/
def initializeIds (w numQuery : ℕ) (seed : List ℕ) : Except Fault (Option (List ℕ × List ℕ)) :=
  idsLoop numQuery (MAX_ID - numQuery + 1) (emptyBitset w MAX_ID) seed

/-! ### Draws -/

theorem bitsetIsset_eq (hw : 0 < w) {i : ℕ} {b : List (BitVec w)} (h : i < bitCount b) :
    bitsetIsset i b (bitCount b) = .ok (testBit b i) := by
  have hget : b[i / w]? = some (b.getD (i / w) 0) := by
    rw [List.getD_eq_getElem?_getD, List.getElem?_eq_getElem (div_lt_length h)]
    rfl
  rw [bitsetIsset, if_pos h, hget, testBit]
  exact congrArg Except.ok (Bool.eq_iff_iff.mpr (by
    rw [decide_eq_true_eq]
    exact shifted_and_one hw _))

theorem bitsetSet_eq {i : ℕ} {b : List (BitVec w)} (h : i < bitCount b) :
    bitsetSet i b (bitCount b) = .ok (setBit b i) := by
  have hget : b[i / w]? = some (b.getD (i / w) 0) := by
    rw [List.getD_eq_getElem?_getD, List.getElem?_eq_getElem (div_lt_length h)]
    rfl
  rw [bitsetSet, if_pos h, hget]
  rfl

theorem drawBelow_lt {bound v : ℕ} {seed rest : List ℕ} (h : drawBelow bound seed = some (v, rest)) :
    v < bound := by
  induction seed with
  | nil => cases h
  | cons ret seed ih =>
    rw [drawBelow] at h
    split at h
    · exact ih h
    · rename_i hret
      obtain ⟨rfl, -⟩ := Prod.mk.inj (Option.some.inj h)
      omega

theorem getRandomNumber_eq {maxRand : ℕ} (hpos : 0 < maxRand) (hmax : maxRand ≤ RAND_MAX)
    (seed : List ℕ) : getRandomNumber maxRand seed =
      .ok ((drawBelow (unbiasedRandMax maxRand) seed).map fun draw =>
        (draw.1 / bucketSize maxRand, draw.2)) := by
  rw [getRandomNumber, if_neg (Nat.not_lt_of_le hmax), if_neg (Nat.ne_of_gt hpos)]

/-- An unbiased number falls into one of the buckets. -/
theorem drawn_lt {maxRand v : ℕ} (h : v < unbiasedRandMax maxRand) :
    v / bucketSize maxRand < maxRand := Nat.div_lt_of_lt_mul h

/-! ### Distinct ids -/

/-- The bits that are set are the numbers used, and all of them are below the last bound. -/
structure Used (bitset : List (BitVec w)) (maxRand : ℕ) (used : List ℕ) : Prop where
  bits : ∀ i, testBit bitset i = decide (i ∈ used)
  below : ∀ i ∈ used, i + 1 < maxRand
  room : MAX_ID ≤ bitCount bitset

/-- The number taken for a draw is new, and with it the invariant holds for the next bound. -/
theorem Used.step {bitset : List (BitVec w)} {maxRand drawn : ℕ} {used : List ℕ}
    (h : Used bitset maxRand used) (hmax : maxRand ≤ MAX_ID) (hdrawn : drawn < maxRand) :
    let id := if testBit bitset drawn then maxRand - 1 else drawn
    id ∉ used ∧ id < maxRand ∧ Used (setBit bitset id) (maxRand + 1) (id :: used) := by
  intro id
  have hlt : id < maxRand := by
    show (if testBit bitset drawn then maxRand - 1 else drawn) < maxRand
    split <;> omega
  have hnew : id ∉ used := by
    show (if testBit bitset drawn then maxRand - 1 else drawn) ∉ used
    split
    · intro hmem
      have hbelow := h.below _ hmem
      omega
    · rename_i hbit
      rwa [h.bits, decide_eq_true_eq] at hbit
  have hin : id < bitCount bitset := Nat.lt_of_lt_of_le hlt (Nat.le_trans hmax h.room)
  refine ⟨hnew, hlt, fun i => ?_, fun i hi => ?_, ?_⟩
  · rw [testBit_setBit hin, h.bits]
    simp [Bool.decide_or, Bool.or_comm]
  · rcases List.mem_cons.mp hi with rfl | hi
    · omega
    · have hbelow := h.below i hi
      omega
  · rw [bitCount_setBit]
    exact h.room

/-- The number taken for a draw. -/
def takenId (bitset : List (BitVec w)) (maxRand v : ℕ) : ℕ :=
  if testBit bitset (v / bucketSize maxRand) then maxRand - 1 else v / bucketSize maxRand

/-- An iteration of the loop whose draw succeeds. -/
theorem idsLoop_succ (hw : 0 < w) {n maxRand v : ℕ} {bitset : List (BitVec w)} {used seed rest : List ℕ}
    (h : Used bitset maxRand used) (hpos : 0 < maxRand) (hmax : maxRand ≤ MAX_ID)
    (hdraw : drawBelow (unbiasedRandMax maxRand) seed = some (v, rest)) :
    idsLoop (n + 1) maxRand bitset seed =
      (idsLoop n (maxRand + 1) (setBit bitset (takenId bitset maxRand v)) rest).map
        (Option.map fun r => ((takenId bitset maxRand v + 1) :: r.1, r.2)) := by
  have hmax' : maxRand ≤ RAND_MAX := by
    unfold RAND_MAX
    unfold MAX_ID at hmax
    omega
  have hdrawn := drawn_lt (drawBelow_lt hdraw)
  have hin : v / bucketSize maxRand < bitCount bitset :=
    Nat.lt_of_lt_of_le hdrawn (Nat.le_trans hmax h.room)
  have htaken : takenId bitset maxRand v < bitCount bitset :=
    Nat.lt_of_lt_of_le (h.step hmax hdrawn).2.1 (Nat.le_trans hmax h.room)
  have hnumber := getRandomNumber_eq hpos hmax' seed
  rw [hdraw] at hnumber
  rw [idsLoop, hnumber]
  show (bitsetIsset _ bitset (bitCount bitset) >>= _) = _
  rw [bitsetIsset_eq hw hin]
  show (bitsetSet (takenId bitset maxRand v) bitset (bitCount bitset) >>= _) = _
  rw [bitsetSet_eq htaken]
  show (idsLoop n (maxRand + 1) (setBit bitset (takenId bitset maxRand v)) rest >>= _) = _
  cases idsLoop n (maxRand + 1) (setBit bitset (takenId bitset maxRand v)) rest with
  | error => rfl
  | ok outcome =>
    cases outcome with
    | none => rfl
    | some r => rfl

theorem idsLoop_waiting {n maxRand : ℕ} {bitset : List (BitVec w)} {seed : List ℕ}
    (hpos : 0 < maxRand) (hmax : maxRand ≤ MAX_ID)
    (hdraw : drawBelow (unbiasedRandMax maxRand) seed = none) :
    idsLoop (n + 1) maxRand bitset seed = .ok none := by
  have hmax' : maxRand ≤ RAND_MAX := by
    unfold RAND_MAX
    unfold MAX_ID at hmax
    omega
  have hnumber := getRandomNumber_eq hpos hmax' seed
  rw [hdraw] at hnumber
  rw [idsLoop, hnumber]
  rfl

/-- No step fails, and the ids drawn are new, distinct and in range. -/
theorem idsLoop_spec (hw : 0 < w) {n maxRand : ℕ} {bitset : List (BitVec w)} {used : List ℕ}
    (h : Used bitset maxRand used) (hpos : 0 < maxRand) (hmax : maxRand + n ≤ MAX_ID + 1)
    (seed : List ℕ) : ∃ outcome, idsLoop n maxRand bitset seed = .ok outcome ∧
      ∀ ids rest, outcome = some (ids, rest) → ids.length = n ∧ ids.Nodup ∧
        ∀ id ∈ ids, 1 ≤ id ∧ id ≤ MAX_ID ∧ id - 1 ∉ used := by
  induction n generalizing maxRand bitset used seed with
  | zero =>
    refine ⟨some ([], seed), rfl, fun ids rest heq => ?_⟩
    obtain ⟨rfl, -⟩ := Prod.mk.inj (Option.some.inj heq)
    exact ⟨rfl, List.nodup_nil, by simp⟩
  | succ n ih =>
    have hmax' : maxRand ≤ MAX_ID := by omega
    cases hdraw : drawBelow (unbiasedRandMax maxRand) seed with
    | none => exact ⟨none, idsLoop_waiting hpos hmax' hdraw, fun ids rest heq => nomatch heq⟩
    | some draw =>
      obtain ⟨v, rest⟩ := draw
      obtain ⟨hnew, hlt, hused⟩ := h.step hmax' (drawn_lt (drawBelow_lt hdraw))
      obtain ⟨outcome, hrun, hids⟩ := ih hused (by omega) (by omega) rest
      refine ⟨outcome.map fun r => ((takenId bitset maxRand v + 1) :: r.1, r.2), ?_, ?_⟩
      · rw [idsLoop_succ hw h hpos hmax' hdraw]
        show (idsLoop n (maxRand + 1) (setBit bitset (takenId bitset maxRand v)) rest).map _ = _
        rw [show idsLoop n (maxRand + 1) (setBit bitset (takenId bitset maxRand v)) rest = _ from hrun]
        rfl
      · intro ids rest' heq
        obtain ⟨r, houtcome, hr⟩ := Option.map_eq_some_iff.mp heq
        obtain ⟨rfl, rfl⟩ := Prod.mk.inj hr
        obtain ⟨hlength, hnodup, hrange⟩ := hids r.1 r.2 houtcome
        refine ⟨by rw [List.length_cons, hlength], List.nodup_cons.mpr ⟨fun hmem => ?_, hnodup⟩,
          fun id hid => ?_⟩
        · exact (hrange _ hmem).2.2 List.mem_cons_self
        · rcases List.mem_cons.mp hid with rfl | hid
          · exact ⟨Nat.le_add_left 1 _, Nat.le_trans hlt hmax', hnew⟩
          · obtain ⟨hone, hle, hfresh⟩ := hrange id hid
            exact ⟨hone, hle, fun hmem => hfresh (List.mem_cons_of_mem _ hmem)⟩

/-! ### Streams -/

/-- The numbers of an infinite stream from one place on. -/
def streamFrom (rand : ℕ → ℕ) : ℕ → ℕ → List ℕ
  | _, 0 => []
  | start, length + 1 => rand start :: streamFrom rand (start + 1) length

/-- A draw ends when a number below the bound comes. -/
theorem drawBelow_stream {rand : ℕ → ℕ} {bound d start : ℕ} (h : rand (start + d) < bound) :
    ∃ used v, ∀ length, drawBelow bound (streamFrom rand start (length + used)) =
      some (v, streamFrom rand (start + used) length) := by
  induction d generalizing start with
  | zero =>
    rw [Nat.add_zero] at h
    refine ⟨1, rand start, fun length => ?_⟩
    rw [streamFrom, drawBelow, if_neg (Nat.not_le_of_lt h)]
  | succ d ih =>
    by_cases hfirst : rand start < bound
    · refine ⟨1, rand start, fun length => ?_⟩
      rw [streamFrom, drawBelow, if_neg (Nat.not_le_of_lt hfirst)]
    · have hnext : start + (d + 1) = start + 1 + d := by omega
      rw [hnext] at h
      obtain ⟨used, v, hdraw⟩ := ih h
      refine ⟨used + 1, v, fun length => ?_⟩
      have hlast : start + 1 + used = start + (used + 1) := by omega
      rw [← Nat.add_assoc, streamFrom, drawBelow, if_pos (Nat.le_of_not_lt hfirst), hdraw, hlast]

/-- The ids are all drawn if below every bound numbers keep coming. -/
theorem idsLoop_ends (hw : 0 < w) {n maxRand : ℕ} {bitset : List (BitVec w)} {used : List ℕ}
    (h : Used bitset maxRand used) (hpos : 0 < maxRand) (hmax : maxRand + n ≤ MAX_ID + 1)
    {rand : ℕ → ℕ} (hrand : ∀ bound, maxRand ≤ bound → bound < maxRand + n → ∀ i, ∃ d,
      rand (i + d) < unbiasedRandMax bound) (start : ℕ) :
    ∃ length result, idsLoop n maxRand bitset (streamFrom rand start length) = .ok (some result) := by
  induction n generalizing maxRand bitset used start with
  | zero => exact ⟨0, ([], []), rfl⟩
  | succ n ih =>
    have hmax' : maxRand ≤ MAX_ID := by omega
    obtain ⟨d, hd⟩ := hrand maxRand (Nat.le_refl _) (by omega) start
    obtain ⟨count, v, hdraw⟩ := drawBelow_stream hd
    obtain ⟨-, -, hused⟩ := h.step hmax' (drawn_lt (drawBelow_lt (hdraw 0)))
    obtain ⟨length, result, hrun⟩ := ih hused (by omega) (by omega)
      (fun bound hle hlt => hrand bound (by omega) (by omega)) (start + count)
    refine ⟨length + count, ((takenId bitset maxRand v + 1) :: result.1, result.2), ?_⟩
    rw [idsLoop_succ hw h hpos hmax' (hdraw length), takenId, hrun]
    rfl

/-- For every stream, no assertion of `initialize_ids` fails, every bit is inside the bit set and every
bound of `get_random_number` is admissible; the ids are distinct and in range when all are drawn, and
they are all drawn on a stream that does not stay above one of the bounds for ever. -/
theorem initializeIds_distinct (hw : 0 < w) {numQuery : ℕ} (hpos : 1 ≤ numQuery)
    (hmax : numQuery ≤ MAX_QUERIES) :
    (∀ seed, ∃ outcome, initializeIds w numQuery seed = .ok outcome ∧
      ∀ res rest, outcome = some (res, rest) →
        res.length = numQuery ∧ res.Nodup ∧ ∀ id ∈ res, 1 ≤ id ∧ id ≤ MAX_ID) ∧
    ∀ rand : ℕ → ℕ, (∀ bound, bound ≤ MAX_ID → MAX_ID < bound + numQuery → ∀ i, ∃ d,
        rand (i + d) < unbiasedRandMax bound) →
      ∃ length result, initializeIds w numQuery (streamFrom rand 0 length) = .ok (some result) := by
  have hbound : numQuery ≤ 500 := hmax
  have hid : MAX_ID = 10000 := rfl
  have hstart : Used (emptyBitset w MAX_ID) (MAX_ID - numQuery + 1) [] :=
    ⟨fun i => by simp, by simp, le_bitCount_emptyBitset hw MAX_ID⟩
  have hfirst : 0 < MAX_ID - numQuery + 1 := by omega
  have hroom : MAX_ID - numQuery + 1 + numQuery ≤ MAX_ID + 1 := by omega
  refine ⟨fun seed => ?_, fun rand hrand => ?_⟩
  · obtain ⟨outcome, hrun, hids⟩ := idsLoop_spec hw hstart hfirst hroom seed
    refine ⟨outcome, hrun, fun res rest heq => ?_⟩
    obtain ⟨hlength, hnodup, hrange⟩ := hids res rest heq
    exact ⟨hlength, hnodup, fun id hmem => ⟨(hrange id hmem).1, (hrange id hmem).2.1⟩⟩
  · have hkeep : ∀ bound, MAX_ID - numQuery + 1 ≤ bound →
        bound < MAX_ID - numQuery + 1 + numQuery → ∀ i, ∃ d, rand (i + d) < unbiasedRandMax bound :=
      fun bound hle hlt => hrand bound (by omega) (by omega)
    exact idsLoop_ends hw hstart hfirst hroom hkeep 0

theorem initializeIds_distinct_two :
    (∀ seed, ∃ outcome, initializeIds 64 2 seed = .ok outcome ∧
      ∀ res rest, outcome = some (res, rest) →
        res.length = 2 ∧ res.Nodup ∧ ∀ id ∈ res, 1 ≤ id ∧ id ≤ MAX_ID) ∧
    ∀ rand : ℕ → ℕ, (∀ bound, bound ≤ MAX_ID → MAX_ID < bound + 2 → ∀ i, ∃ d,
        rand (i + d) < unbiasedRandMax bound) →
      ∃ length result, initializeIds 64 2 (streamFrom rand 0 length) = .ok (some result) :=
  initializeIds_distinct (by decide) (by decide) (by decide)

end FrameworkBenchmarks.H2o
