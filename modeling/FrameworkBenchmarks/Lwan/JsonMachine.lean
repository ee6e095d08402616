import FrameworkBenchmarks.Lwan.JsonParser

/-!
# The parser as a stack machine

The calls of `obj_parse` and `arr_parse` that are under way form a stack, and each token changes the
innermost call, enters a call or leaves one. The machine makes no difference between the parts of a
text that the descriptor asks for and those it does not: that is how the parser skips what it does
not know.
-/

namespace FrameworkBenchmarks.Lwan

/-- A call that is under way. -/
inductive Frame
  | obj (descr : List JsonObjDescr) (val : ℤ) (decodedFields : ℕ)
  | arr (elemDescr : JsonObjDescr) (lastElem field val : ℤ)

/-- What a call reads next. -/
inductive Phase
  | next
  | afterComma
  | colon (key : List UInt8)
  | value (key : List UInt8)

/-- The innermost call and its callers, or what the parser has returned. -/
inductive Machine
  | running (frame : Frame) (callers : List Frame) (phase : Phase) (mem : Memory)
  | returned (ret : ℤ) (mem : Memory)

/-- An error on its way through the callers: `arr_parse` makes every one `-EINVAL`. -/
def unwind (ret : ℤ) : List Frame → ℤ
  | [] => ret
  | .obj _ _ _ :: callers => unwind ret callers
  | .arr _ _ _ _ :: callers => unwind eInval callers

namespace Machine

/-- A call fails. -/
def fail (ret : ℤ) (callers : List Frame) (mem : Memory) : Machine := returned (unwind ret callers) mem

/-- A call returns to its caller. -/
def resume (ret : ℤ) (callers : List Frame) (mem : Memory) : Machine :=
  if ret < 0 then fail ret callers mem
  else match callers with
    | [] => returned ret mem
    | .obj descr val decodedFields :: callers =>
      running (.obj descr val decodedFields) callers .next mem
    | .arr elemDescr lastElem field val :: callers =>
      let elements := val + elemDescr.field.offset
      running (.arr elemDescr lastElem (field + getElemSize elemDescr) val) callers .next
        (mem.setSize elements (mem.size elements + 1))

/-- A value is decoded for the innermost of the callers. -/
def decode (descr : JsonObjDescr) (value : Token) (field val : ℤ) (callers : List Frame)
    (mem : Memory) : Machine :=
  if equivalentTypes value.type descr.type then
    match descr with
    | .object _ subDescr => running (.obj subDescr field 0) callers .next mem
    | .array _ elementDescr nElements =>
      running (.arr elementDescr (field + getElemSize elementDescr * nElements) field val) callers .next
        (mem.setSize (val + elementDescr.field.offset) 0)
    | .boolean _ => resume 0 callers (mem.setBool field (value.type = .true))
    | .number _ => resume (decodeNum value field mem).1 callers (decodeNum value field mem).2
    | .string _ => resume 0 callers (mem.setStr field value.text)
  else fail eInval callers mem

/-- The value of a member. -/
def member (descr : List JsonObjDescr) (val : ℤ) (decodedFields : ℕ) (callers : List Frame)
    (key : List UInt8) (value : Token) (mem : Memory) : Machine :=
  match findField decodedFields key 0 descr with
  | none => running (.obj descr val decodedFields) callers .next mem
  | some (i, field) =>
    decode field value (val + field.field.offset) val
      (.obj descr val (decodedFields ||| 1 <<< i) :: callers) mem

/-- An element of an array. -/
def element (elemDescr : JsonObjDescr) (lastElem field val : ℤ) (callers : List Frame)
    (value : Token) (mem : Memory) : Machine :=
  if elementToken value.type then
    if field = lastElem then fail eNoSpc callers mem
    else decode elemDescr value field val (.arr elemDescr lastElem field val :: callers) mem
  else fail eInval callers mem

/-- One token. -/
def step : Machine → Token → Machine
  | returned ret mem, _ => returned ret mem
  | running (.obj descr val decodedFields) callers phase mem, token =>
    let frame := Frame.obj descr val decodedFields
    match phase with
    | .next =>
      match token.type with
      | .objectEnd => resume decodedFields callers mem
      | .comma => running frame callers .afterComma mem
      | .string => running frame callers (.colon token.text) mem
      | _ => fail eInval callers mem
    | .afterComma =>
      if token.type = .string then running frame callers (.colon token.text) mem
      else fail eInval callers mem
    | .colon key =>
      if token.type = .colon then running frame callers (.value key) mem
      else fail eInval callers mem
    | .value key =>
      if elementToken token.type then member descr val decodedFields callers key token mem
      else fail eInval callers mem
  | running (.arr elemDescr lastElem field val) callers phase mem, token =>
    match phase with
    | .next =>
      match token.type with
      | .listEnd => resume 0 callers mem
      | .comma => running (.arr elemDescr lastElem field val) callers .afterComma mem
      | _ => element elemDescr lastElem field val callers token mem
    | .afterComma => element elemDescr lastElem field val callers token mem
    | _ => fail eInval callers mem

/-- A row of tokens. -/
def exec (machine : Machine) (toks : List Token) : Machine := toks.foldl step machine

/-- What is returned in the end: where the payload ends in a call, that call fails. -/
def result : Machine → ℤ × Memory
  | returned ret mem => (ret, mem)
  | running _ callers _ mem => (unwind eInval callers, mem)

@[simp] theorem exec_nil (machine : Machine) : machine.exec [] = machine := rfl

@[simp] theorem exec_cons (machine : Machine) (token : Token) (toks : List Token) :
    machine.exec (token :: toks) = (machine.step token).exec toks := rfl

theorem exec_append (machine : Machine) (toks toks' : List Token) :
    machine.exec (toks ++ toks') = (machine.exec toks).exec toks' :=
  List.foldl_append

@[simp] theorem exec_returned (ret : ℤ) (mem : Memory) (toks : List Token) :
    (returned ret mem).exec toks = returned ret mem := by
  induction toks with
  | nil => rfl
  | cons token toks ih => exact ih

@[simp] theorem exec_fail (ret : ℤ) (callers : List Frame) (mem : Memory) (toks : List Token) :
    (fail ret callers mem).exec toks = fail ret callers mem :=
  exec_returned _ _ _

/-- An array takes an element, at its start or after a comma. -/
theorem step_element {elemDescr : JsonObjDescr} {lastElem field val : ℤ} {callers : List Frame}
    {phase : Phase} {mem : Memory} {token : Token} (helem : elementToken token.type)
    (hphase : phase = .next ∨ phase = .afterComma) :
    step (running (.arr elemDescr lastElem field val) callers phase mem) token =
      element elemDescr lastElem field val callers token mem := by
  obtain ⟨type, text⟩ := token
  rcases hphase with rfl | rfl
  · cases type with
    | objectStart | listStart | string | number | true | false => rfl
    | _ => exact nomatch helem
  · rfl

theorem resume_obj (ret : ℕ) (descr : List JsonObjDescr) (val : ℤ) (decodedFields : ℕ)
    (callers : List Frame) (mem : Memory) :
    resume ret (.obj descr val decodedFields :: callers) mem =
      running (.obj descr val decodedFields) callers .next mem :=
  if_neg (Int.not_lt.mpr (Int.natCast_nonneg ret))

theorem resume_arr (ret : ℕ) (elemDescr : JsonObjDescr) (lastElem field val : ℤ)
    (callers : List Frame) (mem : Memory) :
    resume ret (.arr elemDescr lastElem field val :: callers) mem =
      running (.arr elemDescr lastElem (field + getElemSize elemDescr) val) callers .next
        (mem.setSize (val + elemDescr.field.offset) (mem.size (val + elemDescr.field.offset) + 1)) :=
  if_neg (Int.not_lt.mpr (Int.natCast_nonneg ret))

end Machine

section Refinement

open Machine

variable {toks : List Token} (descr : List JsonObjDescr) (elemDescr : JsonObjDescr)
  (val lastElem field : ℤ) (decodedFields : ℕ) (callers : List Frame) (mem : Memory)

theorem result_of_objValue_none {key : List UInt8} (h : objValue key toks = none) :
    (exec (running (.obj descr val decodedFields) callers (.colon key) mem) toks).result =
      (fail eInval callers mem).result := by
  match toks with
  | [] => rfl
  | [colon] =>
    rw [exec_cons, exec_nil, step]
    split
    · rfl
    · rfl
  | colon :: value :: toks =>
    rw [exec_cons, exec_cons, step]
    by_cases hcolon : colon.type = .colon
    · have helem : ¬elementToken value.type := by
        intro helem
        rw [objValue, if_pos ⟨hcolon, helem⟩] at h
        exact nomatch h
      rw [if_pos hcolon, step, if_neg helem, exec_fail]
    · rw [if_neg hcolon, ← exec_cons, exec_fail]

theorem of_objValue {key : List UInt8} {kv : KeyValue} {rest : List Token}
    (h : objValue key toks = some (kv, rest)) :
    kv.key = key ∧ elementToken kv.value.type ∧ ∃ text, toks = ⟨.colon, text⟩ :: kv.value :: rest := by
  match toks with
  | [] => exact nomatch h
  | [_] => exact nomatch h
  | ⟨type, text⟩ :: value :: toks =>
    rw [objValue, Option.ite_none_right_eq_some] at h
    obtain ⟨⟨rfl, helem⟩, heq⟩ := h
    obtain ⟨rfl, rfl⟩ := Prod.mk.inj (Option.some.inj heq)
    exact ⟨rfl, helem, text, rfl⟩

/-- The value of a member is an element, so it is not taken for the end of the object. -/
theorem exec_of_objValue {key : List UInt8} {kv : KeyValue} {rest : List Token}
    (h : objValue key toks = some (kv, rest)) :
    rest.length < toks.length ∧
    exec (running (.obj descr val decodedFields) callers (.colon key) mem) toks =
      exec (if kv.value.type = .objectEnd then resume decodedFields callers mem
        else member descr val decodedFields callers kv.key kv.value mem) rest := by
  obtain ⟨rfl, helem, text, rfl⟩ := of_objValue h
  have hend : kv.value.type ≠ .objectEnd := by
    intro hend
    rw [hend] at helem
    exact nomatch helem
  constructor
  · rw [List.length_cons, List.length_cons]
    omega
  · rw [exec_cons, exec_cons, step, if_pos rfl, step, if_pos helem, if_neg hend]

/-- Where `obj_next` finds nothing, the call fails. -/
theorem result_of_objNext_none (h : objNext toks = none) :
    (exec (running (.obj descr val decodedFields) callers .next mem) toks).result =
      (fail eInval callers mem).result := by
  match toks with
  | [] => rfl
  | ⟨type, text⟩ :: toks =>
    cases type with
    | objectEnd => exact nomatch h
    | string => exact result_of_objValue_none descr val decodedFields callers mem h
    | comma =>
      cases toks with
      | nil => rfl
      | cons token toks =>
        simp only [objNext] at h
        rw [exec_cons, exec_cons, step, step]
        by_cases hstring : token.type = .string
        · rw [if_pos hstring] at h ⊢
          exact result_of_objValue_none descr val decodedFields callers mem h
        · rw [if_neg hstring, exec_fail]
    | _ => exact congrArg result (exec_fail eInval callers mem toks)

/-- Where `obj_next` finds the end or a member, so does the machine. -/
theorem exec_of_objNext {kv : KeyValue} {rest : List Token} (h : objNext toks = some (kv, rest)) :
    rest.length < toks.length ∧
    exec (running (.obj descr val decodedFields) callers .next mem) toks =
      exec (if kv.value.type = .objectEnd then resume decodedFields callers mem
        else member descr val decodedFields callers kv.key kv.value mem) rest := by
  match toks with
  | [] => exact nomatch h
  | ⟨type, text⟩ :: toks =>
    cases type with
    | objectEnd =>
      obtain ⟨rfl, rfl⟩ := Prod.mk.inj (Option.some.inj h)
      exact ⟨Nat.lt_succ_self _, rfl⟩
    | string =>
      have hvalue := exec_of_objValue descr val decodedFields callers mem h
      exact ⟨Nat.lt_succ_of_lt hvalue.1, hvalue.2⟩
    | comma =>
      cases toks with
      | nil => exact nomatch h
      | cons token toks =>
        simp only [objNext, Option.ite_none_right_eq_some] at h
        have hvalue := exec_of_objValue descr val decodedFields callers mem h.2
        rw [exec_cons, exec_cons, step, step, if_pos h.1]
        exact ⟨Nat.lt_succ_of_lt (Nat.lt_succ_of_lt hvalue.1), hvalue.2⟩
    | _ => exact nomatch h

theorem result_of_arrNext_none (h : arrNext toks = none) :
    (exec (running (.arr elemDescr lastElem field val) callers .next mem) toks).result =
      (fail eInval callers mem).result := by
  match toks with
  | [] => rfl
  | ⟨type, text⟩ :: toks =>
    cases type with
    | comma =>
      cases toks with
      | nil => rfl
      | cons token toks =>
        simp only [arrNext] at h
        have helem : ¬elementToken token.type := by
          intro helem
          rw [if_pos helem] at h
          exact nomatch h
        rw [exec_cons, exec_cons, step, step]
        simp only [element, if_neg helem, exec_fail]
    | objectEnd | colon | null | error => exact congrArg result (exec_fail eInval callers mem toks)
    | _ => exact nomatch h

theorem exec_of_arrNext {value : Token} {rest : List Token} (h : arrNext toks = some (value, rest)) :
    rest.length < toks.length ∧ (value.type ≠ .listEnd → elementToken value.type) ∧
    exec (running (.arr elemDescr lastElem field val) callers .next mem) toks =
      exec (if value.type = .listEnd then resume 0 callers mem
        else element elemDescr lastElem field val callers value mem) rest := by
  match toks with
  | [] => exact nomatch h
  | ⟨type, text⟩ :: toks =>
    cases type with
    | comma =>
      cases toks with
      | nil => exact nomatch h
      | cons token toks =>
        simp only [arrNext, Option.ite_none_right_eq_some] at h
        obtain ⟨helem, heq⟩ := h
        obtain ⟨rfl, rfl⟩ := Prod.mk.inj (Option.some.inj heq)
        have hend : token.type ≠ .listEnd := by
          intro hend
          rw [hend] at helem
          exact nomatch helem
        rw [if_neg hend]
        exact ⟨Nat.lt_succ_of_lt (Nat.lt_succ_self _), fun _ => helem, rfl⟩
    | objectEnd | colon | null | error => exact nomatch h
    | _ =>
      obtain ⟨rfl, rfl⟩ := Prod.mk.inj (Option.some.inj h)
      exact ⟨Nat.lt_succ_self _, fun hne => by first | rfl | exact absurd rfl hne, rfl⟩

variable {callers mem} in
theorem resume_neg {ret : ℤ} (h : ret < 0) : resume ret callers mem = fail ret callers mem := if_pos h

/-- What a function of the parser does to the machine that has called it. -/
structure Refines (machine : Machine) (callers : List Frame) (toks : List Token) (parsed : Parsed) :
    Prop where
  le : parsed.toks.length ≤ toks.length
  result : (machine.exec toks).result = ((resume parsed.ret callers parsed.mem).exec parsed.toks).result

variable {callers} in
/-- A call that goes on after a value has been decoded for it. -/
theorem Refines.trans {machine machine' next : Machine} {callers' : List Frame}
    {toks' : List Token} {parsed parsed' : Parsed} (h : Refines machine callers' toks parsed)
    (hnext : resume parsed.ret callers' parsed.mem = next)
    (h' : Refines next callers parsed.toks parsed') (hlt : toks.length < toks'.length)
    (hexec : machine'.exec toks' = machine.exec toks) : Refines machine' callers toks' parsed' := by
  constructor
  · exact Nat.le_trans (Nat.le_trans h'.le h.le) (Nat.le_of_lt hlt)
  · rw [hexec, h.result, hnext, h'.result]

variable {callers} in
/-- A call that fails after a value has not been decoded for it. -/
theorem Refines.fail {machine machine' : Machine} {callers' : List Frame} {toks' : List Token}
    {parsed : Parsed} {ret : ℤ} (h : Refines machine callers' toks parsed) (hneg : parsed.ret < 0)
    (hret : ret < 0) (hunwind : unwind parsed.ret callers' = unwind ret callers)
    (hlt : toks.length < toks'.length) (hexec : machine'.exec toks' = machine.exec toks) :
    Refines machine' callers toks' ⟨ret, parsed.toks, parsed.mem⟩ := by
  constructor
  · exact Nat.le_trans h.le (Nat.le_of_lt hlt)
  · rw [hexec, h.result, resume_neg hneg, resume_neg hret, exec_fail, exec_fail, Machine.fail, hunwind,
      Machine.fail]

/-- The machine does what the parser does, and the parser does not run out of fuel. -/
theorem parser_refines (fuel : ℕ) :
    (∀ descr value field val callers toks mem, 2 * toks.length + 2 ≤ fuel →
      ∃ parsed, decodeValue fuel descr value field val toks mem = some parsed ∧
        Refines (decode descr value field val callers mem) callers toks parsed) ∧
    (∀ elemDescr lastElem field val callers toks mem, 2 * toks.length + 1 ≤ fuel →
      ∃ parsed, arrParse fuel elemDescr lastElem field val toks mem = some parsed ∧
        Refines (running (.arr elemDescr lastElem field val) callers .next mem) callers toks parsed) ∧
    (∀ descr val decodedFields callers toks mem, 2 * toks.length + 1 ≤ fuel →
      ∃ parsed, objParse fuel descr val decodedFields toks mem = some parsed ∧
        Refines (running (.obj descr val decodedFields) callers .next mem) callers toks parsed) := by
  induction fuel with
  | zero => exact ⟨fun _ _ _ _ _ _ _ h => by omega, fun _ _ _ _ _ _ _ h => by omega,
      fun _ _ _ _ _ _ h => by omega⟩
  | succ fuel ih =>
    obtain ⟨hdecode, harr, hobj⟩ := ih
    refine ⟨?_, ?_, ?_⟩
    · intro descr value field val callers toks mem hfuel
      by_cases htypes : equivalentTypes value.type descr.type
      · cases descr with
        | object _ subDescr =>
          rw [decodeValue, decode, if_pos htypes, if_pos htypes]
          exact hobj subDescr field 0 callers toks mem (by omega)
        | array _ elementDescr nElements =>
          rw [decodeValue, decode, if_pos htypes, if_pos htypes]
          exact harr elementDescr _ field val callers toks _ (by omega)
        | number _ | boolean _ | string _ =>
          rw [decodeValue, decode, if_pos htypes, if_pos htypes]
          exact ⟨_, rfl, Nat.le_refl _, rfl⟩
      · refine ⟨⟨eInval, toks, mem⟩, ?_, Nat.le_refl _, ?_⟩
        · cases descr with
          | _ => rw [decodeValue, if_neg htypes]
        · rw [decode.eq_def, if_neg htypes]
          rfl
    · intro elemDescr lastElem field val callers toks mem hfuel
      rw [arrParse]
      cases hnext : arrNext toks with
      | none =>
        exact ⟨_, rfl, Nat.zero_le _, result_of_arrNext_none elemDescr val lastElem field callers mem hnext⟩
      | some valuetoks =>
        obtain ⟨value, rest⟩ := valuetoks
        obtain ⟨hlt, helem, hexec⟩ :=
          exec_of_arrNext elemDescr val lastElem field callers mem hnext
        dsimp only
        by_cases hend : value.type = .listEnd
        · rw [if_pos hend] at hexec ⊢
          exact ⟨_, rfl, Nat.le_of_lt hlt, congrArg result hexec⟩
        rw [if_neg hend, element, if_pos (helem hend)] at hexec
        rw [if_neg hend]
        by_cases hlast : field = lastElem
        · rw [if_pos hlast] at hexec ⊢
          exact ⟨_, rfl, Nat.le_of_lt hlt, congrArg result hexec⟩
        rw [if_neg hlast] at hexec ⊢
        obtain ⟨parsed, hparsed, href⟩ := hdecode elemDescr value field val
          (.arr elemDescr lastElem field val :: callers) rest mem (by omega)
        rw [hparsed, Option.bind_eq_bind, Option.bind_some]
        by_cases hneg : parsed.ret < 0
        · exact ⟨_, if_pos hneg, href.fail hneg (by decide) rfl hlt hexec⟩
        · obtain ⟨parsed', hparsed', href'⟩ := harr elemDescr lastElem (field + getElemSize elemDescr) val
            callers parsed.toks (parsed.mem.setSize (val + elemDescr.field.offset)
              (parsed.mem.size (val + elemDescr.field.offset) + 1)) (by have := href.le; omega)
          exact ⟨parsed', (if_neg hneg).trans hparsed', href.trans (if_neg hneg) href' hlt hexec⟩
    · intro descr val decodedFields callers toks mem hfuel
      rw [objParse]
      cases hnext : objNext toks with
      | none =>
        exact ⟨_, rfl, Nat.zero_le _,
          result_of_objNext_none descr val decodedFields callers mem hnext⟩
      | some kvtoks =>
        obtain ⟨kv, rest⟩ := kvtoks
        obtain ⟨hlt, hexec⟩ := exec_of_objNext descr val decodedFields callers mem hnext
        dsimp only
        by_cases hend : kv.value.type = .objectEnd
        · rw [if_pos hend] at hexec ⊢
          exact ⟨_, rfl, Nat.le_of_lt hlt, congrArg result hexec⟩
        rw [if_neg hend, member] at hexec
        rw [if_neg hend]
        cases hfind : findField decodedFields kv.key 0 descr with
        | none =>
          rw [hfind] at hexec
          obtain ⟨parsed, hparsed, href⟩ := hobj descr val decodedFields callers rest mem (by omega)
          exact ⟨parsed, hparsed, Nat.le_trans href.le (Nat.le_of_lt hlt),
            (congrArg result hexec).trans href.result⟩
        | some found =>
          obtain ⟨i, field⟩ := found
          rw [hfind] at hexec
          obtain ⟨parsed, hparsed, href⟩ := hdecode field kv.value (val + field.field.offset) val
            (.obj descr val (decodedFields ||| 1 <<< i) :: callers) rest mem (by omega)
          dsimp only
          rw [hparsed, Option.bind_eq_bind, Option.bind_some]
          by_cases hneg : parsed.ret < 0
          · exact ⟨_, if_pos hneg, href.fail hneg hneg rfl hlt hexec⟩
          · obtain ⟨parsed', hparsed', href'⟩ := hobj descr val (decodedFields ||| 1 <<< i) callers
              parsed.toks parsed.mem (by have := href.le; omega)
            exact ⟨parsed', (if_neg hneg).trans hparsed', href.trans (if_neg hneg) href' hlt hexec⟩

/-- `json_obj_parse`, on the machine -/
theorem jsonObjParse_eq (payload : List UInt8) (descr : List JsonObjDescr) (val : ℤ) (mem : Memory) :
    jsonObjParse payload descr val mem = some (match lexer payload with
      | [] => (eInval, mem)
      | token :: toks =>
        if token.type = .objectStart then ((running (.obj descr val 0) [] .next mem).exec toks).result
        else (eInval, mem)) := by
  rw [jsonObjParse]
  cases lexer payload with
  | nil => rfl
  | cons token toks =>
    dsimp only
    by_cases hstart : token.type = .objectStart
    · rw [if_pos hstart, if_pos hstart]
      obtain ⟨parsed, hparsed, href⟩ :=
        (parser_refines (2 * toks.length + 1)).2.2 descr val 0 [] toks mem (Nat.le_refl _)
      rw [hparsed, href.result, resume]
      split
      · rw [exec_fail]
        rfl
      · rw [exec_returned]
        rfl
    · rw [if_neg hstart, if_neg hstart]

end Refinement

end FrameworkBenchmarks.Lwan
