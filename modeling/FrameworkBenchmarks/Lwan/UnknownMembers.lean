import FrameworkBenchmarks.Lwan.JsonMachine
import FrameworkBenchmarks.Lwan.JsonText

/-!
# Members that the descriptor does not know

The parser reads on after the first token of a value it does not know. A value that is one token is
thereby skipped. The tokens of an array or of an object are read as members of the object around it,
whose call ends at the first closing bracket: however the names inside and outside coincide, the calls
under way are never more than the brackets that are open.
-/

namespace FrameworkBenchmarks.Lwan

open Common (ascii)
open Machine

/-- Nothing is under way but calls that read on, at most `n`. -/
def Settled (n : ℕ) : Machine → Prop
  | returned _ _ => True
  | running _ callers phase _ => phase = .next ∧ callers.length + 1 ≤ n

/-- As between two elements: a string that is read as a key still waits for its colon. -/
def Resting (n : ℕ) : Machine → Prop
  | returned _ _ => True
  | running _ callers phase _ =>
    (phase = .next ∨ ∃ key, phase = .colon key) ∧ callers.length + 1 ≤ n

/-- A call that takes a value. -/
def Ready : Frame → Phase → Prop
  | .obj _ _ _, .value _ => True
  | .arr _ _ _ _, .next => True
  | .arr _ _ _ _, .afterComma => True
  | _, _ => False

/-- The types of the first tokens of values. -/
def StartsValue (type : JsonTokens) : Prop := elementToken type ∨ type = .null

section Calls

variable {n : ℕ} {callers : List Frame} {mem : Memory} {token : Token}

theorem Settled.mono {m : ℕ} {machine : Machine} (h : Settled n machine) (hle : n ≤ m) :
    Settled m machine := by
  cases machine with
  | returned ret mem => trivial
  | running frame callers phase mem => exact ⟨h.1, Nat.le_trans h.2 hle⟩

theorem Settled.resting {machine : Machine} (h : Settled n machine) : Resting n machine := by
  cases machine with
  | returned ret mem => trivial
  | running frame callers phase mem => exact ⟨.inl h.1, h.2⟩

theorem settled_fail (ret : ℤ) : Settled n (fail ret callers mem) := trivial

theorem settled_resume (ret : ℤ) (h : callers.length ≤ n) : Settled n (resume ret callers mem) := by
  rw [resume.eq_def]
  split
  · exact settled_fail ret
  · cases callers with
    | nil => trivial
    | cons frame callers =>
      cases frame with
      | obj descr val decodedFields => exact ⟨rfl, h⟩
      | arr elemDescr lastElem field val => exact ⟨rfl, h⟩

theorem settled_decode (descr : JsonObjDescr) (field val : ℤ) (h : callers.length ≤ n) :
    Settled (n + 1) (decode descr token field val callers mem) := by
  rw [decode.eq_def]
  split
  · cases descr with
    | object _ subDescr => exact ⟨rfl, Nat.succ_le_succ h⟩
    | array _ elementDescr nElements => exact ⟨rfl, Nat.succ_le_succ h⟩
    | number _ | boolean _ | string _ => exact settled_resume _ (Nat.le_succ_of_le h)
  · exact settled_fail _

theorem eq_of_equivalentTypes {type type' : JsonTokens} (h : equivalentTypes type type')
    (htype' : type' = .objectStart ∨ type' = .listStart) : type = type' := by
  rw [equivalentTypes] at h
  split at h
  · rcases htype' with rfl | rfl
    · exact nomatch h
    · exact nomatch h
  · exact of_decide_eq_true h

theorem settled_decode_scalar (descr : JsonObjDescr) (field val : ℤ) (h : callers.length ≤ n)
    (hscalar : token.type ≠ .objectStart ∧ token.type ≠ .listStart) :
    Settled n (decode descr token field val callers mem) := by
  rw [decode.eq_def]
  split
  case isTrue htypes =>
    cases descr with
    | object _ subDescr => exact absurd (eq_of_equivalentTypes htypes (.inl rfl)) hscalar.1
    | array _ elementDescr nElements => exact absurd (eq_of_equivalentTypes htypes (.inr rfl)) hscalar.2
    | number _ | boolean _ | string _ => exact settled_resume _ h
  case isFalse => exact settled_fail _

/-- An array takes a value for an element. -/
theorem step_arr {elemDescr : JsonObjDescr} {lastElem field val : ℤ} (hstarts : StartsValue token.type) :
    step (running (.arr elemDescr lastElem field val) callers .next mem) token =
      element elemDescr lastElem field val callers token mem := by
  obtain ⟨type, text⟩ := token
  cases type with
  | listEnd | comma => simp [StartsValue, elementToken] at hstarts
  | _ => rfl

/-- What a value opens is what its decoding opens. -/
theorem settled_step_of_decode {m : ℕ} {frame : Frame} {phase : Phase} (hready : Ready frame phase)
    (hstarts : StartsValue token.type) (h : callers.length + 1 ≤ n) (hle : n ≤ m)
    (hdecode : ∀ descr field val (callers' : List Frame), callers'.length ≤ n →
      Settled m (decode descr token field val callers' mem)) :
    Settled m (step (running frame callers phase mem) token) := by
  cases frame with
  | obj descr val decodedFields =>
    cases phase with
    | value key =>
      rw [step]
      split
      · rw [member.eq_def]
        split
        · exact ⟨rfl, Nat.le_trans h hle⟩
        · exact hdecode _ _ _ _ h
      · exact settled_fail _
    | _ => cases hready
  | arr elemDescr lastElem field val =>
    have helement : Settled m (element elemDescr lastElem field val callers token mem) := by
      rw [element]
      split
      · split
        · exact settled_fail _
        · exact hdecode _ _ _ _ h
      · exact settled_fail _
    cases phase with
    | next =>
      rw [step_arr hstarts]
      exact helement
    | afterComma => exact helement
    | _ => cases hready

/-- A value opens one call at most. -/
theorem settled_step (token : Token) (mem : Memory) {frame : Frame} {phase : Phase}
    (hready : Ready frame phase) (hstarts : StartsValue token.type) (h : callers.length + 1 ≤ n) :
    Settled (n + 1) (step (running frame callers phase mem) token) :=
  settled_step_of_decode hready hstarts h (Nat.le_succ n) fun descr field val _ =>
    settled_decode descr field val

/-- A value of one token opens none. -/
theorem settled_step_scalar {frame : Frame} {phase : Phase} (hready : Ready frame phase)
    (hstarts : StartsValue token.type)
    (hscalar : token.type ≠ .objectStart ∧ token.type ≠ .listStart) (h : callers.length + 1 ≤ n) :
    Settled n (step (running frame callers phase mem) token) :=
  settled_step_of_decode hready hstarts h (Nat.le_refl n) fun descr field val _ hcallers =>
    settled_decode_scalar descr field val hcallers hscalar

/-- A closing bracket ends a call. -/
theorem settled_close {machine : Machine} (hmachine : Resting (n + 1) machine)
    (hclose : token.type = .objectEnd ∨ token.type = .listEnd) : Settled n (machine.step token) := by
  obtain ⟨type, text⟩ := token
  cases machine with
  | returned ret mem => trivial
  | running frame callers phase mem =>
    obtain ⟨hphase, hle⟩ := hmachine
    have hcallers : callers.length ≤ n := Nat.le_of_succ_le_succ hle
    rcases hphase with rfl | ⟨key, rfl⟩
    · cases frame with
      | obj descr val decodedFields =>
        rcases hclose with rfl | rfl
        · exact settled_resume _ hcallers
        · exact settled_fail _
      | arr elemDescr lastElem field val =>
        rcases hclose with rfl | rfl
        · exact settled_fail _
        · exact settled_resume _ hcallers
    · cases frame with
      | obj descr val decodedFields =>
        rcases hclose with rfl | rfl
        · exact settled_fail _
        · exact settled_fail _
      | arr elemDescr lastElem field val => exact settled_fail _

/-- After a value there is no colon, and nowhere an error. -/
theorem settled_stray {machine : Machine} (hmachine : Settled n machine)
    (hstray : token.type = .colon ∨ token.type = .error) : Settled 0 (machine.step token) := by
  obtain ⟨type, text⟩ := token
  cases machine with
  | returned ret mem => trivial
  | running frame callers phase mem =>
    obtain ⟨rfl, hle⟩ := hmachine
    cases frame with
    | obj descr val decodedFields =>
      rcases hstray with rfl | rfl
      · exact settled_fail _
      · exact settled_fail _
    | arr elemDescr lastElem field val =>
      rcases hstray with rfl | rfl
      · exact settled_fail _
      · exact settled_fail _

/-- The comma before the first value makes no difference. -/
theorem exec_comma {machine : Machine} (hmachine : Settled n machine) (hstarts : StartsValue token.type)
    (toks : List Token) : machine.exec (commaToken :: token :: toks) = machine.exec (token :: toks) := by
  cases machine with
  | returned ret mem => rfl
  | running frame callers phase mem =>
    obtain ⟨rfl, hle⟩ := hmachine
    cases frame with
    | obj descr val decodedFields =>
      obtain ⟨type, text⟩ := token
      cases type with
      | objectEnd | comma => simp [StartsValue, elementToken] at hstarts
      | _ => rfl
    | arr elemDescr lastElem field val =>
      rw [exec_cons, exec_cons, exec_cons, step_arr hstarts]
      rfl

end Calls

section Texts

theorem settled_zero {machine : Machine} (h : Settled 0 machine) : ∃ ret mem, machine = returned ret mem := by
  cases machine with
  | returned ret mem => exact ⟨ret, mem, rfl⟩
  | running frame callers phase mem => exact absurd h.2 (Nat.not_succ_le_zero _)

/-- What has returned stays so. -/
theorem settled_exec_zero {machine : Machine} (h : Settled 0 machine) (n : ℕ) (toks : List Token) :
    Settled n (machine.exec toks) := by
  obtain ⟨ret, mem, rfl⟩ := settled_zero h
  rw [exec_returned]
  trivial

/-- The first token of a value. -/
theorem tokens_eq_cons (value : JsonText) :
    ∃ token toks, value.tokens = token :: toks ∧ StartsValue token.type := by
  cases value with
  | null => exact ⟨_, _, rfl, .inr rfl⟩
  | boolean b =>
    cases b with
    | false => exact ⟨_, _, rfl, .inl rfl⟩
    | true => exact ⟨_, _, rfl, .inl rfl⟩
  | number n => exact ⟨_, _, rfl, .inl rfl⟩
  | string s => exact ⟨_, _, rfl, .inl rfl⟩
  | array blank elements => exact ⟨_, _, rfl, .inl rfl⟩
  | object blank members => exact ⟨_, _, rfl, .inl rfl⟩

theorem exec_elements_tail {n : ℕ} {machine : Machine} (hmachine : Settled n machine)
    (elements : List (Element JsonText)) :
    machine.exec (elementsTokens elements).tail = machine.exec (elementsTokens elements) := by
  cases elements with
  | nil => rfl
  | cons element elements =>
    obtain ⟨token, toks, htokens, hstarts⟩ := tokens_eq_cons element.value
    rw [elementsTokens, htokens]
    exact (exec_comma hmachine hstarts _).symm

theorem exec_members_tail {n : ℕ} {machine : Machine} (hmachine : Settled n machine)
    (members : List (Member JsonText)) :
    machine.exec (membersTokens members).tail = machine.exec (membersTokens members) := by
  cases members with
  | nil => rfl
  | cons member members => exact (exec_comma hmachine (.inl rfl) _).symm

mutual

/-- A value leaves no more calls under way than there were. -/
theorem settled_value : ∀ (value : JsonText) {n : ℕ} {frame : Frame} {callers : List Frame}
    {phase : Phase} {mem : Memory}, Ready frame phase → callers.length + 1 ≤ n →
    Settled n ((running frame callers phase mem).exec value.tokens)
  | .null, _, _, _, _, _, hready, h => settled_step_scalar hready (.inr rfl) (by decide) h
  | .boolean true, _, _, _, _, _, hready, h => settled_step_scalar hready (.inl rfl) (by decide) h
  | .boolean false, _, _, _, _, _, hready, h => settled_step_scalar hready (.inl rfl) (by decide) h
  | .string s, _, _, _, _, _, hready, h => settled_step_scalar hready (.inl rfl) (by simp) h
  | .number number, n, frame, callers, phase, mem, hready, h => by
    rw [JsonText.tokens, exec_cons]
    have hnumber : Settled n (step (running frame callers phase mem) ⟨.number, number.mantissa⟩) :=
      settled_step_scalar hready (.inl rfl) (by simp) h
    cases number.exponent with
    | none => exact hnumber
    | some e => exact (settled_stray hnumber (.inr rfl)).mono (Nat.zero_le n)
  | .array blank elements, _, _, _, _, mem, hready, h => by
    have hopen := settled_step ⟨.listStart, [91]⟩ mem hready (.inl rfl) h
    rw [JsonText.tokens, exec_cons, exec_append, exec_elements_tail hopen]
    exact settled_close (resting_elements elements hopen.resting) (.inr rfl)
  | .object blank members, _, _, _, _, mem, hready, h => by
    have hopen := settled_step ⟨.objectStart, [123]⟩ mem hready (.inl rfl) h
    rw [JsonText.tokens, exec_cons, exec_append, exec_members_tail hopen]
    exact settled_close (settled_members members hopen).resting (.inl rfl)

theorem resting_elements : ∀ (elements : List (Element JsonText)) {n : ℕ} {machine : Machine},
    Resting n machine → Resting n (machine.exec (elementsTokens elements))
  | [], _, _, h => h
  | ⟨_, value, _⟩ :: elements, n, machine, h => by
    rw [elementsTokens, exec_cons, exec_append]
    apply resting_elements elements
    cases machine with
    | returned ret mem =>
      rw [step, exec_returned]
      trivial
    | running frame callers phase mem =>
      obtain ⟨hphase, hle⟩ := h
      cases frame with
      | arr elemDescr lastElem field val =>
        rcases hphase with rfl | ⟨key, rfl⟩
        · apply Settled.resting
          exact settled_value value trivial hle
        · exact (settled_exec_zero (settled_fail eInval) n _).resting
      | obj descr val decodedFields =>
        rcases hphase with rfl | ⟨key, rfl⟩
        · -- a string is taken for a key, anything else is an error
          cases value with
          | string s => exact ⟨.inr ⟨s.bytes, rfl⟩, hle⟩
          | boolean b =>
            cases b with
            | false => trivial
            | true => trivial
          | null => trivial
          | _ => exact (settled_exec_zero (settled_fail eInval) n _).resting
        · exact (settled_exec_zero (settled_fail eInval) n _).resting

theorem settled_members : ∀ (members : List (Member JsonText)) {n : ℕ} {machine : Machine},
    Settled n machine → Settled n (machine.exec (membersTokens members))
  | [], _, _, h => h
  | ⟨_, key, _, _, value, _⟩ :: members, n, machine, h => by
    rw [membersTokens, exec_cons, exec_cons, exec_cons, exec_append]
    apply settled_members members
    cases machine with
    | returned ret mem =>
      rw [step, step, step, exec_returned]
      trivial
    | running frame callers phase mem =>
      obtain ⟨rfl, hle⟩ := h
      cases frame with
      | obj descr val decodedFields => exact settled_value value trivial hle
      | arr elemDescr lastElem field val =>
        -- the key is taken for an element, and the colon after it is an error
        have helement : Settled n (step (running (.arr elemDescr lastElem field val) callers
            .afterComma mem) ⟨.string, key.bytes⟩) :=
          settled_step_scalar trivial (.inl rfl) (by simp) hle
        exact settled_exec_zero (settled_stray helement (.inl rfl)) n _

end

end Texts

section Outermost

variable {descr : List JsonObjDescr} {val : ℤ} {callers : List Frame} {mem : Memory}

/-- The outermost call is the one of the descriptor. -/
def Outermost (descr : List JsonObjDescr) (val : ℤ) (stack : List Frame) : Prop :=
  ∃ decodedFields, stack.getLast? = some (.obj descr val decodedFields)

/-- So it stays until everything has returned. -/
def KeepsOutermost (descr : List JsonObjDescr) (val : ℤ) : Machine → Prop
  | returned _ _ => True
  | running frame callers _ _ => Outermost descr val (frame :: callers)

theorem Outermost.tail {frame : Frame} (h : Outermost descr val (frame :: callers)) :
    callers = [] ∨ Outermost descr val callers := by
  cases callers with
  | nil => exact .inl rfl
  | cons caller callers =>
    obtain ⟨decodedFields, hlast⟩ := h
    exact .inr ⟨decodedFields, List.getLast?_cons_cons.symm.trans hlast⟩

theorem Outermost.cons (h : Outermost descr val callers) (frame : Frame) :
    Outermost descr val (frame :: callers) := by
  cases callers with
  | nil =>
    obtain ⟨decodedFields, hlast⟩ := h
    exact nomatch hlast
  | cons caller callers =>
    obtain ⟨decodedFields, hlast⟩ := h
    exact ⟨decodedFields, List.getLast?_cons_cons.trans hlast⟩

theorem Outermost.mark {descr' : List JsonObjDescr} {val' : ℤ} {decodedFields : ℕ}
    (h : Outermost descr val (.obj descr' val' decodedFields :: callers)) (decodedFields' : ℕ) :
    Outermost descr val (.obj descr' val' decodedFields' :: callers) := by
  rcases h.tail with rfl | hcallers
  · obtain ⟨_, hlast⟩ := h
    cases hlast
    exact ⟨decodedFields', rfl⟩
  · exact hcallers.cons _

theorem Outermost.advance {elemDescr : JsonObjDescr} {lastElem field val' : ℤ}
    (h : Outermost descr val (.arr elemDescr lastElem field val' :: callers)) (frame : Frame) :
    Outermost descr val (frame :: callers) := by
  rcases h.tail with rfl | hcallers
  · obtain ⟨_, hlast⟩ := h
    exact nomatch hlast
  · exact hcallers.cons _

theorem keepsOutermost_resume (ret : ℤ) (h : callers = [] ∨ Outermost descr val callers) :
    KeepsOutermost descr val (resume ret callers mem) := by
  rw [resume.eq_def]
  split
  · trivial
  · rcases h with rfl | h
    · trivial
    · cases callers with
      | nil => trivial
      | cons frame callers =>
        cases frame with
        | obj descr' val' decodedFields => exact h
        | arr elemDescr lastElem field val' => exact h.advance _

theorem keepsOutermost_decode (field : JsonObjDescr) (token : Token) (addr val' : ℤ)
    (h : Outermost descr val callers) :
    KeepsOutermost descr val (decode field token addr val' callers mem) := by
  rw [decode.eq_def]
  split
  · cases field with
    | object _ subDescr => exact h.cons _
    | array _ elementDescr nElements => exact h.cons _
    | number _ | boolean _ | string _ => exact keepsOutermost_resume _ (.inr h)
  · trivial

theorem keepsOutermost_element {elemDescr : JsonObjDescr} {lastElem field val' : ℤ} (token : Token)
    (h : Outermost descr val (.arr elemDescr lastElem field val' :: callers)) :
    KeepsOutermost descr val (element elemDescr lastElem field val' callers token mem) := by
  rw [element]
  split
  · split
    · trivial
    · exact keepsOutermost_decode _ _ _ _ h
  · trivial

theorem keepsOutermost_step {machine : Machine} (h : KeepsOutermost descr val machine) (token : Token) :
    KeepsOutermost descr val (machine.step token) := by
  cases machine with
  | returned ret mem => trivial
  | running frame callers phase mem =>
    cases frame with
    | obj descr' val' decodedFields =>
      cases phase with
      | next =>
        rw [step.eq_def]
        dsimp only
        split
        · exact keepsOutermost_resume _ h.tail
        · exact h
        · exact h
        · trivial
      | afterComma =>
        rw [step]
        split
        · exact h
        · trivial
      | colon key =>
        rw [step]
        split
        · exact h
        · trivial
      | value key =>
        rw [step]
        split
        · rw [member.eq_def]
          split
          · exact h
          · exact keepsOutermost_decode _ _ _ _ (h.mark _)
        · trivial
    | arr elemDescr lastElem field val' =>
      cases phase with
      | next =>
        rw [step.eq_def]
        dsimp only
        split
        · exact keepsOutermost_resume _ h.tail
        · exact h
        · exact keepsOutermost_element token h
      | afterComma => exact keepsOutermost_element token h
      | colon key => trivial
      | value key => trivial

theorem keepsOutermost_exec {machine : Machine} (h : KeepsOutermost descr val machine)
    (toks : List Token) : KeepsOutermost descr val (machine.exec toks) := by
  induction toks generalizing machine with
  | nil => exact h
  | cons token toks ih => exact ih (keepsOutermost_step h token)

variable (descr val) in
/-- Between two members of the object itself the parser has returned, or it is in the call for it. -/
theorem exec_members_cases (members : List (Member JsonText)) (decodedFields : ℕ) (mem : Memory) :
    let machine := (running (.obj descr val decodedFields) [] .next mem).exec (membersTokens members)
    (∃ ret mem, machine = returned ret mem) ∨
      ∃ decodedFields mem, machine = running (.obj descr val decodedFields) [] .next mem := by
  intro machine
  have hsettled : Settled 1 machine := settled_members members ⟨rfl, Nat.le_refl 1⟩
  have hstart : KeepsOutermost descr val (running (.obj descr val decodedFields) [] .next mem) :=
    ⟨decodedFields, rfl⟩
  have hkeeps : KeepsOutermost descr val machine := keepsOutermost_exec hstart _
  revert hsettled hkeeps
  cases machine with
  | returned ret mem => exact fun _ _ => .inl ⟨ret, mem, rfl⟩
  | running frame callers phase mem =>
    rintro ⟨rfl, hle⟩ hkeeps
    obtain rfl : callers = [] := List.length_eq_zero_iff.mp (by omega)
    obtain ⟨decodedFields, hlast⟩ := hkeeps
    obtain rfl : frame = .obj descr val decodedFields := Option.some.inj hlast
    exact .inr ⟨decodedFields, mem, rfl⟩

end Outermost

/-- The text of an object, with white space around it. -/
def objectText (before blank : Blank) (members : List (Member JsonText)) (after : Blank) : List UInt8 :=
  before.bytes ++ ((JsonText.object blank members).bytes ++ after.bytes)

/-- The key is the name of no field. -/
def UnknownKey (descr : List JsonObjDescr) (key : StringText) : Prop :=
  ∀ field ∈ descr, ¬(key.bytes.length = field.field.fieldNameLen ∧ key.bytes = field.name)

/-- The value is one token that the parser takes for a value. -/
def JsonText.OneToken : JsonText → Prop
  | .string _ | .boolean _ => True
  | .number n => n.exponent = none
  | _ => False

section Insertion

variable {descr : List JsonObjDescr} {val : ℤ} {mem : Memory}

theorem findField_unknown {key : StringText} (h : UnknownKey descr key) (decodedFields i : ℕ) :
    findField decodedFields key.bytes i descr = none := by
  induction descr generalizing i with
  | nil => rfl
  | cons field descr ih =>
    have htail := ih (fun field' hmem => h field' (List.mem_cons_of_mem _ hmem)) (i + 1)
    rw [findField]
    split
    · exact htail
    · split
      · exact htail
      · split
        · exact htail
        case isFalse hlen hname =>
          exact absurd ⟨not_not.mp hlen, not_not.mp hname⟩ (h field List.mem_cons_self)

/-- An error in the payload ends every call. -/
theorem settled_error (machine : Machine) {token : Token} (h : token.type = .error) :
    Settled 0 (machine.step token) := by
  obtain ⟨type, text⟩ := token
  obtain rfl : type = .error := h
  cases machine with
  | returned ret mem => trivial
  | running frame callers phase mem =>
    cases frame with
    | obj descr val decodedFields =>
      cases phase with
      | _ => exact settled_fail _
    | arr elemDescr lastElem field val =>
      cases phase with
      | _ => exact settled_fail _

/-- What the lexer has not read after an error is not missed. -/
theorem exec_untilError (machine : Machine) (toks : List Token) :
    machine.exec (untilError toks) = machine.exec toks := by
  induction toks generalizing machine with
  | nil => rfl
  | cons token toks ih =>
    rw [untilError]
    split
    case isTrue herror =>
      obtain ⟨ret, mem, hreturned⟩ := settled_zero (settled_error machine herror)
      rw [exec_cons, exec_cons, hreturned, exec_returned, exec_returned]
    case isFalse => exact ih (machine.step token)

/-- `json_obj_parse` on the text of an object. -/
theorem jsonObjParse_objectText (before blank : Blank) (members : List (Member JsonText)) (after : Blank) :
    jsonObjParse (objectText before blank members after) descr val mem =
      some (exec (running (.obj descr val 0) [] .next mem)
        (membersTokens members ++ ⟨.objectEnd, [125]⟩ :: lexer after.bytes)).result := by
  have hends : EndsNumber after.bytes := by
    have hnil : EndsNumber [] := fun _ hb => nomatch hb
    rw [← List.append_nil after.bytes]
    exact endsNumber_blank after hnil
  have hvalue := lexer_value (.object blank members) after.bytes hends
  have hstart : Settled 1 (running (.obj descr val 0) [] .next mem) := ⟨rfl, Nat.le_refl 1⟩
  rw [jsonObjParse_eq, objectText, lexer_blank]
  rw [JsonText.bytes, List.cons_append, lexer_punctuator rfl, JsonText.tokens, List.cons_append,
    untilError_cons (by decide), untilError_cons (by decide)] at hvalue
  rw [JsonText.bytes, List.cons_append, lexer_punctuator rfl]
  dsimp only
  rw [if_pos rfl, ← exec_untilError, (List.cons.inj hvalue).2, exec_untilError, List.append_assoc,
    exec_append, exec_members_tail hstart, ← exec_append, List.singleton_append]

theorem membersTokens_append (members members' : List (Member JsonText)) :
    membersTokens (members ++ members') = membersTokens members ++ membersTokens members' := by
  induction members with
  | nil => rfl
  | cons member members ih =>
    rw [List.cons_append, membersTokens, membersTokens, ih, List.cons_append, List.cons_append,
      List.cons_append, List.append_assoc]

/-- The first token of a value that no field asks for. -/
theorem step_unknown {key : StringText} (hkey : UnknownKey descr key) (decodedFields : ℕ)
    (token : Token) (helem : elementToken token.type) :
    step (running (.obj descr val decodedFields) [] (.value key.bytes) mem) token =
      running (.obj descr val decodedFields) [] .next mem := by
  rw [step, if_pos helem, member, findField_unknown hkey]

/-- An unknown value of one token leaves the call where it was. -/
theorem exec_oneToken {key : StringText} (hkey : UnknownKey descr key) {value : JsonText}
    (hvalue : value.OneToken) (decodedFields : ℕ) :
    exec (running (.obj descr val decodedFields) [] (.value key.bytes) mem) value.tokens =
      running (.obj descr val decodedFields) [] .next mem := by
  cases value with
  | string s => exact step_unknown hkey decodedFields ⟨.string, s.bytes⟩ rfl
  | boolean b =>
    cases b with
    | false => exact step_unknown hkey decodedFields ⟨.false, _⟩ rfl
    | true => exact step_unknown hkey decodedFields ⟨.true, _⟩ rfl
  | number n =>
    rw [JsonText.tokens, show n.exponent = none from hvalue]
    exact step_unknown hkey decodedFields ⟨.number, n.mantissa⟩ rfl
  | _ => exact hvalue.elim

/-- Within an unknown value of several tokens, and at `null`, the call ends. -/
theorem settled_of_not_oneToken {key : StringText} (hkey : UnknownKey descr key) {value : JsonText}
    (hvalue : ¬value.OneToken) (decodedFields : ℕ) :
    Settled 0 (exec (running (.obj descr val decodedFields) [] (.value key.bytes) mem) value.tokens) := by
  have hopen : Settled 1 (running (.obj descr val decodedFields) [] .next mem) := ⟨rfl, Nat.le_refl 1⟩
  cases value with
  | string s => exact absurd trivial hvalue
  | boolean b => exact absurd trivial hvalue
  | null => exact settled_fail _
  | number n =>
    cases hexponent : n.exponent with
    | none => exact absurd hexponent hvalue
    | some e =>
      rw [JsonText.tokens, hexponent]
      exact settled_error _ rfl
  | array blank elements =>
    rw [JsonText.tokens, exec_cons, step_unknown hkey decodedFields _ rfl, exec_append,
      exec_elements_tail hopen]
    exact settled_close (resting_elements elements hopen.resting) (.inr rfl)
  | object blank members =>
    rw [JsonText.tokens, exec_cons, step_unknown hkey decodedFields _ rfl, exec_append,
      exec_members_tail hopen]
    exact settled_close (settled_members members hopen).resting (.inl rfl)

/-- An unknown member of one token, wherever it stands, is skipped. -/
theorem exec_insert {inserted : Member JsonText} (hkey : UnknownKey descr inserted.key)
    (hvalue : inserted.value.OneToken) (members members' : List (Member JsonText)) (toks : List Token) :
    exec (running (.obj descr val 0) [] .next mem)
        (membersTokens (members ++ inserted :: members') ++ toks) =
      exec (running (.obj descr val 0) [] .next mem) (membersTokens (members ++ members') ++ toks) := by
  simp only [membersTokens_append, List.append_assoc, exec_append _ (membersTokens members)]
  rcases exec_members_cases descr val members 0 mem with
    ⟨ret, mem', hreturned⟩ | ⟨decodedFields, mem', hrunning⟩
  · rw [hreturned, exec_returned, exec_returned]
  · rw [hrunning, membersTokens, List.cons_append, List.cons_append, List.cons_append, List.append_assoc,
      exec_cons, exec_cons, exec_cons, exec_append]
    exact congrArg (exec · (membersTokens members' ++ toks)) (exec_oneToken hkey hvalue decodedFields)

end Insertion

section Necessity

/-- A call for the one field of a descriptor that has not come by yet, or its end without it. -/
def Untouched (field : JsonObjDescr) : Machine → Prop
  | returned ret _ => ret ≤ 0
  | running frame callers phase _ =>
    frame = .obj [field] 0 0 ∧ callers = [] ∧
      ∀ key, phase = .colon key ∨ phase = .value key → key ≠ field.name

theorem untouched_step {field : JsonObjDescr} {machine : Machine} {token : Token}
    (h : Untouched field machine) (htoken : token.text ≠ field.name) :
    Untouched field (machine.step token) := by
  have hfail : ∀ mem, Untouched field (fail eInval [] mem) := fun _ => show eInval ≤ 0 by decide
  cases machine with
  | returned ret mem => exact h
  | running frame callers phase mem =>
    obtain ⟨rfl, rfl, hphase⟩ := h
    have hkey : Untouched field (running (.obj [field] 0 0) [] (.colon token.text) mem) := by
      refine ⟨rfl, rfl, ?_⟩
      rintro key (hkey | hkey)
      · cases hkey
        exact htoken
      · exact nomatch hkey
    cases phase with
    | next =>
      rw [step.eq_def]
      dsimp only
      split
      · exact Int.le_refl 0
      · exact ⟨rfl, rfl, fun key hkey => by simp at hkey⟩
      · exact hkey
      · exact hfail mem
    | afterComma =>
      rw [step]
      split
      · exact hkey
      · exact hfail mem
    | colon key =>
      rw [step]
      split
      · refine ⟨rfl, rfl, ?_⟩
        rintro key' (hkey' | hkey')
        · exact nomatch hkey'
        · cases hkey'
          exact hphase key (.inl rfl)
      · exact hfail mem
    | value key =>
      rw [step]
      split
      · have hfind : findField 0 key 0 [field] = none := by
          rw [findField, if_neg (by simp)]
          split
          · rfl
          · rw [if_pos (hphase key (.inr rfl))]
            rfl
        rw [member, hfind]
        exact ⟨rfl, rfl, fun key hkey => by simp at hkey⟩
      · exact hfail mem

theorem untouched_exec {field : JsonObjDescr} {machine : Machine} {toks : List Token}
    (h : Untouched field machine) (htoks : ∀ token ∈ toks, token.text ≠ field.name) :
    Untouched field (machine.exec toks) := by
  induction toks generalizing machine with
  | nil => exact h
  | cons token toks ih =>
    exact ih (untouched_step h (htoks token List.mem_cons_self)) fun token hmem =>
      htoks token (List.mem_cons_of_mem _ hmem)

/-- Some text is longer than every token. -/
theorem exists_longer (toks : List Token) : ∃ n, ∀ token ∈ toks, token.text.length < n := by
  induction toks with
  | nil => exact ⟨0, fun _ h => nomatch h⟩
  | cons token toks ih =>
    obtain ⟨n, h⟩ := ih
    refine ⟨max n (token.text.length + 1), fun token' hmem => ?_⟩
    cases List.mem_cons.mp hmem with
    | inl heq =>
      rw [heq]
      omega
    | inr hmem =>
      have := h token' hmem
      omega

/-- No white space. -/
def noBlank : Blank := ⟨[], fun _ h => nomatch h⟩

/-- A member without white space. -/
def plainMember (key : StringText) (value : JsonText) : Member JsonText :=
  ⟨noBlank, key, noBlank, noBlank, value, noBlank⟩

/-- A key of `n` letters. -/
def longKey (n : ℕ) : StringText := List.replicate n (.plain 97 (by decide))

theorem length_longKey (n : ℕ) : (longKey n).bytes.length = n := by
  induction n with
  | zero => rfl
  | succ n ih => exact congrArg (· + 1) ih

/-- A descriptor of one boolean field. -/
def booleanField (name : List UInt8) : JsonObjDescr := .boolean ⟨name, name.length, 1, 0⟩

theorem name_booleanField (name : List UInt8) : (booleanField name).name = name := List.take_length

/-- The field is decoded from an object that has it. -/
theorem parse_booleanField (name : StringText) (mem : Memory) :
    jsonObjParse (objectText noBlank noBlank [plainMember name (.boolean true)] noBlank)
      [booleanField name.bytes] 0 mem = some (1, mem.setBool 0 true) := by
  have hfind : findField 0 name.bytes 0 [booleanField name.bytes] =
      some (0, booleanField name.bytes) := by
    rw [findField, if_neg (by simp)]
    exact (if_neg (not_not_intro rfl)).trans
      (if_neg (not_not_intro (name_booleanField name.bytes).symm))
  have hstep : step (running (.obj [booleanField name.bytes] 0 0) [] (.value name.bytes) mem)
      ⟨.true, ascii "true"⟩ =
        running (.obj [booleanField name.bytes] 0 1) [] .next (mem.setBool 0 true) := by
    have helem : elementToken JsonTokens.true := rfl
    rw [step, if_pos helem, member, hfind]
    rfl
  rw [jsonObjParse_objectText]
  exact congrArg (fun machine => some (exec machine [⟨.objectEnd, [125]⟩]).result) hstep

/-- A member whose value ends the call hides the fields after it. -/
theorem parse_not_oneToken {value : JsonText} (hvalue : ¬value.OneToken) (mem : Memory) :
    ∃ name : StringText, UnknownKey [booleanField name.bytes] [] ∧ ∃ ret ≤ 0, ∃ mem',
      jsonObjParse (objectText noBlank noBlank
        [plainMember [] value, plainMember name (.boolean true)] noBlank)
        [booleanField name.bytes] 0 mem = some (ret, mem') := by
  obtain ⟨n, hn⟩ := exists_longer value.tokens
  have hlength := length_longKey (n + 1)
  have hkey : UnknownKey [booleanField (longKey (n + 1)).bytes] [] := by
    intro field hmem hfield
    rw [List.mem_singleton.mp hmem] at hfield
    exact absurd (hfield.1.trans hlength) (Nat.succ_ne_zero n).symm
  have huntouched : Untouched (booleanField (longKey (n + 1)).bytes)
      (exec (running (.obj [booleanField (longKey (n + 1)).bytes] 0 0) [] (.value []) mem)
        value.tokens) := by
    apply untouched_exec
    · refine ⟨rfl, rfl, ?_⟩
      rintro key (hkey | hkey)
      · exact nomatch hkey
      · cases hkey
        rw [name_booleanField]
        intro heq
        rw [← heq] at hlength
        exact absurd hlength (Nat.succ_ne_zero n).symm
    · intro token hmem heq
      rw [name_booleanField] at heq
      have hlt := hn token hmem
      rw [heq, hlength] at hlt
      omega
  have hended : Settled 0 (exec (running (.obj [booleanField (longKey (n + 1)).bytes] 0 0) []
      (.value []) mem) value.tokens) := settled_of_not_oneToken hkey hvalue 0
  obtain ⟨ret, mem', hreturned⟩ := settled_zero hended
  rw [hreturned] at huntouched
  refine ⟨longKey (n + 1), hkey, ret, huntouched, mem', ?_⟩
  rw [jsonObjParse_objectText, membersTokens, plainMember, List.cons_append, List.cons_append,
    List.cons_append, exec_cons, exec_cons, exec_cons, List.append_assoc, exec_append]
  exact congrArg (fun machine => some (result machine))
    ((congrArg (exec · _) hreturned).trans (exec_returned ret mem' _))

end Necessity

/-- A further member of an object, with a key that is no field's name, changes nothing: whatever the
descriptor, the object and the place. -/
def UnknownValueIgnored (value : JsonText) : Prop :=
  ∀ (descr : List JsonObjDescr) (val : ℤ) (mem : Memory) (before blank after : Blank)
    (members members' : List (Member JsonText)) (inserted : Member JsonText),
    inserted.value = value → UnknownKey descr inserted.key →
      jsonObjParse (objectText before blank (members ++ inserted :: members') after) descr val mem =
        jsonObjParse (objectText before blank (members ++ members') after) descr val mem

/-- What is returned for an object with a boolean field `a`, and what the field is then. -/
def decodedA (members : List (Member JsonText)) : Option (ℤ × Bool) :=
  (jsonObjParse (objectText noBlank noBlank members noBlank) [booleanField (ascii "a")] 0
    ⟨fun _ => 0, fun _ => false, fun _ => [], fun _ => 0⟩).map fun parsed => (parsed.1, parsed.2.bool 0)

end FrameworkBenchmarks.Lwan
