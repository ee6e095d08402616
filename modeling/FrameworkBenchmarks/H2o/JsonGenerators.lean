import FrameworkBenchmarks.Common.Links
import FrameworkBenchmarks.Common.PartialMap
import FrameworkBenchmarks.H2o.JsonTokens
import FrameworkBenchmarks.H2o.World

/-!
# The JSON generators of a thread of the h2o server

A thread keeps the generators that it does not use in a list of at most `max_json_generator`
elements. A small response is copied out of its generator, which goes back to the list at once; the
body of a response with several items stays in the buffer of its generator.
-/

namespace FrameworkBenchmarks.H2o.JsonGenerators

open Common

section Pool

/-- `json_generator_t` -/
structure JsonGenerator (G : Type) where
  gen : G
  next : Option ℕ

/-- What a `thread_context_t` says about generators, and the generators that are allocated. -/
structure ThreadContext (G : Type) where
  heap : PartialMap ℕ (JsonGenerator G)
  jsonGenerator : Option ℕ
  jsonGeneratorNum : ℕ
  maxJsonGenerator : ℕ

/-- A response: a copy of the body, its place in the buffer of a generator, or an error. -/
inductive Response where
  | inline (body : List UInt8)
  | inPlace (gen len : ℕ)
  | error (status : ℕ) (body : String)

variable {G : Type} (y : Yajl G)

/-- `send_error(INTERNAL_SERVER_ERROR, REQ_ERROR, req)` -/
def sendRequestError : Response := .error World.INTERNAL_SERVER_ERROR World.REQ_ERROR

/-- The successors in the list. -/
def ThreadContext.next (ctx : ThreadContext G) (a : ℕ) : Option ℕ := (ctx.heap a).bind (·.next)

/-- What stands in the buffer of a generator. -/
def ThreadContext.buffer (ctx : ThreadContext G) (a : ℕ) : Option (List UInt8) :=
  (ctx.heap a).bind fun g => y.getBuf g.gen

/-- `get_json_generator`, with what the allocation of a new generator would yield; without a result
if an assertion fails or the list leads to memory that is not allocated. -/
def getJsonGenerator (new : Option ℕ) (ctx : ThreadContext G) :
    Option (Option ℕ × ThreadContext G) :=
  match ctx.jsonGenerator with
  | some a =>
    if ctx.jsonGeneratorNum = 0 then none
    else (ctx.heap a).map fun g => (some a,
      { ctx with jsonGenerator := g.next, jsonGeneratorNum := ctx.jsonGeneratorNum - 1 })
  | none =>
    match new with
    | some a => some (some a, { ctx with heap := ctx.heap.insert a ⟨y.alloc, none⟩ })
    | none => some (none, ctx)

/-- `free_json_generator`, with or without the list; without a result if the generator has been
freed before. -/
def freeJsonGenerator (gen : Option ℕ) (pool : Bool) (ctx : ThreadContext G) :
    Option (ThreadContext G) :=
  match gen with
  | none => some ctx
  | some a =>
    (ctx.heap a).map fun g =>
      if pool && ctx.jsonGeneratorNum < ctx.maxJsonGenerator then
        { ctx with
          heap := ctx.heap.insert a ⟨y.clear (y.reset g.gen), ctx.jsonGenerator⟩
          jsonGenerator := some a
          jsonGeneratorNum := ctx.jsonGeneratorNum + 1 }
      else { ctx with heap := ctx.heap.erase a }

/-- Calls on an allocated generator. -/
def ThreadContext.write (ctx : ThreadContext G) (a : ℕ) (calls : G → Bool × G) :
    Option (Bool × ThreadContext G) :=
  (ctx.heap a).map fun g =>
    ((calls g.gen).1, { ctx with heap := ctx.heap.insert a { g with gen := (calls g.gen).2 } })

/-- `send_json_response`; no response is the return value 1. -/
def sendJsonResponse (gen : ℕ) (freeGen : Bool) (ctx : ThreadContext G) :
    Option (Option Response × ThreadContext G) :=
  (ctx.heap gen).bind fun g =>
    match y.getBuf g.gen with
    | some buf =>
      if freeGen then
        (freeJsonGenerator y (some gen) true ctx).map fun ctx => (some (.inline buf), ctx)
      else some (some (.inPlace gen buf.length), ctx)
    | none => some (none, ctx)

/-- `error_yajl`: the generator is not used again. -/
def errorYajl (a : ℕ) (ctx : ThreadContext G) : Option (Response × ThreadContext G) :=
  (freeJsonGenerator y (some a) false ctx).map fun ctx => (sendRequestError, ctx)

/-- The common part of `json_serializer` and `on_single_query_result`. -/
def respondInline (serialize : G → Bool × G) (new : Option ℕ) (ctx : ThreadContext G) :
    Option (Response × ThreadContext G) := do
  let (gen, ctx) ← getJsonGenerator y new ctx
  match gen with
  | none => some (sendRequestError, ctx)
  | some a =>
    let (ok, ctx) ← ctx.write a serialize
    if ok then
      let (sent, ctx) ← sendJsonResponse y a true ctx
      match sent with
      | some response => some (response, ctx)
      | none => errorYajl y a ctx
    else errorYajl y a ctx

def jsonSerializer (new : Option ℕ) (ctx : ThreadContext G) : Option (Response × ThreadContext G) :=
  respondInline y (serializeHello y) new ctx

/-- `on_single_query_result` for a row -/
def onSingleQueryResult (id randomNumber : UInt32) (buf : Memory) (new : Option ℕ)
    (ctx : ThreadContext G) : Option (Response × ThreadContext G) :=
  respondInline y (serializeItem y id randomNumber buf) new ctx

/-- `serialize_items`, with what remains in the variable `gen` -/
def serializeItems (res : List (UInt32 × UInt32)) (buf : ℕ → Memory) (a : ℕ)
    (ctx : ThreadContext G) : Option (Option ℕ × Response × ThreadContext G) := do
  let (ok, ctx) ← ctx.write a (serializeArray y buf res)
  if ok then
    let (sent, ctx) ← sendJsonResponse y a false ctx
    match sent with
    | some response => some (some a, response, ctx)
    | none => (errorYajl y a ctx).map fun r => (none, r)
  else (errorYajl y a ctx).map fun r => (none, r)

/-- The end of `complete_multiple_query` and of `on_update_result`. -/
def respondItems (res : List (UInt32 × UInt32)) (buf : ℕ → Memory) (new : Option ℕ)
    (ctx : ThreadContext G) : Option (Option ℕ × Response × ThreadContext G) := do
  let (gen, ctx) ← getJsonGenerator y new ctx
  match gen with
  | none => some (none, sendRequestError, ctx)
  | some a => serializeItems y res buf a ctx

/-- The loop of `free_thread_context`, for at most so many generators; without a result if there are
more of them or one was freed before. -/
def freeGenerators : ℕ → ThreadContext G → Option (ThreadContext G)
  | 0, ctx => if ctx.jsonGenerator.isNone then some ctx else none
  | n + 1, ctx =>
    match ctx.jsonGenerator with
    | none => some ctx
    | some a =>
      (ctx.heap a).bind fun g =>
        (freeJsonGenerator y (some a) false { ctx with jsonGenerator := g.next }).bind
          (freeGenerators n)

end Pool

section FreeList

variable {G : Type} {y : Yajl G} {ctx ctx' : ThreadContext G} {l : List ℕ} {held : Set ℕ} {a : ℕ}

/-- The list of a thread: its generators write like new ones, it is as long as the thread thinks,
and the other generators that are allocated are held by somebody. -/
structure FreeList (y : Yajl G) (ctx : ThreadContext G) (l : List ℕ) (held : Set ℕ) : Prop where
  chain : Chain ctx.next ctx.jsonGenerator l
  num : ctx.jsonGeneratorNum = l.length
  max : l.length ≤ ctx.maxJsonGenerator
  clean : ∀ a ∈ l, ∀ g, ctx.heap a = some g → y.Clean g.gen
  allocated : ∀ a, (ctx.heap a).isSome ↔ a ∈ l ∨ a ∈ held
  apart : ∀ a ∈ l, a ∉ held

/-- What others hold is as it was. -/
structure Keeps (held : Set ℕ) (ctx ctx' : ThreadContext G) : Prop where
  max : ctx'.maxJsonGenerator = ctx.maxJsonGenerator
  heap : ∀ a ∈ held, ctx'.heap a = ctx.heap a

theorem Keeps.refl (held : Set ℕ) (ctx : ThreadContext G) : Keeps held ctx ctx :=
  ⟨rfl, fun _ _ => rfl⟩

theorem Keeps.trans {ctx'' : ThreadContext G} (h : Keeps held ctx ctx')
    (h' : Keeps held ctx' ctx'') : Keeps held ctx ctx'' :=
  ⟨h'.max.trans h.max, fun a ha => (h'.heap a ha).trans (h.heap a ha)⟩

theorem FreeList.ne_of_mem (h : FreeList y ctx l held) (ha : a ∈ held) {b : ℕ} (hb : b ∈ l) :
    b ≠ a := by
  intro heq
  exact h.apart b hb (heq ▸ ha)

/-- A generator that somebody holds may change. -/
theorem FreeList.set (h : FreeList y ctx l held) (ha : a ∈ held) (g : JsonGenerator G) :
    FreeList y { ctx with heap := ctx.heap.insert a g } l held where
  chain := by
    refine h.chain.congr fun b hb => ?_
    simp only [ThreadContext.next, PartialMap.insert_of_ne _ _ (h.ne_of_mem ha hb)]
  num := h.num
  max := h.max
  clean b hb g' hg' := by
    simp only [PartialMap.insert_of_ne _ _ (h.ne_of_mem ha hb)] at hg'
    exact h.clean b hb g' hg'
  allocated b := by
    by_cases hba : b = a
    · subst hba
      simp [ha]
    · simp only [PartialMap.insert_of_ne _ _ hba]
      exact h.allocated b
  apart := h.apart

theorem FreeList.exists_heap (h : FreeList y ctx l held) (ha : a ∈ l ∨ a ∈ held) :
    ∃ g, ctx.heap a = some g :=
  Option.isSome_iff_exists.mp ((h.allocated a).mpr ha)

/-- The first generator of the list, or a new one if there is none, goes to the caller. -/
theorem FreeList.get (h : FreeList y ctx l held) {new : Option ℕ}
    (hnew : ∀ a, new = some a → ctx.heap a = none) :
    (new = none ∧ getJsonGenerator y new ctx = some (none, ctx)) ∨
      ∃ a g ctx' l', getJsonGenerator y new ctx = some (some a, ctx') ∧
        FreeList y ctx' l' (insert a held) ∧ a ∉ held ∧ ctx'.heap a = some g ∧ y.Clean g.gen ∧
        Keeps held ctx ctx' := by
  cases l with
  | nil =>
    have hnone : ctx.jsonGenerator = none := h.chain
    cases new with
    | none => exact .inl ⟨rfl, by simp only [getJsonGenerator, hnone]⟩
    | some a =>
      have hfree : ctx.heap a = none := hnew a rfl
      have ha : a ∉ held := by
        intro hmem
        obtain ⟨g, hg⟩ := h.exists_heap (.inr hmem)
        rw [hfree] at hg
        cases hg
      let ctx₁ : ThreadContext G := { ctx with heap := ctx.heap.insert a ⟨y.alloc, none⟩ }
      have hget : getJsonGenerator y (some a) ctx = some (some a, ctx₁) := by
        simp only [getJsonGenerator, hnone, ctx₁]
      have hlist : FreeList y ctx₁ [] (insert a held) := by
        refine ⟨hnone, h.num, h.max, fun b hb => absurd hb List.not_mem_nil, fun b => ?_,
          fun b hb => absurd hb List.not_mem_nil⟩
        by_cases hba : b = a
        · simp [ctx₁, hba]
        · simp only [ctx₁, PartialMap.insert_of_ne _ _ hba, h.allocated b, Set.mem_insert_iff, hba,
            false_or]
      exact .inr ⟨a, ⟨y.alloc, none⟩, ctx₁, [], hget, hlist, ha, PartialMap.insert_self _ _ _,
        fun _ => rfl, rfl, fun b hb => PartialMap.insert_of_ne _ _ fun heq => ha (heq ▸ hb)⟩
  | cons a l =>
    obtain ⟨hhead, hrest⟩ := h.chain
    obtain ⟨g, hg⟩ := h.exists_heap (.inl List.mem_cons_self)
    have hnum : ctx.jsonGeneratorNum ≠ 0 := by simp [h.num]
    have hnodup : a ∉ l := (List.nodup_cons.mp h.chain.nodup).1
    have hnext : ctx.next a = g.next := by simp only [ThreadContext.next, hg, Option.bind_some]
    refine .inr ⟨a, g, { ctx with jsonGenerator := g.next, jsonGeneratorNum :=
      ctx.jsonGeneratorNum - 1 }, l, by simp only [getJsonGenerator, hhead, if_neg hnum, hg]; rfl,
      ⟨hnext ▸ hrest, ?_, ?_, fun b hb => h.clean b (List.mem_cons_of_mem a hb), fun b => ?_,
        fun b hb => ?_⟩, h.apart a List.mem_cons_self, hg, h.clean a List.mem_cons_self g hg,
      ⟨rfl, fun _ _ => rfl⟩⟩
    · rw [h.num]
      rfl
    · exact Nat.le_of_succ_le h.max
    · rw [h.allocated b, List.mem_cons, Set.mem_insert_iff]
      tauto
    · rw [Set.mem_insert_iff]
      rintro (rfl | hheld)
      · exact hnodup hb
      · exact h.apart b (List.mem_cons_of_mem a hb) hheld

/-- A generator that is given back goes to the front of the list, or is freed. -/
theorem FreeList.free (hy : y.Documented) (h : FreeList y ctx l (insert a held)) (ha : a ∉ held)
    (pool : Bool) : ∃ ctx' l', freeJsonGenerator y (some a) pool ctx = some ctx' ∧
      FreeList y ctx' l' held ∧ Keeps held ctx ctx' := by
  have hmem : a ∈ insert a held := Set.mem_insert a held
  obtain ⟨g, hg⟩ := h.exists_heap (.inr hmem)
  have hne : ∀ b ∈ held, b ≠ a := fun b hb heq => ha (heq ▸ hb)
  have hl : ∀ b ∈ l, b ≠ a := fun b hb => h.ne_of_mem hmem hb
  simp only [freeJsonGenerator, hg, Option.map_some]
  split
  · rename_i hroom
    have hlt : ctx.jsonGeneratorNum < ctx.maxJsonGenerator := by
      simpa using ((Bool.and_eq_true _ _).mp hroom).2
    refine ⟨_, a :: l, rfl, ⟨⟨rfl, ?_⟩, ?_, ?_, ?_, ?_, ?_⟩,
      ⟨rfl, fun b hb => PartialMap.insert_of_ne _ _ (hne b hb)⟩⟩
    · simp only [ThreadContext.next, PartialMap.insert_self, Option.bind_some]
      refine h.chain.congr fun b hb => ?_
      simp only [ThreadContext.next, PartialMap.insert_of_ne _ _ (hl b hb)]
    · simp only [h.num, List.length_cons]
    · rw [List.length_cons, ← h.num]
      exact hlt
    · intro b hb g' hg'
      rcases List.mem_cons.mp hb with rfl | hb
      · simp only [PartialMap.insert_self] at hg'
        cases hg'
        exact hy g.gen
      · simp only [PartialMap.insert_of_ne _ _ (hl b hb)] at hg'
        exact h.clean b hb g' hg'
    · intro b
      by_cases hba : b = a
      · simp [hba]
      · simp only [PartialMap.insert_of_ne _ _ hba, h.allocated b, Set.mem_insert_iff, hba,
          List.mem_cons, false_or]
    · intro b hb
      rcases List.mem_cons.mp hb with rfl | hb
      · exact ha
      · exact fun hheld => h.apart b hb (Set.mem_insert_of_mem a hheld)
  · refine ⟨_, l, rfl, ⟨?_, h.num, h.max, ?_, ?_, ?_⟩,
      ⟨rfl, fun b hb => PartialMap.erase_of_ne _ (hne b hb)⟩⟩
    · refine h.chain.congr fun b hb => ?_
      simp only [ThreadContext.next, PartialMap.erase_of_ne _ (hl b hb)]
    · intro b hb g' hg'
      simp only [PartialMap.erase_of_ne _ (hl b hb)] at hg'
      exact h.clean b hb g' hg'
    · intro b
      by_cases hba : b = a
      · subst hba
        simp only [PartialMap.erase_self, Option.isSome_none, Bool.false_eq_true, false_iff]
        rintro (hb | hb)
        · exact hl b hb rfl
        · exact ha hb
      · simp only [PartialMap.erase_of_ne _ hba, h.allocated b, Set.mem_insert_iff, hba, false_or]
    · exact fun b hb hheld => h.apart b hb (Set.mem_insert_of_mem a hheld)

end FreeList

section Responding

variable {G : Type} {y : Yajl G} {ctx ctx' : ThreadContext G} {l : List ℕ} {held : Set ℕ}
  {a : ℕ} {tokens : List Token} {new : Option ℕ}

/-- The response has the text that a new generator would have written; an error comes from the
library. -/
def Answers (y : Yajl G) (tokens : List Token) (new : Option ℕ) : Response → Prop
  | .inline body => y.text tokens y.alloc = some body
  | .inPlace _ len => ∃ body, y.text tokens y.alloc = some body ∧ body.length = len
  | .error status body => status = World.INTERNAL_SERVER_ERROR ∧ body = World.REQ_ERROR ∧
      (y.text tokens y.alloc = none ∨ new = none)

theorem answers_sendRequestError (h : y.text tokens y.alloc = none ∨ new = none) :
    Answers y tokens new sendRequestError := ⟨rfl, rfl, h⟩

/-- Calls on a generator that writes like a new one, and a look into its buffer. -/
theorem FreeList.write (h : FreeList y ctx l (insert a held)) (ha : a ∉ held) {g : JsonGenerator G}
    (hg : ctx.heap a = some g) (hclean : y.Clean g.gen) (tokens : List Token) :
    ∃ ok g' ctx', ctx.write a (y.emit tokens) = some (ok, ctx') ∧
      FreeList y ctx' l (insert a held) ∧ Keeps held ctx ctx' ∧ ctx'.heap a = some g' ∧
      y.text tokens y.alloc = if ok then y.getBuf g'.gen else none := by
  refine ⟨(y.emit tokens g.gen).1, { g with gen := (y.emit tokens g.gen).2 }, _,
    by rw [ThreadContext.write, hg, Option.map_some], h.set (Set.mem_insert a held) _,
    ⟨rfl, fun b hb => PartialMap.insert_of_ne _ _ fun heq => ha (heq ▸ hb)⟩,
    PartialMap.insert_self _ _ _, ?_⟩
  rw [← hclean tokens, Yajl.text]
  cases y.emit tokens g.gen with
  | mk ok g' => cases ok <;> rfl

theorem FreeList.errorYajl (hy : y.Documented) (h : FreeList y ctx l (insert a held))
    (ha : a ∉ held) : ∃ ctx' l', errorYajl y a ctx = some (sendRequestError, ctx') ∧
      FreeList y ctx' l' held ∧ Keeps held ctx ctx' := by
  obtain ⟨ctx', l', hfree, hlist, hkeeps⟩ := h.free hy ha false
  refine ⟨ctx', l', ?_, hlist, hkeeps⟩
  rw [JsonGenerators.errorYajl, hfree, Option.map_some]

/-- A small response. -/
theorem FreeList.respondInline (hy : y.Documented) (h : FreeList y ctx l held)
    (hnew : ∀ a, new = some a → ctx.heap a = none) (tokens : List Token) :
    ∃ response ctx' l', respondInline y (y.emit tokens) new ctx = some (response, ctx') ∧
      FreeList y ctx' l' held ∧ Keeps held ctx ctx' ∧ Answers y tokens new response := by
  rcases h.get hnew with ⟨rfl, hget⟩ | ⟨a, g, ctx₁, l₁, hget, h₁, ha, hg, hclean, hkeeps₁⟩
  · refine ⟨sendRequestError, ctx, l, ?_, h, .refl held ctx, answers_sendRequestError (.inr rfl)⟩
    simp only [JsonGenerators.respondInline, hget, Option.bind_eq_bind, Option.bind_some]
  obtain ⟨ok, g', ctx₂, hwrite, h₂, hkeeps₂, hg', htext⟩ := h₁.write ha hg hclean tokens
  have hkeeps := hkeeps₁.trans hkeeps₂
  simp only [JsonGenerators.respondInline, hget, hwrite, Option.bind_eq_bind, Option.bind_some]
  cases ok with
  | false =>
    obtain ⟨ctx', l', herror, h', hkeeps'⟩ := h₂.errorYajl hy ha
    exact ⟨sendRequestError, ctx', l', herror, h', hkeeps.trans hkeeps',
      answers_sendRequestError (.inl htext)⟩
  | true =>
    rw [if_pos rfl] at htext
    cases hbuf : y.getBuf g'.gen with
    | none =>
      obtain ⟨ctx', l', herror, h', hkeeps'⟩ := h₂.errorYajl hy ha
      refine ⟨sendRequestError, ctx', l', ?_, h', hkeeps.trans hkeeps',
        answers_sendRequestError (.inl (htext.trans hbuf))⟩
      simp only [sendJsonResponse, hg', hbuf, Option.bind_some, if_true, herror]
    | some body =>
      obtain ⟨ctx', l', hfree, h', hkeeps'⟩ := h₂.free hy ha true
      refine ⟨.inline body, ctx', l', ?_, h', hkeeps.trans hkeeps', htext.trans hbuf⟩
      simp only [sendJsonResponse, hg', hbuf, Option.bind_some, if_true, hfree, Option.map_some]

/-- A response with several items. -/
theorem FreeList.respondItems (hy : y.Documented) (h : FreeList y ctx l held)
    (hnew : ∀ a, new = some a → ctx.heap a = none) (res : List (UInt32 × UInt32))
    (buf : ℕ → Memory) :
    ∃ gen response ctx' l', respondItems y res buf new ctx = some (gen, response, ctx') ∧
      Keeps held ctx ctx' ∧ Answers y (itemsTokens res) new response ∧
      ((gen = none ∧ response = sendRequestError ∧ FreeList y ctx' l' held) ∨
        ∃ a body, gen = some a ∧ a ∉ held ∧ response = .inPlace a body.length ∧
          FreeList y ctx' l' (insert a held) ∧ y.text (itemsTokens res) y.alloc = some body ∧
          ctx'.buffer y a = some body) := by
  rcases h.get hnew with ⟨rfl, hget⟩ | ⟨a, g, ctx₁, l₁, hget, h₁, ha, hg, hclean, hkeeps₁⟩
  · refine ⟨none, sendRequestError, ctx, l, ?_, .refl held ctx, answers_sendRequestError (.inr rfl),
      .inl ⟨rfl, rfl, h⟩⟩
    simp only [JsonGenerators.respondItems, hget, Option.bind_eq_bind, Option.bind_some]
  obtain ⟨ok, g', ctx₂, hwrite, h₂, hkeeps₂, hg', htext⟩ :=
    h₁.write ha hg hclean (itemsTokens res)
  have hkeeps := hkeeps₁.trans hkeeps₂
  simp only [JsonGenerators.respondItems, hget, serializeItems, serializeArray_eq, hwrite,
    Option.bind_eq_bind, Option.bind_some]
  cases ok with
  | false =>
    obtain ⟨ctx', l', herror, h', hkeeps'⟩ := h₂.errorYajl hy ha
    exact ⟨none, sendRequestError, ctx', l', by simp [herror], hkeeps.trans hkeeps',
      answers_sendRequestError (.inl htext), .inl ⟨rfl, rfl, h'⟩⟩
  | true =>
    rw [if_pos rfl] at htext
    cases hbuf : y.getBuf g'.gen with
    | none =>
      obtain ⟨ctx', l', herror, h', hkeeps'⟩ := h₂.errorYajl hy ha
      refine ⟨none, sendRequestError, ctx', l', ?_, hkeeps.trans hkeeps',
        answers_sendRequestError (.inl (htext.trans hbuf)), .inl ⟨rfl, rfl, h'⟩⟩
      simp only [sendJsonResponse, hg', hbuf, Option.bind_some, if_true, herror, Option.map_some]
    | some body =>
      refine ⟨some a, .inPlace a body.length, ctx₂, l₁, ?_, hkeeps, ⟨body, htext.trans hbuf, rfl⟩,
        .inr ⟨a, body, rfl, ha, rfl, h₂, htext.trans hbuf, ?_⟩⟩
      · simp only [sendJsonResponse, hg', hbuf, Option.bind_some, if_true, Bool.false_eq_true,
          if_false]
      · simp only [ThreadContext.buffer, hg', Option.bind_some, hbuf]

/-- What `free_thread_context` leaves is what others hold. -/
theorem freeGenerators_spec (hchain : Chain ctx.next ctx.jsonGenerator l)
    (hallocated : ∀ a, (ctx.heap a).isSome ↔ a ∈ l ∨ a ∈ held) (hapart : ∀ a ∈ l, a ∉ held) :
    ∃ ctx', freeGenerators y l.length ctx = some ctx' ∧ ∀ a, (ctx'.heap a).isSome ↔ a ∈ held := by
  induction l generalizing ctx with
  | nil =>
    have hnone : ctx.jsonGenerator = none := hchain
    refine ⟨ctx, by simp only [List.length_nil, freeGenerators, hnone, Option.isNone_none, if_true],
      fun a => ?_⟩
    simp [hallocated a]
  | cons a l ih =>
    have hnodup := List.nodup_cons.mp hchain.nodup
    obtain ⟨hhead, hrest⟩ := hchain
    obtain ⟨g, hg⟩ := Option.isSome_iff_exists.mp ((hallocated a).mpr (.inl List.mem_cons_self))
    have hnext : ctx.next a = g.next := by simp only [ThreadContext.next, hg, Option.bind_some]
    have hne : ∀ b ∈ l, b ≠ a := fun b hb heq => hnodup.1 (heq ▸ hb)
    let ctx₁ : ThreadContext G := { ctx with jsonGenerator := g.next, heap := ctx.heap.erase a }
    have hchain₁ : Chain ctx₁.next ctx₁.jsonGenerator l := by
      refine (hnext ▸ hrest : Chain ctx.next g.next l).congr fun b hb => ?_
      simp only [ThreadContext.next, ctx₁, PartialMap.erase_of_ne _ (hne b hb)]
    have hallocated₁ : ∀ b, (ctx₁.heap b).isSome ↔ b ∈ l ∨ b ∈ held := by
      intro b
      by_cases hba : b = a
      · subst hba
        simp only [ctx₁, PartialMap.erase_self, Option.isSome_none, Bool.false_eq_true, false_iff]
        rintro (hb | hb)
        · exact hnodup.1 hb
        · exact hapart b List.mem_cons_self hb
      · simp only [ctx₁, PartialMap.erase_of_ne _ hba, hallocated b, List.mem_cons, hba, false_or]
    obtain ⟨ctx', hfree, hheap⟩ := ih hchain₁ hallocated₁
      fun b hb => hapart b (List.mem_cons_of_mem a hb)
    refine ⟨ctx', ?_, hheap⟩
    simp only [List.length_cons, freeGenerators, hhead, hg, Option.bind_some, freeJsonGenerator,
      Bool.false_and, Bool.false_eq_true, if_false, Option.map_some]
    exact hfree

end Responding

end FrameworkBenchmarks.H2o.JsonGenerators
