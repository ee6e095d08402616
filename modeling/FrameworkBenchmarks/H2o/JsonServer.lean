import FrameworkBenchmarks.Common.GuardedRun
import FrameworkBenchmarks.H2o.JsonGenerators

/-!
# Runs of a thread with its JSON generators

Responses with several items hold their generator until the request is gone, while other requests
take theirs from the list.
-/

namespace FrameworkBenchmarks.H2o.JsonGenerators

open Common

section Serving

/-- What a `multiple_query_ctx_t` says about its generator and about its response. -/
structure QueryCtx where
  gen : Option ℕ
  doCleanup : Bool

/-- What happens on a thread; `new` is what the allocation of a generator would yield. -/
inductive Event where
  /-- `/json` -/
  | json (new : Option ℕ)
  /-- the row of `/db` has come -/
  | row (id randomNumber : UInt32) (buf : Memory) (new : Option ℕ)
  /-- a request for several items comes -/
  | query
  /-- its items are complete -/
  | items (query : ℕ) (res : List (UInt32 × UInt32)) (buf : ℕ → Memory) (new : Option ℕ)
  /-- `cleanup_multiple_query`, once the request is gone -/
  | cleanup (query : ℕ)

/-- The memory that an allocation gets. -/
def Event.new : Event → Option ℕ
  | .json new | .row _ _ _ new | .items _ _ _ new => new
  | .query | .cleanup _ => none

/-- What the response consists of. -/
def Event.tokens : Event → List Token
  | .json _ => helloTokens
  | .row id randomNumber _ _ => itemTokens id randomNumber
  | .items _ res _ _ => itemsTokens res
  | .query | .cleanup _ => []

structure Server (G : Type) where
  thread : ThreadContext G
  contexts : PartialMap ℕ QueryCtx
  numContexts : ℕ
  responses : List (Event × Response)

def Server.start (G : Type) (maxJsonGenerator : ℕ) : Server G where
  thread := ⟨.empty, none, 0, maxJsonGenerator⟩
  contexts := .empty
  numContexts := 0
  responses := []

variable {G : Type} (y : Yajl G)

/-- One event; without a result if memory that is not allocated is used or an assertion fails. -/
def Server.next (s : Server G) (e : Event) : Option (Server G) :=
  match e with
  | .json new => (jsonSerializer y new s.thread).map fun r =>
      { s with thread := r.2, responses := s.responses ++ [(e, r.1)] }
  | .row id randomNumber buf new =>
    (onSingleQueryResult y id randomNumber buf new s.thread).map fun r =>
      { s with thread := r.2, responses := s.responses ++ [(e, r.1)] }
  | .query => some
      { s with
        contexts := s.contexts.insert s.numContexts ⟨none, false⟩
        numContexts := s.numContexts + 1 }
  | .items query res buf new => (s.contexts query).bind fun _ =>
      (respondItems y res buf new s.thread).map fun r =>
        { s with
          thread := r.2.2
          contexts := s.contexts.insert query ⟨r.1, true⟩
          responses := s.responses ++ [(e, r.2.1)] }
  | .cleanup query => (s.contexts query).bind fun c =>
      (freeJsonGenerator y c.gen true s.thread).map fun thread =>
        { s with thread := thread, contexts := s.contexts.erase query }

/-- New memory is not in use, a request is answered at most once, and only contexts that are
allocated are cleaned up. -/
def Server.Allowed (s : Server G) (e : Event) : Prop :=
  (∀ a, e.new = some a → s.thread.heap a = none) ∧
    match e with
    | .items query _ _ _ => ∃ gen, s.contexts query = some ⟨gen, false⟩
    | .cleanup query => (s.contexts query).isSome
    | _ => True

/-- The generators that the contexts hold. -/
def heldBy (contexts : PartialMap ℕ QueryCtx) : Set ℕ :=
  { a | ∃ query c, contexts query = some c ∧ c.gen = some a }

/-- The response to a request that is not gone can be read, and has the right text. -/
def Server.Readable (s : Server G) (query : ℕ) (res : List (UInt32 × UInt32)) : Response → Prop
  | .inPlace a len => (∃ c, s.contexts query = some c ∧ c.gen = some a) ∧
      ∃ body, y.text (itemsTokens res) y.alloc = some body ∧ body.length = len ∧
        s.thread.buffer y a = some body
  | _ => True

/-- A thread between two events. -/
structure Served (s : Server G) : Prop where
  /-- every generator is in the list or at one context, and those in the list write like new ones -/
  list : ∃ l, FreeList y s.thread l (heldBy s.contexts)
  unique : ∀ query query' c c' a, s.contexts query = some c → s.contexts query' = some c' →
    c.gen = some a → c'.gen = some a → query = query'
  answers : ∀ r ∈ s.responses, Answers y r.1.tokens r.1.new r.2
  /-- bodies that were not copied stay as they were sent until the context is freed -/
  readable : ∀ query res buf new response, (.items query res buf new, response) ∈ s.responses →
    query < s.numContexts ∧
      ∀ c, s.contexts query = some c → c.doCleanup = true ∧ s.Readable y query res response
  old : ∀ query c, s.contexts query = some c →
    query < s.numContexts ∧ (c.doCleanup = false → c.gen = none)

variable {y} {contexts : PartialMap ℕ QueryCtx} {i : ℕ} {c : QueryCtx} {s s' : Server G}
  {e : Event}

/-- A context that held nothing takes another generator, or none. -/
theorem heldBy_insert (h : ∀ c, contexts i = some c → c.gen = none) :
    heldBy (contexts.insert i c) = { a | c.gen = some a } ∪ heldBy contexts := by
  ext a
  constructor
  · rintro ⟨j, c', hc', hgen⟩
    by_cases hsame : j = i
    · subst hsame
      rw [PartialMap.insert_self] at hc'
      cases hc'
      exact .inl hgen
    · rw [PartialMap.insert_of_ne _ _ hsame] at hc'
      exact .inr ⟨j, c', hc', hgen⟩
  · rintro (hgen | ⟨j, c', hc', hgen⟩)
    · exact ⟨i, c, PartialMap.insert_self _ _ _, hgen⟩
    · have hne : j ≠ i := by
        rintro rfl
        rw [h c' hc'] at hgen
        cases hgen
      exact ⟨j, c', (PartialMap.insert_of_ne _ _ hne).trans hc', hgen⟩

theorem heldBy_insert_none (h : ∀ c, contexts i = some c → c.gen = none) (doCleanup : Bool) :
    heldBy (contexts.insert i ⟨none, doCleanup⟩) = heldBy contexts := by
  rw [heldBy_insert h]
  ext a
  simp

theorem heldBy_insert_some (h : ∀ c, contexts i = some c → c.gen = none) (a : ℕ)
    (doCleanup : Bool) :
    heldBy (contexts.insert i ⟨some a, doCleanup⟩) = insert a (heldBy contexts) := by
  rw [heldBy_insert h]
  ext b
  simp [eq_comm]

/-- Removing a context gives up what it holds, and nothing else. -/
theorem heldBy_erase (hc : contexts i = some c)
    (hunique : ∀ j c' a, contexts j = some c' → c.gen = some a → c'.gen = some a →
      i = j) (a : ℕ) :
    a ∈ heldBy (contexts.erase i) ↔ a ∈ heldBy contexts ∧ c.gen ≠ some a := by
  constructor
  · rintro ⟨j, c', hc', hgen⟩
    have hne : j ≠ i := by
      rintro rfl
      rw [PartialMap.erase_self] at hc'
      cases hc'
    rw [PartialMap.erase_of_ne _ hne] at hc'
    exact ⟨⟨j, c', hc', hgen⟩, fun hsame => hne (hunique j c' a hc' hsame hgen).symm⟩
  · rintro ⟨⟨j, c', hc', hgen⟩, hother⟩
    have hne : j ≠ i := by
      rintro rfl
      rw [hc] at hc'
      cases hc'
      exact hother hgen
    exact ⟨j, c', (PartialMap.erase_of_ne _ hne).trans hc', hgen⟩

/-- A response stays readable while its context and what the contexts hold stay as they are. -/
theorem Server.Readable.congr {res : List (UInt32 × UInt32)} {response : Response}
    (h : s.Readable y i res response) (hcontext : s'.contexts i = s.contexts i)
    (hkeeps : Keeps (heldBy s.contexts) s.thread s'.thread) : s'.Readable y i res response := by
  cases response with
  | inPlace a len =>
    obtain ⟨⟨c, hc, hgen⟩, body, htext, hlen, hbuffer⟩ := h
    refine ⟨⟨c, hcontext.trans hc, hgen⟩, body, htext, hlen, ?_⟩
    rw [ThreadContext.buffer, hkeeps.heap a ⟨i, c, hc, hgen⟩]
    exact hbuffer
  | inline => trivial
  | error => trivial

/-- The contexts have not changed, and a response that is no matter of theirs was added. -/
theorem Served.respond (h : Served y s) {thread : ThreadContext G} {l : List ℕ}
    {response : Response} (hlist : FreeList y thread l (heldBy s.contexts))
    (hkeeps : Keeps (heldBy s.contexts) s.thread thread)
    (hanswers : Answers y e.tokens e.new response)
    (hother : ∀ query res buf new, e ≠ .items query res buf new) :
    Served y { s with thread := thread, responses := s.responses ++ [(e, response)] } where
  list := ⟨l, hlist⟩
  unique := h.unique
  answers r hr := by
    rcases List.mem_append.mp hr with hr | hr
    · exact h.answers r hr
    · obtain rfl := List.mem_singleton.mp hr
      exact hanswers
  readable query res buf new response' hr := by
    rcases List.mem_append.mp hr with hr | hr
    · obtain ⟨hold, hreadable⟩ := h.readable query res buf new response' hr
      exact ⟨hold, fun c hc => ⟨(hreadable c hc).1, (hreadable c hc).2.congr rfl hkeeps⟩⟩
    · have heq := List.mem_singleton.mp hr
      exact absurd (congrArg Prod.fst heq).symm (hother query res buf new)
  old := h.old

theorem Served.json (hy : y.Documented) (h : Served y s) {new : Option ℕ}
    (hnew : ∀ a, new = some a → s.thread.heap a = none) :
    ∃ s', s.next y (.json new) = some s' ∧ Served y s' := by
  obtain ⟨l, hlist⟩ := h.list
  obtain ⟨response, thread, l', hrespond, hlist', hkeeps, hanswers⟩ :=
    hlist.respondInline hy hnew helloTokens
  refine ⟨_, ?_, h.respond (e := .json new) hlist' hkeeps hanswers
    fun query res buf new hsame => by cases hsame⟩
  rw [Server.next, jsonSerializer, serializeHello_eq, hrespond, Option.map_some]

theorem Served.row (hy : y.Documented) (h : Served y s) (id randomNumber : UInt32) (buf : Memory)
    {new : Option ℕ} (hnew : ∀ a, new = some a → s.thread.heap a = none) :
    ∃ s', s.next y (.row id randomNumber buf new) = some s' ∧ Served y s' := by
  obtain ⟨l, hlist⟩ := h.list
  obtain ⟨response, thread, l', hrespond, hlist', hkeeps, hanswers⟩ :=
    hlist.respondInline hy hnew (itemTokens id randomNumber)
  refine ⟨_, ?_, h.respond (e := .row id randomNumber buf new) hlist' hkeeps hanswers
    fun query res buf new hsame => by cases hsame⟩
  rw [Server.next, onSingleQueryResult, serializeItem_eq, hrespond, Option.map_some]

theorem Served.contexts_numContexts (h : Served y s) : s.contexts s.numContexts = none := by
  cases hc : s.contexts s.numContexts with
  | none => rfl
  | some c => exact absurd (h.old _ c hc).1 (Nat.lt_irrefl _)

theorem Served.query (h : Served y s) : ∃ s', s.next y .query = some s' ∧ Served y s' := by
  have hnone := h.contexts_numContexts
  refine ⟨_, rfl, ⟨?_, ?_, h.answers, ?_, ?_⟩⟩
  · obtain ⟨l, hlist⟩ := h.list
    refine ⟨l, ?_⟩
    rw [heldBy_insert_none fun c hc => by rw [hnone] at hc; cases hc]
    exact hlist
  · intro i j ci cj a hi hj hgi hgj
    simp only [PartialMap.insert_apply] at hi hj
    split at hi
    · cases hi
      cases hgi
    · split at hj
      · cases hj
        cases hgj
      · exact h.unique i j ci cj a hi hj hgi hgj
  · intro i res buf new response hr
    obtain ⟨hold, hreadable⟩ := h.readable i res buf new response hr
    have hcontext := PartialMap.insert_of_ne s.contexts ⟨none, false⟩ hold.ne
    refine ⟨Nat.lt_succ_of_lt hold, fun c hc => ?_⟩
    obtain ⟨hcleanup, hread⟩ := hreadable c (hcontext ▸ hc)
    exact ⟨hcleanup, hread.congr hcontext (.refl _ _)⟩
  · intro i c hc
    simp only [PartialMap.insert_apply] at hc
    split at hc
    · rename_i hi
      cases hc
      exact ⟨hi ▸ Nat.lt_succ_self _, fun _ => rfl⟩
    · exact ⟨Nat.lt_succ_of_lt (h.old i c hc).1, (h.old i c hc).2⟩

theorem Served.items (hy : y.Documented) (h : Served y s) {i : ℕ} {gen : Option ℕ}
    (hc : s.contexts i = some ⟨gen, false⟩) (res : List (UInt32 × UInt32)) (buf : ℕ → Memory)
    {new : Option ℕ} (hnew : ∀ a, new = some a → s.thread.heap a = none) :
    ∃ s', s.next y (.items i res buf new) = some s' ∧ Served y s' := by
  obtain ⟨l, hlist⟩ := h.list
  obtain ⟨hold, hnone⟩ := h.old i _ hc
  have hfree : ∀ c, s.contexts i = some c → c.gen = none := by
    intro c hc'
    rw [hc] at hc'
    cases hc'
    exact hnone rfl
  obtain ⟨gen', response, thread, l', hrespond, hkeeps, hanswers, hcase⟩ :=
    hlist.respondItems hy hnew res buf
  refine ⟨_, by rw [Server.next, hc, Option.bind_some, hrespond, Option.map_some], ?_⟩
  have hfresh : ∀ a, gen' = some a → a ∉ heldBy s.contexts := by
    intro a hgen
    obtain ⟨rfl, -⟩ | ⟨b, body, rfl, hb, -⟩ := hcase
    · cases hgen
    · cases hgen
      exact hb
  refine ⟨?_, ?_, ?_, ?_, ?_⟩
  · refine ⟨l', ?_⟩
    obtain ⟨rfl, -, hlist'⟩ | ⟨a, body, rfl, -, -, hlist', -⟩ := hcase
    · rw [heldBy_insert_none hfree]
      exact hlist'
    · rw [heldBy_insert_some hfree]
      exact hlist'
  · intro j k cj ck a hj hk hgj hgk
    simp only [PartialMap.insert_apply] at hj hk
    split at hj <;> split at hk
    · rename_i hji hki
      exact hji.trans hki.symm
    · cases hj
      exact absurd ⟨k, ck, hk, hgk⟩ (hfresh a hgj)
    · cases hk
      exact absurd ⟨j, cj, hj, hgj⟩ (hfresh a hgk)
    · exact h.unique j k cj ck a hj hk hgj hgk
  · intro r hr
    rcases List.mem_append.mp hr with hr | hr
    · exact h.answers r hr
    · obtain rfl := List.mem_singleton.mp hr
      exact hanswers
  · intro j res' buf' new' response' hr
    rcases List.mem_append.mp hr with hr | hr
    · obtain ⟨hbefore, hreadable⟩ := h.readable j res' buf' new' response' hr
      refine ⟨hbefore, fun c hcj => ?_⟩
      have hne : j ≠ i := by
        rintro rfl
        cases (hreadable _ hc).1
      have hcontext := PartialMap.insert_of_ne s.contexts ⟨gen', true⟩ hne
      obtain ⟨hcleanup, hread⟩ := hreadable c (hcontext ▸ hcj)
      exact ⟨hcleanup, hread.congr hcontext hkeeps⟩
    · cases List.mem_singleton.mp hr
      refine ⟨hold, fun c hci => ?_⟩
      simp only [PartialMap.insert_self] at hci
      cases hci
      refine ⟨rfl, ?_⟩
      obtain ⟨-, rfl, -⟩ | ⟨a, body, rfl, -, rfl, -, htext, hbuffer⟩ := hcase
      · trivial
      · exact ⟨⟨_, PartialMap.insert_self _ _ _, rfl⟩, body, htext, rfl, hbuffer⟩
  · intro j c hcj
    simp only [PartialMap.insert_apply] at hcj
    split at hcj
    · rename_i hji
      cases hcj
      exact ⟨hji ▸ hold, fun hfalse => by cases hfalse⟩
    · exact h.old j c hcj

theorem Served.cleanup (hy : y.Documented) (h : Served y s) {i : ℕ} {c : QueryCtx}
    (hc : s.contexts i = some c) : ∃ s', s.next y (.cleanup i) = some s' ∧ Served y s' := by
  obtain ⟨l, hlist⟩ := h.list
  have hheld := heldBy_erase hc fun j c' a hj => h.unique i j c c' a hc hj
  have hless : ∀ a, a ∈ heldBy (s.contexts.erase i) → a ∈ heldBy s.contexts :=
    fun a ha => ((hheld a).mp ha).1
  obtain ⟨thread, l', hfree, hlist', hkeeps⟩ : ∃ thread l',
      freeJsonGenerator y c.gen true s.thread = some thread ∧
        FreeList y thread l' (heldBy (s.contexts.erase i)) ∧
        Keeps (heldBy (s.contexts.erase i)) s.thread thread := by
    cases hgen : c.gen with
    | none =>
      have hsame : heldBy (s.contexts.erase i) = heldBy s.contexts := by
        ext a
        rw [hheld a, hgen]
        simp
      exact ⟨s.thread, l, rfl, hsame ▸ hlist, .refl _ _⟩
    | some a =>
      have hinsert : heldBy s.contexts = insert a (heldBy (s.contexts.erase i)) := by
        ext b
        rw [Set.mem_insert_iff, hheld b, hgen]
        constructor
        · intro hb
          by_cases hba : b = a
          · exact .inl hba
          · exact .inr ⟨hb, fun hsame => hba (Option.some.inj hsame).symm⟩
        · rintro (rfl | ⟨hb, -⟩)
          · exact ⟨i, c, hc, hgen⟩
          · exact hb
      have ha : a ∉ heldBy (s.contexts.erase i) := fun ha => ((hheld a).mp ha).2 hgen
      exact (hinsert ▸ hlist).free hy ha true
  refine ⟨_, by rw [Server.next, hc, Option.bind_some, hfree, Option.map_some], ?_⟩
  have hothers : ∀ {j c'}, s.contexts.erase i j = some c' → j ≠ i ∧ s.contexts j = some c' := by
    intro j c' hj
    rw [PartialMap.erase_apply] at hj
    split at hj
    · cases hj
    · rename_i hne
      exact ⟨hne, hj⟩
  refine ⟨⟨l', hlist'⟩, ?_, h.answers, ?_, fun j c' hj => h.old j c' (hothers hj).2⟩
  · exact fun j k cj ck a hj hk => h.unique j k cj ck a (hothers hj).2 (hothers hk).2
  · intro j res buf new response hr
    obtain ⟨hold, hreadable⟩ := h.readable j res buf new response hr
    refine ⟨hold, fun c' hj => ?_⟩
    obtain ⟨hne, hbefore⟩ := hothers hj
    obtain ⟨hcleanup, hread⟩ := hreadable c' hbefore
    refine ⟨hcleanup, ?_⟩
    cases response with
    | inPlace a len =>
      obtain ⟨⟨c'', hc'', hgen⟩, body, htext, hlen, hbuffer⟩ := hread
      have hj' : s.contexts.erase i j = some c'' := (PartialMap.erase_of_ne _ hne).trans hc''
      refine ⟨⟨c'', hj', hgen⟩, body, htext, hlen, ?_⟩
      rw [ThreadContext.buffer, hkeeps.heap a ⟨j, c'', hj', hgen⟩]
      exact hbuffer
    | inline => trivial
    | error => trivial

/-- Every event goes well. -/
theorem Served.step (hy : y.Documented) (h : Served y s) (hallowed : s.Allowed e) :
    ∃ s', s.next y e = some s' ∧ Served y s' := by
  obtain ⟨hnew, hcontext⟩ := hallowed
  cases e with
  | json new => exact h.json hy hnew
  | row id randomNumber buf new => exact h.row hy id randomNumber buf hnew
  | query => exact h.query
  | items i res buf new =>
    obtain ⟨gen, hc⟩ := hcontext
    exact h.items hy hc res buf hnew
  | cleanup i =>
    obtain ⟨c, hc⟩ := Option.isSome_iff_exists.mp hcontext
    exact h.cleanup hy hc

theorem freeList_start (maxJsonGenerator : ℕ) :
    FreeList y (.start G maxJsonGenerator : Server G).thread [] (heldBy .empty) where
  chain := rfl
  num := rfl
  max := Nat.zero_le _
  clean a ha := absurd ha List.not_mem_nil
  allocated a := by
    have hnobody : a ∉ heldBy .empty := by
      rintro ⟨i, c, hc, -⟩
      cases hc
    simp [Server.start, hnobody]
  apart a ha := absurd ha List.not_mem_nil

theorem served_start (maxJsonGenerator : ℕ) : Served y (.start G maxJsonGenerator) where
  list := ⟨[], freeList_start maxJsonGenerator⟩
  unique i j ci cj a hi := by cases hi
  answers r hr := absurd hr List.not_mem_nil
  readable i res buf new response hr := absurd hr List.not_mem_nil
  old i c hc := by cases hc

/-- In every run, each response has the text of its own items and can be read until its request is
gone, generators are neither lost nor shared nor used after they were freed, no more of them than
configured wait in the list, and the end of the thread frees all of these. -/
theorem served_of_run {maxJsonGenerator : ℕ} {events : List Event} (hy : y.Documented)
    (hrun : GuardedRun (Server.next y) Server.Allowed (.start G maxJsonGenerator) events s) :
    Served y s ∧ (∀ e, s.Allowed e → (s.next y e).isSome) ∧
      ∃ thread, freeGenerators y s.thread.jsonGeneratorNum s.thread = some thread ∧
        ∀ a, (thread.heap a).isSome ↔ a ∈ heldBy s.contexts := by
  have h : Served y s := by
    refine hrun.invariant (I := Served y) (fun s e s' hs hallowed hnext => ?_)
      (served_start maxJsonGenerator)
    obtain ⟨s'', hnext', hs''⟩ := hs.step hy hallowed
    rw [hnext] at hnext'
    cases hnext'
    exact hs''
  refine ⟨h, fun e hallowed => ?_, ?_⟩
  · obtain ⟨s', hnext, -⟩ := h.step hy hallowed
    rw [hnext]
    rfl
  · obtain ⟨l, hlist⟩ := h.list
    rw [hlist.num]
    exact freeGenerators_spec hlist.chain hlist.allocated hlist.apart

/-- `yajl_gen_state` -/
inductive GenState where
  | start
  | mapStart
  | mapKey
  | mapVal
  | arrayStart
  | inArray
  | complete

/-- The states of the open values, the innermost first, and the buffer. -/
abbrev PlainGen := List GenState × List UInt8

/-- What stands between a value and the one before it. -/
def separator : List GenState → List UInt8
  | .mapKey :: _ | .inArray :: _ => ascii ","
  | .mapVal :: _ => ascii ":"
  | _ => []

/-- A value is complete. -/
def appendedAtom : List GenState → List GenState
  | .start :: rest => .complete :: rest
  | .mapStart :: rest | .mapKey :: rest => .mapVal :: rest
  | .mapVal :: rest => .mapKey :: rest
  | .arrayStart :: rest => .inArray :: rest
  | states => states

def acceptsValue : List GenState → Bool
  | .mapStart :: _ | .mapKey :: _ | .complete :: _ | [] => false
  | _ => true

/-- The generator without beautifying, for texts that need no escapes. -/
def plainGen (token : Token) (g : PlainGen) : Bool × PlainGen :=
  match token with
  | .mapOpen =>
    if acceptsValue g.1 then (true, .mapStart :: g.1, g.2 ++ separator g.1 ++ ascii "\x7b")
    else (false, g)
  | .arrayOpen =>
    if acceptsValue g.1 then (true, .arrayStart :: g.1, g.2 ++ separator g.1 ++ ascii "[")
    else (false, g)
  | .mapClose => (true, appendedAtom g.1.tail, g.2 ++ ascii "\x7d")
  | .arrayClose => (true, appendedAtom g.1.tail, g.2 ++ ascii "]")
  | .string text =>
    (true, appendedAtom g.1, g.2 ++ separator g.1 ++ ascii "\"" ++ text ++ ascii "\"")
  | .number text =>
    if acceptsValue g.1 then (true, appendedAtom g.1, g.2 ++ separator g.1 ++ text) else (false, g)

def plainYajl : Yajl PlainGen where
  alloc := ([.start], [])
  gen := plainGen
  getBuf g := some g.2
  reset g := ([.start], g.2)
  clear g := (g.1, [])

/-- The generator of a response that is gone serves the next one, while another is still held. -/
theorem served_of_run_sample : ∃ s : Server PlainGen,
    s.responses.map Prod.snd = [.inPlace 0 27, .inPlace 1 27,
      .inline (ascii "\x7b\"message\":\"Hello, World!\"\x7d")] ∧
    s.thread.buffer plainYajl 1 = some (ascii "[\x7b\"id\":3,\"randomNumber\":4\x7d]") ∧
    Served plainYajl s ∧ (∀ e, s.Allowed e → (s.next plainYajl e).isSome) ∧
      ∃ thread, freeGenerators plainYajl s.thread.jsonGeneratorNum s.thread = some thread ∧
        ∀ a, (thread.heap a).isSome ↔ a ∈ heldBy s.contexts := by
  obtain ⟨s, hrun, hresponses, hbuffer⟩ : ∃ s : Server PlainGen,
      GuardedRun (Server.next plainYajl) Server.Allowed (.start PlainGen 32)
        [.query, .items 0 [(1, 2)] (fun _ _ => 0) (some 0), .query,
          .items 1 [(3, 4)] (fun _ _ => 0) (some 1), .cleanup 0, .json none] s ∧
      s.responses.map Prod.snd = [.inPlace 0 27, .inPlace 1 27,
        .inline (ascii "\x7b\"message\":\"Hello, World!\"\x7d")] ∧
      s.thread.buffer plainYajl 1 = some (ascii "[\x7b\"id\":3,\"randomNumber\":4\x7d]") := by
    apply Exists.intro
    apply And.intro
    · apply GuardedRun.cons ⟨fun a ha => (by cases ha), trivial⟩ rfl
      apply GuardedRun.cons ⟨fun a ha => by cases ha; rfl, none, rfl⟩
      · simp only [Server.next, respondItems, serializeItems, serializeArray_eq]
        rfl
      apply GuardedRun.cons ⟨fun a ha => (by cases ha), trivial⟩ rfl
      apply GuardedRun.cons ⟨fun a ha => by cases ha; rfl, none, rfl⟩
      · simp only [Server.next, respondItems, serializeItems, serializeArray_eq]
        rfl
      apply GuardedRun.cons ⟨fun a ha => (by cases ha), rfl⟩ rfl
      apply GuardedRun.cons ⟨fun a ha => (by cases ha), trivial⟩ rfl
      exact .nil _
    · exact ⟨rfl, rfl⟩
  exact ⟨s, hresponses, hbuffer, served_of_run (fun g tokens => rfl) hrun⟩

end Serving

end FrameworkBenchmarks.H2o.JsonGenerators
