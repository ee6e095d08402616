import Mathlib.Data.List.Basic
import Mathlib.Logic.Function.Basic

/-!
# Intrusive singly linked queues

A queue keeps a pointer to its first node and the address of the link that ends it: either its own
head pointer or the `next` field of a node. The nodes live in a memory of `next` fields that several
queues share, so a store through the address of a link may also hit a node of another queue.
-/

namespace FrameworkBenchmarks.Common

variable {ι : Type}

/-- A queue: its first node, and the node whose `next` field ends it (`none`: the head pointer). -/
structure Queue (ι : Type) where
  head : Option ι
  tail : Option ι
deriving DecidableEq

namespace Queue

/-- The queue without nodes. -/
def empty : Queue ι := ⟨none, none⟩

/-- `*queue.tail = node`: the queue and the memory afterwards. -/
def storeTail [DecidableEq ι] (q : Queue ι) (next : ι → Option ι) (a : ι) : Queue ι × (ι → Option ι) :=
  match q.tail with
  | none => ({ q with head := some a }, next)
  | some t => (q, Function.update next t (some a))

/-- `node->next = NULL; *queue.tail = node; queue.tail = &node->next` -/
def clearPush [DecidableEq ι] (q : Queue ι) (next : ι → Option ι) (a : ι) : Queue ι × (ι → Option ι) :=
  let stored := q.storeTail (Function.update next a none) a
  ({ stored.1 with tail := some a }, stored.2)

/-- `*queue.tail = node; queue.tail = &node->next; node->next = NULL` -/
def pushClear [DecidableEq ι] (q : Queue ι) (next : ι → Option ι) (a : ι) : Queue ι × (ι → Option ι) :=
  let stored := q.storeTail next a
  ({ stored.1 with tail := some a }, Function.update stored.2 a none)

end Queue

/-- The nodes from a pointer on, in the order in which the links lead to them. -/
def Chain (next : ι → Option ι) : Option ι → List ι → Prop
  | start, [] => start = none
  | start, a :: l => start = some a ∧ Chain next (next a) l

/-- The queue represents the list: its chain, ended by the link that the tail names. -/
structure Represents (next : ι → Option ι) (q : Queue ι) (l : List ι) : Prop where
  chain : Chain next q.head l
  tail : q.tail = l.getLast?

section Chain

variable {next next' : ι → Option ι} {start : Option ι} {l : List ι} {a b : ι}

@[simp] theorem chain_nil : Chain next start [] ↔ start = none := Iff.rfl

@[simp] theorem chain_cons : Chain next start (a :: l) ↔ start = some a ∧ Chain next (next a) l :=
  Iff.rfl

/-- The links of the nodes determine the chain. -/
theorem Chain.congr (h : Chain next start l) (hsame : ∀ a ∈ l, next' a = next a) :
    Chain next' start l := by
  induction l generalizing start with
  | nil => exact h
  | cons a l ih =>
    obtain ⟨hstart, hrest⟩ := h
    refine ⟨hstart, ?_⟩
    rw [hsame a List.mem_cons_self]
    exact ih hrest fun b hb => hsame b (List.mem_cons_of_mem a hb)

/-- A store into a node outside the chain does not change it. -/
theorem Chain.update [DecidableEq ι] (h : Chain next start l) (ha : a ∉ l) (v : Option ι) :
    Chain (Function.update next a v) start l :=
  h.congr fun b hb => Function.update_of_ne (fun heq => ha (by rwa [← heq])) _ _

/-- There is only one chain from a pointer. -/
theorem Chain.unique {l' : List ι} (h : Chain next start l) (h' : Chain next start l') : l = l' := by
  induction l generalizing start l' with
  | nil =>
    cases l' with
    | nil => rfl
    | cons b l' => exact absurd (h.symm.trans h'.1) (by simp)
  | cons a l ih =>
    obtain ⟨hstart, hrest⟩ := h
    cases l' with
    | nil => exact absurd (hstart.symm.trans h') (by simp)
    | cons b l' =>
      obtain ⟨hstart', hrest'⟩ := h'
      obtain rfl : a = b := Option.some.inj (hstart.symm.trans hstart')
      rw [ih hrest hrest']

/-- A chain leads nowhere exactly if it is empty. -/
theorem Chain.eq_nil_iff (h : Chain next start l) : l = [] ↔ start = none := by
  cases l with
  | nil => exact iff_of_true rfl h
  | cons a l => simp [h.1]

/-- The pointer leads to the first node. -/
theorem Chain.start_eq (h : Chain next start l) : start = l.head? := by
  cases l with
  | nil => exact h
  | cons a l => exact h.1

/-- A chain that starts at a node begins with it. -/
theorem Chain.exists_cons (h : Chain next (some a) l) :
    ∃ l', l = a :: l' ∧ Chain next (next a) l' := by
  cases l with
  | nil => cases h
  | cons b l =>
    obtain ⟨heq, hrest⟩ := h
    obtain rfl := Option.some.inj heq
    exact ⟨l, rfl, hrest⟩

/-- Linking a node behind the last one. -/
theorem Chain.append_of_getLast? (h : Chain next start l) (hlast : l.getLast? = some b)
    (hnodup : l.Nodup) (ha : next' a = none) (hb : next' b = some a)
    (hsame : ∀ c ∈ l, c ≠ b → next' c = next c) : Chain next' start (l ++ [a]) := by
  induction l generalizing start with
  | nil => cases hlast
  | cons c l ih =>
    obtain ⟨hstart, hrest⟩ := h
    refine ⟨hstart, ?_⟩
    cases l with
    | nil =>
      obtain rfl : c = b := by simpa using hlast
      exact ⟨hb, ha⟩
    | cons d l =>
      have hcb : c ≠ b := by
        rintro rfl
        have hmem : c ∈ d :: l := List.mem_of_getLast? (by simpa using hlast)
        exact (List.nodup_cons.mp hnodup).1 hmem
      rw [hsame c List.mem_cons_self hcb]
      exact ih hrest (by simpa using hlast) (List.nodup_cons.mp hnodup).2
        fun e he hne => hsame e (List.mem_cons_of_mem c he) hne

/-- A chain through a node continues behind it. -/
theorem Chain.drop {l₁ l₂ : List ι} (h : Chain next start (l₁ ++ a :: l₂)) :
    Chain next (next a) l₂ := by
  induction l₁ generalizing start with
  | nil => exact h.2
  | cons b l₁ ih => exact ih h.2

/-- Redirecting the link to a node around it. -/
theorem Chain.unlink [DecidableEq ι] {l₁ l₂ : List ι} (h : Chain next start (l₁ ++ a :: l₂))
    (hlast : l₁.getLast? = some b) (hnodup : (l₁ ++ l₂).Nodup) :
    Chain (Function.update next b (next a)) start (l₁ ++ l₂) := by
  induction l₁ generalizing start with
  | nil => cases hlast
  | cons c l₁ ih =>
    obtain ⟨hstart, hrest⟩ := h
    refine ⟨hstart, ?_⟩
    rw [List.cons_append, List.nodup_cons] at hnodup
    cases l₁ with
    | nil =>
      obtain rfl : c = b := by simpa using hlast
      rw [Function.update_self]
      exact (Chain.drop (show Chain _ _ ([] ++ _ :: _) from hrest)).update hnodup.1 _
    | cons d l₁ =>
      have hlast' : (d :: l₁).getLast? = some b := by simpa using hlast
      have hcb : c ≠ b := by
        rintro rfl
        exact hnodup.1 (List.mem_append_left _ (List.mem_of_getLast? hlast'))
      rw [Function.update_of_ne hcb]
      exact ih hrest hlast' hnodup.2

end Chain

section Represents

variable {next : ι → Option ι} {q : Queue ι} {l : List ι} {a : ι}

theorem represents_empty : Represents next Queue.empty ([] : List ι) := ⟨rfl, rfl⟩

theorem Represents.congr {next' : ι → Option ι} (h : Represents next q l) (hsame : ∀ a ∈ l, next' a = next a) :
    Represents next' q l :=
  ⟨h.chain.congr hsame, h.tail⟩

variable [DecidableEq ι]

/-- Appending touches the link of the new node and the one that ended the queue. -/
theorem Queue.clearPush_next {b : ι} (hne : b ≠ a) (htail : q.tail ≠ some b) :
    (q.clearPush next a).2 b = next b := by
  simp only [Queue.clearPush, Queue.storeTail]
  split
  · exact Function.update_of_ne hne _ _
  · rename_i t ht
    have hbt : b ≠ t := fun heq => htail (by rw [ht, heq])
    exact (Function.update_of_ne hbt _ _).trans (Function.update_of_ne hne _ _)

theorem Queue.pushClear_next {b : ι} (hne : b ≠ a) (htail : q.tail ≠ some b) :
    (q.pushClear next a).2 b = next b := by
  simp only [Queue.pushClear, Queue.storeTail]
  rw [Function.update_of_ne hne]
  split
  · rfl
  · rename_i t ht
    exact Function.update_of_ne (fun heq => htail (by rw [ht, heq])) _ _

/-- The order of the two stores matters only for a node that ends the queue already. -/
theorem Queue.pushClear_eq (htail : q.tail ≠ some a) : q.pushClear next a = q.clearPush next a := by
  simp only [Queue.pushClear, Queue.clearPush, Queue.storeTail]
  split
  · rfl
  · rename_i t ht
    have hta : a ≠ t := fun heq => htail (by rw [ht, heq])
    rw [Function.update_comm hta]

/-- Appending a node to the queue that ends properly. -/
theorem Represents.clearPush (h : Represents next q l) (hnodup : l.Nodup) (ha : a ∉ l) :
    Represents (q.clearPush next a).2 (q.clearPush next a).1 (l ++ [a]) := by
  have htail := h.tail
  refine ⟨?_, by simp [Queue.clearPush]⟩
  cases hlast : l.getLast? with
  | none =>
    obtain rfl : l = [] := List.getLast?_eq_none_iff.mp hlast
    simp [Queue.clearPush, Queue.storeTail, htail]
  | some t =>
    have hta : t ≠ a := fun heq => ha (heq ▸ List.mem_of_getLast? hlast)
    simp only [Queue.clearPush, Queue.storeTail, htail, hlast]
    refine h.chain.append_of_getLast? hlast hnodup ?_ (Function.update_self _ _ _) ?_
    · rw [Function.update_of_ne hta.symm, Function.update_self]
    · intro c hc hne
      have hca : c ≠ a := fun heq => ha (heq ▸ hc)
      rw [Function.update_of_ne hne, Function.update_of_ne hca]

theorem Represents.pushClear (h : Represents next q l) (hnodup : l.Nodup) (ha : a ∉ l) :
    Represents (q.pushClear next a).2 (q.pushClear next a).1 (l ++ [a]) := by
  have htail : q.tail ≠ some a := fun heq => ha (List.mem_of_getLast? (h.tail.symm.trans heq))
  rw [Queue.pushClear_eq htail]
  exact h.clearPush hnodup ha

omit [DecidableEq ι] in
/-- Taking the first node off; the tail goes back to the head pointer when it was the only one. -/
theorem Represents.pop (h : Represents next q (a :: l)) :
    Represents next ⟨next a, if next a = none then none else q.tail⟩ l := by
  obtain ⟨⟨-, hrest⟩, htail⟩ := h
  refine ⟨hrest, ?_⟩
  cases l with
  | nil => simp [chain_nil.mp hrest]
  | cons b l => simp [hrest.1, htail]

end Represents

end FrameworkBenchmarks.Common
