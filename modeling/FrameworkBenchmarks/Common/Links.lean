import FrameworkBenchmarks.Common.IntrusiveQueue

/-!
# Links of a linked list

A link is a place that holds a pointer to a node: a pointer variable or the `next` field of a node.
A store through the link that follows some nodes keeps the pointers that lead to it.
-/

namespace FrameworkBenchmarks.Common

variable {ι : Type}

/-- The address of a pointer. -/
inductive Link (ι : Type) where
  | variable
  | next (node : ι)
deriving DecidableEq

/-- `*link = pointer`: the pointer variable and the memory afterwards. -/
def Link.store [DecidableEq ι] (link : Link ι) (pointer head : Option ι) (next : ι → Option ι) :
    Option ι × (ι → Option ι) :=
  match link with
  | .variable => (pointer, next)
  | .next node => (head, Function.update next node pointer)

/-- The link behind the nodes. -/
def linkAfter (l : List ι) : Link ι :=
  match l.getLast? with
  | none => .variable
  | some a => .next a

/-- The pointers lead from one through the nodes to another. -/
def Path (next : ι → Option ι) : Option ι → List ι → Option ι → Prop
  | start, [], stop => start = stop
  | start, a :: l, stop => start = some a ∧ Path next (next a) l stop

variable {next next' : ι → Option ι} {start stop : Option ι} {l l' : List ι} {a : ι}

theorem path_none : Path next start l none ↔ Chain next start l := by
  induction l generalizing start with
  | nil => exact Iff.rfl
  | cons a l ih => exact and_congr_right fun _ => ih

theorem path_append : Path next start (l ++ l') stop ↔
    ∃ mid, Path next start l mid ∧ Path next mid l' stop := by
  induction l generalizing start with
  | nil => simp [Path]
  | cons a l ih => simp [Path, ih, and_assoc]

theorem Path.congr (h : Path next start l stop) (hsame : ∀ a ∈ l, next' a = next a) :
    Path next' start l stop := by
  induction l generalizing start with
  | nil => exact h
  | cons a l ih =>
    obtain ⟨hstart, hrest⟩ := h
    refine ⟨hstart, ?_⟩
    rw [hsame a List.mem_cons_self]
    exact ih hrest fun b hb => hsame b (List.mem_cons_of_mem a hb)

theorem Path.update [DecidableEq ι] (h : Path next start l stop) (ha : a ∉ l) (v : Option ι) :
    Path (Function.update next a v) start l stop :=
  h.congr fun b hb => Function.update_of_ne (fun heq => ha (by rwa [← heq])) _ _

/-- A path ends where its last node points to. -/
theorem Path.next_getLast (h : Path next start l stop) (ha : l.getLast? = some a) : next a = stop := by
  induction l generalizing start with
  | nil => cases ha
  | cons b l ih =>
    obtain ⟨-, hrest⟩ := h
    cases l with
    | nil =>
      obtain rfl : b = a := by simpa using ha
      exact hrest
    | cons c l => exact ih hrest (by simpa using ha)

/-- A chain is cut behind a node. -/
theorem Chain.split (h : Chain next start (l ++ l')) (ha : l.getLast? = some a) :
    Path next start l (next a) ∧ Chain next (next a) l' := by
  obtain ⟨mid, hl, hl'⟩ := path_append.mp (path_none.mpr h)
  rw [hl.next_getLast ha]
  exact ⟨hl, path_none.mp hl'⟩

@[simp] theorem linkAfter_nil : linkAfter ([] : List ι) = .variable := rfl

@[simp] theorem linkAfter_concat : linkAfter (l ++ [a]) = .next a := by simp [linkAfter]

theorem linkAfter_of_getLast? (h : l.getLast? = some a) : linkAfter l = .next a := by
  rw [linkAfter, h]

theorem linkAfter_eq_variable : linkAfter l = .variable ↔ l = [] := by
  rw [linkAfter, ← List.getLast?_eq_none_iff]
  cases l.getLast? <;> simp

section Store

variable [DecidableEq ι]

/-- A store through the link behind some nodes leaves the links of the others. -/
theorem store_next_of_not_mem (ha : a ∉ l) (pointer head : Option ι) (next : ι → Option ι) :
    ((linkAfter l).store pointer head next).2 a = next a := by
  unfold linkAfter
  cases hlast : l.getLast? with
  | none => rfl
  | some b =>
    have hab : a ≠ b := fun heq => ha (heq ▸ List.mem_of_getLast? hlast)
    exact Function.update_of_ne hab _ _

/-- A store through the link behind the nodes of a path moves the end of the path. -/
theorem Path.store (h : Path next start l stop) (hnodup : l.Nodup) (pointer : Option ι) :
    Path ((linkAfter l).store pointer start next).2 ((linkAfter l).store pointer start next).1 l
      pointer := by
  rcases List.eq_nil_or_concat l with rfl | ⟨l, b, rfl⟩
  · rfl
  · rw [List.concat_eq_append] at h hnodup ⊢
    obtain ⟨mid, hl, hmid, -⟩ := path_append.mp h
    have hb : b ∉ l := fun hb => (List.nodup_append.mp hnodup).2.2 b hb b (by simp) rfl
    rw [linkAfter_concat]
    exact path_append.mpr ⟨mid, hl.update hb pointer, hmid, Function.update_self _ _ _⟩

/-- Clearing the link behind the last node of a path makes it a chain. -/
theorem Path.cut (h : Path next start l stop) (hnodup : l.Nodup) (ha : l.getLast? = some a) :
    Chain (Function.update next a none) start l := by
  have hstore := h.store hnodup none
  rw [linkAfter_of_getLast? ha] at hstore
  exact path_none.mp hstore

end Store

/-- The nodes of a chain are distinct: each of them determines the rest of the chain. -/
theorem Chain.nodup (h : Chain next start l) : l.Nodup := by
  induction l generalizing start with
  | nil => exact List.nodup_nil
  | cons a l ih =>
    obtain ⟨-, hrest⟩ := h
    refine List.nodup_cons.mpr ⟨fun ha => ?_, ih hrest⟩
    obtain ⟨l₁, l₂, rfl⟩ := List.append_of_mem ha
    have hlength := congrArg List.length (hrest.unique (Chain.drop hrest))
    simp only [List.length_append, List.length_cons] at hlength
    omega

/-- Exactly the last node of a chain has no successor. -/
theorem Chain.next_eq_none (h : Chain next start l) (ha : a ∈ l) :
    next a = none ↔ l.getLast? = some a := by
  refine ⟨fun hnone => ?_, fun hlast => (path_none.mpr h).next_getLast hlast⟩
  obtain ⟨l₁, l₂, rfl⟩ := List.append_of_mem ha
  have hrest : Chain next (next a) l₂ := h.drop
  obtain rfl : l₂ = [] := hrest.eq_nil_iff.mpr hnone
  simp

end FrameworkBenchmarks.Common
