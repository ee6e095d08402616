import FrameworkBenchmarks.Common.Links
import FrameworkBenchmarks.Common.NaturalMerge

/-!
# The list sort of the h2o server

`sort_list` repeats natural merge passes over a linked list in place until a pass has found a single
run, which it recognises by the link behind the merged part: it is still the head pointer.

The memory is the function from nodes to their `next` fields. A function returns `none` when its
fuel runs out or when it dereferences a null pointer.
-/

namespace FrameworkBenchmarks.H2o

open FrameworkBenchmarks.Common

variable {ι : Type}

/-- `compare(x, y) <= 0` -/
def notAfter (compare : ι → ι → ℤ) (x y : ι) : Bool := compare x y ≤ 0

section Functions

variable (compare : ι → ι → ℤ)

/-- The loop of `get_sorted_sublist`. -/
def sortedSublistLoop (next : ι → Option ι) : ℕ → ι → Option ι → Option ι
  | 0, _, _ => none
  | fuel + 1, tail, head =>
    match head with
    | none => some tail
    | some h => if compare tail h ≤ 0 then sortedSublistLoop next fuel h (next h) else some tail

/-- The last node of the ascending run that starts at a node. -/
def getSortedSublist (fuel : ℕ) (next : ι → Option ι) (head : Option ι) : Option (Option ι) :=
  match head with
  | none => some none
  | some h => (sortedSublistLoop compare next fuel h (next h)).map some

variable [DecidableEq ι]

/-- The loop of `merge_lists`: the link `current`, the pointer `ret` and the memory. -/
def mergeLoop : ℕ → Option ι → Option ι → Link ι → Option ι → (ι → Option ι) →
    Option (Option ι × (ι → Option ι))
  | 0, _, _, _, _, _ => none
  | fuel + 1, head1, head2, current, ret, next =>
    match head1, head2 with
    | none, head2 => some (current.store head2 ret next)
    | some a, none => some (current.store (some a) ret next)
    | some a, some b =>
      if compare a b ≤ 0 then
        let stored := current.store (some a) ret next
        mergeLoop fuel (stored.2 a) (some b) (.next a) stored.1 stored.2
      else
        let stored := current.store (some b) ret next
        mergeLoop fuel (some a) (stored.2 b) (.next b) stored.1 stored.2

def mergeLists (fuel : ℕ) (head1 head2 : Option ι) (next : ι → Option ι) :
    Option (Option ι × (ι → Option ι)) :=
  mergeLoop compare fuel head1 head2 .variable none next

/-- The `for` loop of `sort_list`: the link `new_head`, the pointer `head` and the memory. -/
def sortPass (fuel : ℕ) : ℕ → Option ι → Link ι → Option ι → (ι → Option ι) →
    Option (Link ι × Option ι × (ι → Option ι))
  | 0, _, _, _, _ => none
  | _ + 1, none, newHead, head, next => some (newHead, head, next)
  | n + 1, some iter, newHead, head, next => do
    let tail1 ← ← getSortedSublist compare fuel next (some iter)
    match next tail1 with
    | none =>
      let stored := newHead.store (some iter) head next
      return (newHead, stored.1, stored.2)
    | some head2 =>
      let tail2 ← ← getSortedSublist compare fuel next (some head2)
      let rest := next tail2
      let cut := Function.update (Function.update next tail1 none) tail2 none
      let merged ← mergeLists compare fuel (some iter) (some head2) cut
      let stored := newHead.store merged.1 head merged.2
      let newHead := if (stored.2 tail1).isSome then Link.next tail2 else Link.next tail1
      sortPass fuel n rest newHead stored.1 stored.2

/-- The `do` loop of `sort_list`. -/
def sortLoop (fuel : ℕ) : ℕ → Option ι → (ι → Option ι) → Option (Option ι × (ι → Option ι))
  | 0, _, _ => none
  | n + 1, head, next => do
    let pass ← sortPass compare fuel fuel head .variable head next
    if pass.1 = .variable then return pass.2 else sortLoop fuel n pass.2.1 pass.2.2

def sortList (fuel : ℕ) (head : Option ι) (next : ι → Option ι) :
    Option (Option ι × (ι → Option ι)) :=
  sortLoop compare fuel fuel head next

end Functions

/-! ### Runs and merges -/

variable (compare : ι → ι → ℤ) {next : ι → Option ι}

/-- The sublist found is the longest ascending run. -/
theorem sortedSublistLoop_spec {l : List ι} (tail : ι) {head : Option ι} (h : Chain next head l)
    {fuel : ℕ} (hfuel : l.length < fuel) :
    ∃ run rest tail', sortedSublistLoop compare next fuel tail head = some tail' ∧
      l = run ++ rest ∧ (tail :: run).IsChain (fun a b => notAfter compare a b = true) ∧
      (tail :: run).getLast? = some tail' ∧ ∀ d ∈ rest.head?, notAfter compare tail' d = false := by
  induction l generalizing tail head fuel with
  | nil =>
    obtain ⟨fuel, rfl⟩ := Nat.exists_eq_succ_of_ne_zero (Nat.ne_zero_of_lt hfuel)
    obtain rfl := chain_nil.mp h
    exact ⟨[], [], tail, rfl, rfl, List.isChain_singleton _, rfl, by simp⟩
  | cons a l ih =>
    obtain ⟨fuel, rfl⟩ := Nat.exists_eq_succ_of_ne_zero (Nat.ne_zero_of_lt hfuel)
    obtain ⟨rfl, hrest⟩ := h
    by_cases hle : compare tail a ≤ 0
    · obtain ⟨run, rest, tail', heq, rfl, hrun, hlast, hdescent⟩ :=
        ih a hrest (by simpa using hfuel)
      refine ⟨a :: run, rest, tail', ?_, rfl, ?_, ?_, hdescent⟩
      · rw [sortedSublistLoop, if_pos hle, heq]
      · exact List.isChain_cons_cons.mpr ⟨decide_eq_true hle, hrun⟩
      · rw [List.getLast?_cons_cons, hlast]
    · refine ⟨[], a :: l, tail, ?_, rfl, List.isChain_singleton _, rfl, ?_⟩
      · rw [sortedSublistLoop, if_neg hle]
      · rintro d hd
        obtain rfl : a = d := by simpa using hd
        exact decide_eq_false hle

theorem getSortedSublist_spec {l : List ι} {head : ι} (h : Chain next (some head) l)
    {fuel : ℕ} (hfuel : l.length ≤ fuel) :
    ∃ run rest tail, getSortedSublist compare fuel next (some head) = some (some tail) ∧
      l = run ++ rest ∧ run.IsChain (fun a b => notAfter compare a b = true) ∧
      run.head? = some head ∧ run.getLast? = some tail ∧
      ∀ d ∈ rest.head?, notAfter compare tail d = false := by
  obtain ⟨l, rfl, hrest⟩ := h.exists_cons
  obtain ⟨run, rest, tail, heq, rfl, hrun, hlast, hdescent⟩ :=
    sortedSublistLoop_spec compare head hrest (Nat.lt_of_succ_le hfuel)
  refine ⟨head :: run, rest, tail, ?_, rfl, hrun, rfl, hlast, hdescent⟩
  rw [getSortedSublist, heq]
  rfl

variable [DecidableEq ι]

/-- Both lists are merged behind the nodes that lead to `current`; no other node changes. -/
theorem mergeLoop_spec {done l₁ l₂ : List ι} {head1 head2 ret stop : Option ι}
    (hdone : Path next ret done stop) (h₁ : Chain next head1 l₁) (h₂ : Chain next head2 l₂)
    (hnodup : (done ++ (l₁ ++ l₂)).Nodup) {fuel : ℕ} (hfuel : l₁.length + l₂.length < fuel) :
    ∃ ret' next', mergeLoop compare fuel head1 head2 (linkAfter done) ret next = some (ret', next') ∧
      Chain next' ret' (done ++ List.merge l₁ l₂ (notAfter compare)) ∧
      ∀ a ∉ done ++ (l₁ ++ l₂), next' a = next a := by
  induction fuel generalizing done l₁ l₂ head1 head2 ret stop next with
  | zero => exact absurd hfuel (Nat.not_lt_zero _)
  | succ fuel ih =>
    have hpath := hdone.store (List.nodup_append.mp hnodup).1
    have hdisjoint := (List.nodup_append.mp hnodup).2.2
    -- A store behind `done` touches no node of the two lists.
    have hsame : ∀ pointer, ∀ a ∈ l₁ ++ l₂,
        ((linkAfter done).store pointer ret next).2 a = next a := fun pointer a ha =>
      store_next_of_not_mem (fun hmem => hdisjoint a hmem a ha rfl) _ _ _
    have hother : ∀ pointer, ∀ a ∉ done ++ (l₁ ++ l₂),
        ((linkAfter done).store pointer ret next).2 a = next a := fun pointer a ha =>
      store_next_of_not_mem (fun hmem => ha (List.mem_append_left _ hmem)) _ _ _
    cases l₁ with
    | nil =>
      obtain rfl := chain_nil.mp h₁
      refine ⟨_, _, rfl, ?_, hother head2⟩
      rw [List.nil_merge, ← path_none, path_append]
      exact ⟨head2, hpath head2, path_none.mpr (h₂.congr fun a ha => hsame head2 a (by simpa using ha))⟩
    | cons a l₁ =>
      obtain ⟨rfl, hrest₁⟩ : head1 = some a ∧ Chain next (next a) l₁ := h₁
      have h₁ : Chain next (some a) (a :: l₁) := ⟨rfl, hrest₁⟩
      cases l₂ with
      | nil =>
        obtain rfl := chain_nil.mp h₂
        refine ⟨_, _, rfl, ?_, hother (some a)⟩
        rw [List.merge_right, ← path_none, path_append]
        exact ⟨some a, hpath (some a),
          path_none.mpr (h₁.congr fun b hb => hsame (some a) b (by simpa using hb))⟩
      | cons b l₂ =>
        obtain ⟨rfl, hrest₂⟩ := h₂
        have h₂ : Chain next (some b) (b :: l₂) := ⟨rfl, hrest₂⟩
        by_cases hle : compare a b ≤ 0
        · have hdone' : Path ((linkAfter done).store (some a) ret next).2
              ((linkAfter done).store (some a) ret next).1 (done ++ [a])
              (((linkAfter done).store (some a) ret next).2 a) :=
            path_append.mpr ⟨some a, hpath (some a), rfl, rfl⟩
          have h₁' : Chain ((linkAfter done).store (some a) ret next).2
              (((linkAfter done).store (some a) ret next).2 a) l₁ := by
            rw [hsame (some a) a (by simp)]
            exact hrest₁.congr fun c hc => hsame (some a) c (by simp [hc])
          have h₂' : Chain ((linkAfter done).store (some a) ret next).2 (some b) (b :: l₂) :=
            h₂.congr fun c hc => hsame (some a) c (List.mem_append_right _ hc)
          obtain ⟨ret', next', heq, hchain, hframe⟩ := ih hdone' h₁' h₂' (by simpa using hnodup)
            (by simp only [List.length_cons] at hfuel ⊢; omega)
          refine ⟨ret', next', ?_, ?_, fun c hc => ?_⟩
          · rw [mergeLoop, if_pos hle, ← heq, linkAfter_concat]
          · rw [List.cons_merge_cons_pos _ _ _ (decide_eq_true hle)]
            simpa using hchain
          · rw [hframe c (by simpa using hc), hother (some a) c hc]
        · have hdone' : Path ((linkAfter done).store (some b) ret next).2
              ((linkAfter done).store (some b) ret next).1 (done ++ [b])
              (((linkAfter done).store (some b) ret next).2 b) :=
            path_append.mpr ⟨some b, hpath (some b), rfl, rfl⟩
          have hperm : (done ++ [b] ++ (a :: l₁ ++ l₂)).Perm (done ++ (a :: l₁ ++ b :: l₂)) := by
            have hmiddle : (a :: l₁ ++ b :: l₂).Perm (b :: (a :: l₁ ++ l₂)) := List.perm_middle
            rw [List.append_assoc]
            exact List.Perm.append_left done hmiddle.symm
          have h₁' : Chain ((linkAfter done).store (some b) ret next).2 (some a) (a :: l₁) :=
            h₁.congr fun c hc => hsame (some b) c (List.mem_append_left _ hc)
          have h₂' : Chain ((linkAfter done).store (some b) ret next).2
              (((linkAfter done).store (some b) ret next).2 b) l₂ := by
            rw [hsame (some b) b (by simp)]
            exact hrest₂.congr fun c hc => hsame (some b) c (by simp [hc])
          obtain ⟨ret', next', heq, hchain, hframe⟩ := ih hdone' h₁' h₂' (hperm.nodup_iff.mpr hnodup)
            (by simp only [List.length_cons] at hfuel ⊢; omega)
          refine ⟨ret', next', ?_, ?_, fun c hc => ?_⟩
          · rw [mergeLoop, if_neg hle, ← heq, linkAfter_concat]
          · rw [List.cons_merge_cons_neg _ _ _ (by simpa [notAfter] using hle)]
            simpa using hchain
          · rw [hframe c fun hmem => hc (hperm.mem_iff.mp hmem), hother (some b) c hc]

/-! ### Passes -/

/-- The cut runs are merged into one chain, which ends in one of the two tails. -/
theorem mergeLists_spec {run₁ run₂ : List ι} {a b tail1 tail2 : ι}
    (h₁ : Path next (some a) run₁ (some b)) (h₂ : Path next (some b) run₂ (next tail2))
    (hnodup : (run₁ ++ run₂).Nodup) (hlast₁ : run₁.getLast? = some tail1)
    (hlast₂ : run₂.getLast? = some tail2) {fuel : ℕ} (hfuel : run₁.length + run₂.length < fuel) :
    ∃ merged next', mergeLists compare fuel (some a) (some b)
        (Function.update (Function.update next tail1 none) tail2 none) = some (merged, next') ∧
      Chain next' merged (List.merge run₁ run₂ (notAfter compare)) ∧
      ∀ c ∉ run₁ ++ run₂, next' c = next c := by
  obtain ⟨hnodup₁, hnodup₂, hdisjoint⟩ := List.nodup_append.mp hnodup
  have htail1 : tail1 ∈ run₁ := List.mem_of_getLast? hlast₁
  have htail2 : tail2 ∈ run₂ := List.mem_of_getLast? hlast₂
  have hcut₁ := (h₁.cut hnodup₁ hlast₁).update (fun h => hdisjoint tail2 h tail2 htail2 rfl) none
  have hcut₂ := (h₂.update (fun h => hdisjoint tail1 htail1 tail1 h rfl) none).cut hnodup₂ hlast₂
  have hret : Path (Function.update (Function.update next tail1 none) tail2 none) none [] none := rfl
  obtain ⟨merged, next', heq, hchain, hframe⟩ :=
    mergeLoop_spec compare hret hcut₁ hcut₂ hnodup hfuel
  refine ⟨merged, next', heq, hchain, fun c hc => ?_⟩
  have hc₁ : c ≠ tail1 := fun h => hc (List.mem_append_left _ (h ▸ htail1))
  have hc₂ : c ≠ tail2 := fun h => hc (List.mem_append_right _ (h ▸ htail2))
  rw [hframe c hc, Function.update_of_ne hc₂, Function.update_of_ne hc₁]

omit [DecidableEq ι] in
/-- `tail1->next ? &tail2->next : &tail1->next` is the link behind the merged nodes. -/
theorem link_merged {run₁ run₂ : List ι} {merged : Option ι} {tail1 tail2 : ι}
    (h : Chain next merged (List.merge run₁ run₂ (notAfter compare)))
    (hlast₁ : run₁.getLast? = some tail1) (hlast₂ : run₂.getLast? = some tail2) (done : List ι) :
    (if (next tail1).isSome then Link.next tail2 else Link.next tail1) =
      linkAfter (done ++ List.merge run₁ run₂ (notAfter compare)) := by
  have hmem : tail1 ∈ List.merge run₁ run₂ (notAfter compare) :=
    List.mem_merge.mpr (Or.inl (List.mem_of_getLast? hlast₁))
  have hlast : ∀ t, (List.merge run₁ run₂ (notAfter compare)).getLast? = some t →
      linkAfter (done ++ List.merge run₁ run₂ (notAfter compare)) = .next t := fun t ht =>
    linkAfter_of_getLast? (by rw [List.getLast?_append, ht]; rfl)
  by_cases hnone : next tail1 = none
  · rw [hlast tail1 ((h.next_eq_none hmem).mp hnone), hnone]
    rfl
  · have htail2 : (List.merge run₁ run₂ (notAfter compare)).getLast? = some tail2 := by
      rcases getLast?_merge (notAfter compare) run₁ run₂ with hmerge | hmerge
      · exact absurd ((h.next_eq_none hmem).mpr (hmerge.trans hlast₁)) hnone
      · exact hmerge.trans hlast₂
    rw [hlast tail2 htail2, if_pos (Option.isSome_iff_ne_none.mpr hnone)]

/-- A pass leaves the head pointer as the last link exactly if it has found a single run. -/
theorem sortPass_spec {done rest : List ι} {head iter stop : Option ι}
    (hdone : Path next head done stop) (hstop : rest = [] → stop = none)
    (hrest : Chain next iter rest) (hnodup : (done ++ rest).Nodup) {fuel n : ℕ}
    (hfuel : rest.length < fuel) (hn : rest.length < n) :
    ∃ newHead head' next' l',
      sortPass compare fuel n iter (linkAfter done) head next = some (newHead, head', next') ∧
      MergePass (notAfter compare) rest l' ∧ Chain next' head' (done ++ l') ∧
      (∀ c ∉ done ++ rest, next' c = next c) ∧
      (newHead = .variable ↔ done = [] ∧ rest.IsChain fun a b => notAfter compare a b = true) := by
  induction n generalizing done rest head iter stop next with
  | zero => exact absurd hn (Nat.not_lt_zero _)
  | succ n ih =>
    obtain ⟨hnodupd, hnodupr, hdisjoint⟩ := List.nodup_append.mp hnodup
    cases rest with
    | nil =>
      obtain rfl := chain_nil.mp hrest
      obtain rfl := hstop rfl
      refine ⟨_, _, _, [], rfl, .nil, ?_, fun _ _ => rfl, ?_⟩
      · rw [List.append_nil]
        exact path_none.mp hdone
      · rw [linkAfter_eq_variable]
        exact (and_iff_left List.isChain_nil).symm
    | cons a rest =>
      obtain rfl : iter = some a := hrest.1
      obtain ⟨run₁, rest₁, tail1, htail1, hsplit, hrun₁, hhead₁, hlast₁, hdescent₁⟩ :=
        getSortedSublist_spec compare hrest hfuel.le
      rw [hsplit] at hrest hnodup hnodupr hdisjoint hfuel hn ⊢
      obtain ⟨hpath₁, hrest₁⟩ := hrest.split hlast₁
      cases rest₁ with
      | nil =>
        -- A single run is left; it is linked as it is.
        rw [List.append_nil] at hrest hdisjoint hnodup ⊢
        have hnone : next tail1 = none := chain_nil.mp hrest₁
        refine ⟨linkAfter done, ((linkAfter done).store (some a) head next).1,
          ((linkAfter done).store (some a) head next).2, run₁, ?_, .single hrun₁, ?_,
          fun c hc => ?_, ?_⟩
        · simp only [sortPass, htail1, hnone, Option.pure_def, Option.bind_eq_bind, Option.bind_some]
        · refine path_none.mp (path_append.mpr ⟨some a, hdone.store hnodupd (some a), ?_⟩)
          exact path_none.mpr (hrest.congr fun c hc =>
            store_next_of_not_mem (fun hmem => hdisjoint c hmem c hc rfl) _ _ _)
        · exact store_next_of_not_mem (fun hmem => hc (List.mem_append_left _ hmem)) _ _ _
        · rw [linkAfter_eq_variable]
          exact (and_iff_left hrun₁).symm
      | cons b rest₁ =>
        have hnext₁ : next tail1 = some b := hrest₁.1
        rw [hnext₁] at hpath₁ hrest₁
        obtain ⟨run₂, rest₂, tail2, htail2, hsplit₂, hrun₂, hhead₂, hlast₂, hdescent₂⟩ :=
          getSortedSublist_spec compare hrest₁ (show (b :: rest₁).length ≤ fuel by
            rw [List.length_append] at hfuel
            omega)
        have hdescent : notAfter compare tail1 b = false := hdescent₁ b rfl
        rw [hsplit₂, ← List.append_assoc] at hnodup hnodupr hdisjoint hfuel hn ⊢
        rw [hsplit₂] at hrest₁
        obtain ⟨hpath₂, hrest₂⟩ := hrest₁.split hlast₂
        obtain ⟨hnodup₁₂, hnodup₂, hdisjoint₂⟩ := List.nodup_append.mp hnodupr
        simp only [List.length_append] at hfuel hn
        obtain ⟨merged, next', hmerge, hchain, hframe⟩ :=
          mergeLists_spec compare hpath₁ hpath₂ hnodup₁₂ hlast₁ hlast₂
            (show run₁.length + run₂.length < fuel by omega)
        have hpos : 0 < run₁.length := List.length_pos_of_mem (List.mem_of_getLast? hlast₁)
        have hperm : (List.merge run₁ run₂ (notAfter compare)).Perm (run₁ ++ run₂) :=
          List.merge_perm_append _
        have hdone' : ∀ c ∈ run₁ ++ run₂ ++ rest₂, c ∉ done := fun c hc hmem => hdisjoint c hmem c hc rfl
        have hsame : ∀ c ∉ done, ((linkAfter done).store merged head next').2 c = next' c :=
          fun c hc => store_next_of_not_mem hc _ _ _
        have hchain₁ : Chain ((linkAfter done).store merged head next').2 merged
            (List.merge run₁ run₂ (notAfter compare)) := hchain.congr fun c hc =>
          hsame c (hdone' c (List.mem_append_left _ (hperm.mem_iff.mp hc)))
        have hpath : Path ((linkAfter done).store merged head next').2
            ((linkAfter done).store merged head next').1
            (done ++ List.merge run₁ run₂ (notAfter compare)) none := by
          refine path_append.mpr ⟨merged, ?_, path_none.mpr hchain₁⟩
          exact (hdone.congr fun c hc => hframe c fun hmem =>
            hdone' c (List.mem_append_left _ hmem) hc).store hnodupd merged
        have hrest' : Chain ((linkAfter done).store merged head next').2 (next tail2) rest₂ :=
          hrest₂.congr fun c hc => (hsame c (hdone' c (List.mem_append_right _ hc))).trans
            (hframe c fun hmem => hdisjoint₂ c hmem c hc rfl)
        have hnodup' : (done ++ List.merge run₁ run₂ (notAfter compare) ++ rest₂).Nodup := by
          rw [List.append_assoc]
          refine ((List.Perm.append_left done (hperm.append_right rest₂)).nodup_iff).mpr ?_
          simpa only [List.append_assoc] using hnodup
        obtain ⟨newHead, head', next'', l', heq, hpass, hchain', hframe', hvariable⟩ :=
          ih hpath (fun _ => rfl) hrest' hnodup' (show rest₂.length < fuel by omega)
            (show rest₂.length < n by omega)
        refine ⟨newHead, head', next'', List.merge run₁ run₂ (notAfter compare) ++ l', ?_,
          ?_, ?_, fun c hc => ?_, ?_⟩
        · rw [← heq, ← link_merged compare hchain₁ hlast₁ hlast₂ done]
          simp only [sortPass, htail1, hnext₁, htail2, hmerge, Option.bind_eq_bind,
            Option.bind_some]
        · exact .pair hrun₁ hrun₂ hlast₁ hhead₂ hdescent (by
            rintro c hc d hd
            obtain rfl : tail2 = c := by simpa [hlast₂] using hc
            exact hdescent₂ d hd) hpass
        · rwa [← List.append_assoc]
        · have hcdone : c ∉ done := fun h => hc (List.mem_append_left _ h)
          have hcrest : c ∉ run₁ ++ run₂ ++ rest₂ := fun h => hc (List.mem_append_right _ h)
          have hcruns : c ∉ run₁ ++ run₂ := fun h => hcrest (List.mem_append_left _ h)
          rw [hframe' c, hsame c hcdone, hframe c hcruns]
          simp only [List.mem_append, not_or] at hcrest hcdone ⊢
          exact ⟨⟨hcdone, fun h => hcruns (hperm.mem_iff.mp h)⟩, hcrest.2⟩
        · -- Two runs were merged, so the list behind `done` had a descent.
          have hne : done ++ List.merge run₁ run₂ (notAfter compare) ≠ [] :=
            List.append_ne_nil_of_right_ne_nil _
              (merge_ne_nil (Or.inl (List.length_pos_iff.mp hpos)))
          have hnot : ¬(run₁ ++ run₂ ++ rest₂).IsChain fun a b => notAfter compare a b = true := by
            intro h
            have hab := (List.isChain_append.mp (List.isChain_append.mp h).1).2.2 tail1 hlast₁ b hhead₂
            rw [hdescent] at hab
            cases hab
          rw [hvariable]
          exact iff_of_false (fun h => hne h.1) fun h => hnot h.2

/-- Every pass that finds more than one run leaves fewer descents, so the loop ends; it ends with a
list that does not descend. -/
theorem sortLoop_spec (hcompare : TotalPreorder (notAfter compare)) {l : List ι} {head : Option ι}
    (h : Chain next head l) {fuel n : ℕ} (hfuel : l.length < fuel)
    (hn : descents (notAfter compare) l < n) :
    ∃ head' next' l', sortLoop compare fuel n head next = some (head', next') ∧
      Chain next' head' l' ∧ l'.Perm l ∧
      (l'.IsChain fun a b => notAfter compare a b = true) ∧
      (∀ c, l'.filter (fun a => notAfter compare a c && notAfter compare c a) =
        l.filter fun a => notAfter compare a c && notAfter compare c a) ∧
      ∀ c ∉ l, next' c = next c := by
  induction n generalizing l head next with
  | zero => exact absurd hn (Nat.not_lt_zero _)
  | succ n ih =>
    obtain ⟨newHead, head', next', l', heq, hpass, hchain, hframe, hvariable⟩ :=
      sortPass_spec compare (show Path next head [] head from rfl) h.eq_nil_iff.mp h h.nodup hfuel
        hfuel
    rw [linkAfter_nil] at heq
    rw [List.nil_append] at hchain hframe
    have hdescents := hpass.descents_le hcompare
    have hperm := hpass.perm
    by_cases hend : newHead = .variable
    · refine ⟨head', next', l', ?_, hchain, hperm, ?_, hpass.filter_eq hcompare, hframe⟩
      · rw [sortLoop, heq]
        exact if_pos hend
      · have hzero := descents_eq_zero.mpr (hvariable.mp hend).2
        rw [hzero] at hdescents
        exact descents_eq_zero.mp (Nat.le_zero.mp hdescents)
    · have hpos : descents (notAfter compare) l ≠ 0 := fun hzero =>
        hend (hvariable.mpr ⟨rfl, descents_eq_zero.mp hzero⟩)
      obtain ⟨head'', next'', l'', heq', hchain', hperm', hsorted, hfilter, hframe'⟩ :=
        ih hchain (hperm.length_eq ▸ hfuel) (by omega)
      refine ⟨head'', next'', l'', ?_, hchain', hperm'.trans hperm, hsorted, fun c => ?_,
        fun c hc => ?_⟩
      · rw [sortLoop, heq]
        exact (if_neg hend).trans heq'
      · rw [hfilter c, hpass.filter_eq hcompare c]
      · rw [hframe' c fun hmem => hc (hperm.mem_iff.mp hmem), hframe c hc]

/-- `sort_list` terminates and returns the nodes of the list in ascending order; nodes that compare
equal keep their order, and no other node is touched. -/
theorem sortList_sorts (hcompare : TotalPreorder (notAfter compare)) {l : List ι} {head : Option ι}
    (h : Chain next head l) {fuel : ℕ} (hfuel : l.length < fuel) :
    ∃ head' next' l', sortList compare fuel head next = some (head', next') ∧
      Chain next' head' l' ∧ l'.Perm l ∧ l'.Pairwise (fun a b => compare a b ≤ 0) ∧
      (∀ c, l'.filter (fun a => compare a c ≤ 0 ∧ compare c a ≤ 0) =
        l.filter fun a => compare a c ≤ 0 ∧ compare c a ≤ 0) ∧
      ∀ c ∉ l, next' c = next c := by
  obtain ⟨head', next', l', heq, hchain, hperm, hsorted, hfilter, hframe⟩ :=
    sortLoop_spec compare hcompare h hfuel ((descents_le_length l).trans_lt hfuel)
  refine ⟨head', next', l', heq, hchain, hperm, ?_, fun c => ?_, hframe⟩
  · simpa only [notAfter, decide_eq_true_eq] using pairwise_of_isChain hcompare hsorted
  · simpa only [notAfter, Bool.decide_and] using hfilter c

theorem sortList_sorts_three :
    TotalPreorder (notAfter fun x y : ℕ => (x : ℤ) / 10 - (y : ℤ) / 10) ∧
    ∃ head' next' l', sortList (fun x y : ℕ => (x : ℤ) / 10 - (y : ℤ) / 10) 4 (some 21)
        (fun a => if a = 21 then some 10 else if a = 10 then some 20 else none) =
          some (head', next') ∧
      Chain next' head' l' ∧ l'.Perm [21, 10, 20] ∧
      l'.Pairwise (fun a b : ℕ => (a : ℤ) / 10 - (b : ℤ) / 10 ≤ 0) ∧
      (∀ c : ℕ, l'.filter (fun a : ℕ => (a : ℤ) / 10 - (c : ℤ) / 10 ≤ 0 ∧
          (c : ℤ) / 10 - (a : ℤ) / 10 ≤ 0) =
        [21, 10, 20].filter fun a : ℕ => (a : ℤ) / 10 - (c : ℤ) / 10 ≤ 0 ∧
          (c : ℤ) / 10 - (a : ℤ) / 10 ≤ 0) ∧
      ∀ c : ℕ, c ∉ [21, 10, 20] →
        next' c = if c = 21 then some 10 else if c = 10 then some 20 else none := by
  have hcompare : TotalPreorder (notAfter fun x y : ℕ => (x : ℤ) / 10 - (y : ℤ) / 10) := by
    refine ⟨fun a b c hab hbc => ?_, fun a b => ?_⟩
    · simp only [notAfter, decide_eq_true_eq] at hab hbc ⊢
      omega
    · simp only [notAfter, decide_eq_true_eq]
      omega
  have hchain : Chain (fun a : ℕ => if a = 21 then some 10 else if a = 10 then some 20 else none)
      (some 21) [21, 10, 20] := ⟨rfl, rfl, rfl, rfl⟩
  exact ⟨hcompare, sortList_sorts _ hcompare hchain (by decide)⟩

end FrameworkBenchmarks.H2o
