import FrameworkBenchmarks.Zebra.Trie
import Mathlib.Data.List.Induction

/-!
# The nodes of the trie of static routes

The strings that nodes spell are determined by the registered paths: the root, the paths, and the
points where two of them part.
-/

namespace FrameworkBenchmarks.Zebra

variable {C H : Type}

/-- A string is a stop of a list of paths if it is empty, one of them, or the point where two of
them part. -/
def IsStop (paths : List (List C)) (v : List C) : Prop :=
  v = [] ∨ v ∈ paths ∨
    ∃ c d, c ≠ d ∧ (∃ p ∈ paths, v ++ [c] <+: p) ∧ ∃ p ∈ paths, v ++ [d] <+: p

/-- A stop and one of the next stops beyond it. -/
structure NextStop (paths : List (List C)) (v w : List C) : Prop where
  isStop_left : IsStop paths v
  isStop_right : IsStop paths w
  isPrefix : v <+: w
  ne : v ≠ w
  next : ∀ u, IsStop paths u → v <+: u → u <+: w → u = v ∨ u = w

variable [DecidableEq C]

namespace RNode

/-- A node has functions, or edges for two characters. -/
def Occupied (node : RNode C H) : Prop :=
  node.fns ≠ ([], []) ∨
    ∃ c d, c ≠ d ∧ (node.tryGetValue c).isSome ∧ (node.tryGetValue d).isSome

/-- No node has method filters, and all nodes below this one are occupied. -/
inductive Plain : RNode C H → Prop where
  | mk {node : RNode C H} (filters : node.methodFilters = [])
    (occupied : ∀ c cnode, node.tryGetValue c = some cnode → cnode.Occupied)
    (below : ∀ c cnode, node.tryGetValue c = some cnode → Plain cnode) : Plain node

theorem Plain.methodFilters {node : RNode C H} (h : node.Plain) : node.methodFilters = [] := by
  obtain ⟨filters, -, -⟩ := h
  exact filters

/-- The children of a plain node. -/
theorem Plain.child {node cnode : RNode C H} (h : node.Plain) {c : C}
    (hc : node.tryGetValue c = some cnode) : cnode.Occupied ∧ cnode.Plain := by
  obtain ⟨-, occupied, below⟩ := h
  exact ⟨occupied c cnode hc, below c cnode hc⟩

/-- A leaf without filters. -/
theorem Plain.of_leaf {node : RNode C H} (hf : node.methodFilters = []) (he : node.edges = []) :
    node.Plain := by
  refine ⟨hf, ?_, ?_⟩ <;> intro c cnode hc <;> simp [tryGetValue, he] at hc

/-- A node with the edges of a plain one. -/
theorem Plain.of_edges {node node' : RNode C H} (h : node.Plain)
    (hf : node'.methodFilters = []) (he : node'.edges = node.edges) : node'.Plain := by
  refine ⟨hf, ?_, ?_⟩ <;> intro c cnode hc <;> simp only [tryGetValue, he] at hc
  · exact (h.child hc).1
  · exact (h.child hc).2

theorem Plain.splitAt {node : RNode C H} (h : node.Plain) (ho : node.Occupied) (pre : List C)
    (c : C) (rest : List C) : (node.splitAt pre c rest).Plain := by
  refine ⟨h.methodFilters, ?_, ?_⟩ <;> intro d cnode hd <;> rw [tryGetValue_splitAt] at hd <;>
    split at hd <;> cases hd
  · exact ho
  · exact h.of_edges rfl rfl

theorem Plain.addEdge {node child : RNode C H} (h : node.Plain) {c : C}
    (hc : node.tryGetValue c = none) (ho : child.Occupied) (hchild : child.Plain) :
    (node.addEdge c child).Plain := by
  refine ⟨h.methodFilters, ?_, ?_⟩ <;> intro d cnode hd <;> rw [tryGetValue_addEdge _ hc] at hd <;>
    split at hd
  · cases hd
    exact ho
  · exact (h.child hd).1
  · cases hd
    exact hchild
  · exact (h.child hd).2

theorem Plain.setChild {node cnode child : RNode C H} (h : node.Plain) {c : C}
    (hc : node.tryGetValue c = some cnode) (ho : child.Occupied) (hchild : child.Plain) :
    (node.setChild c child).Plain := by
  refine ⟨h.methodFilters, ?_, ?_⟩ <;> intro d cnode' hd <;> rw [tryGetValue_setChild _ hc] at hd <;>
    split at hd
  · cases hd
    exact ho
  · exact (h.child hd).1
  · cases hd
    exact hchild
  · exact (h.child hd).2

/-- A node that has received a function is occupied. -/
theorem occupied_addFn {rc : Cont C H} (hrc : ∀ fs, insertFn rc fs ≠ ([], []))
    (node : RNode C H) : (node.addFn rc).Occupied :=
  .inl (by rw [fns_addFn]; exact hrc _)

/-- An occupied node stays so when edges are added. -/
theorem Occupied.mono {node node' : RNode C H} (h : node.Occupied) (hfns : node'.fns = node.fns)
    (hedges : ∀ c, (node.tryGetValue c).isSome → (node'.tryGetValue c).isSome) :
    node'.Occupied := by
  rcases h with h | ⟨c, d, hcd, hc, hd⟩
  · exact .inl (hfns ▸ h)
  · exact .inr ⟨c, d, hcd, hedges c hc, hedges d hd⟩

/-- Adding a function keeps a plain node plain. -/
theorem Added.plain {rc : Cont C H} (hrc : ∀ fs, insertFn rc fs ≠ ([], []))
    {node node' : RNode C H} {path loc : List C} (h : Added rc node path node' loc)
    (hp : node.Plain) (ho : node.Occupied) : node'.Plain ∧ node'.Occupied := by
  induction h with
  | full => exact ⟨hp.of_edges (by simp [hp.methodFilters]) (by simp), occupied_addFn hrc _⟩
  | @inToken node pre c rest htoken hpre =>
    have hsplit := hp.splitAt ho pre c rest
    exact ⟨hsplit.of_edges ((methodFilters_addFn _ _).trans hsplit.methodFilters)
      (edges_addFn _ _), occupied_addFn hrc _⟩
  | child hc added ih =>
    obtain ⟨hoc, hpc⟩ := hp.child hc
    obtain ⟨hpc', hoc'⟩ := ih hpc hoc
    refine ⟨hp.setChild hc hoc' hpc', ho.mono rfl fun d hd => ?_⟩
    rw [tryGetValue_setChild _ hc]
    split <;> simp [hd]
  | leaf hc =>
    refine ⟨hp.addEdge hc (occupied_addFn hrc _) (.of_leaf (by simp) (by simp)),
      ho.mono rfl fun d hd => ?_⟩
    rw [tryGetValue_addEdge _ hc]
    split <;> simp [hd]
  | @fork node pre d rest' c rest htoken hpre hcd =>
    have hc : (node.splitAt pre d rest').tryGetValue c = none := by
      rw [tryGetValue_splitAt, if_neg hcd]
    refine ⟨(hp.splitAt ho _ _ _).addEdge hc (occupied_addFn hrc _) (.of_leaf (by simp) (by simp)),
      .inr ⟨c, d, hcd, ?_, ?_⟩⟩ <;> rw [tryGetValue_addEdge _ hc]
    · simp
    · simp [Ne.symm hcd, tryGetValue_splitAt]

/-- Registration below a plain root. -/
theorem Plain.extendPath {root root' : RNode C H} {path loc : List C} {rc : Cont C H}
    (hrc : ∀ fs, insertFn rc fs ≠ ([], [])) (hp : root.Plain) (hk : root.Keyed)
    (h : root.extendPath path rc = some (root', loc)) : root'.Plain := by
  cases path with
  | nil =>
    cases h
    exact hp.of_edges (by simpa using hp.methodFilters) (edges_addFn _ _)
  | cons c path =>
    cases hc : root.tryGetValue c with
    | none =>
      simp only [RNode.extendPath, hc] at h
      cases h
      exact hp.addEdge hc (occupied_addFn hrc _) (.of_leaf (by simp) (by simp))
    | some cnode =>
      obtain ⟨cnode', loc', hadd, hadded⟩ :=
        exists_added (hk.child hc).2 rc (show (c :: path).head? = some c from rfl) (hk.child hc).1
      simp only [RNode.extendPath, hc, hadd] at h
      cases h
      obtain ⟨hpc, hoc⟩ := hadded.plain hrc (hp.child hc).2 (hp.child hc).1
      exact hp.setChild hc hoc hpc

end RNode

/-- The functions that the routes registered for a path hang on its node, the last one first. -/
def handlersAt (routes : List (Route C H)) (q : List C) : List (Cont C H) :=
  (routes.reverse.filter (·.path = q)).map fun r => .handlerMap r.method r.inode

omit [DecidableEq C] in
/-- A handler comes before the handlers that are there. -/
theorem addSorted_handlerMap {m : Methods} {inode : H} {fns : List (Cont C H)}
    (h : ∀ f ∈ fns, f.precedence = 0) :
    addSorted (.handlerMap m inode) fns = .handlerMap m inode :: fns := by
  refine List.Pairwise.insertionSort_eq (List.pairwise_cons.2 ⟨fun f _ => Nat.zero_le _, ?_⟩)
  exact List.pairwise_of_forall_mem_list fun f hf g _ => by simp [h f hf]

/-- A route registered last hangs its function in front of the others of its path. -/
theorem handlersAt_append_singleton (routes : List (Route C H)) (r : Route C H) (q : List C) :
    ([], handlersAt (routes ++ [r]) q) =
      if q = r.path then
        RNode.insertFn (.handlerMap r.method r.inode) ([], handlersAt routes q)
      else ([], handlersAt routes q) := by
  by_cases hq : q = r.path
  · have hprec : ∀ f ∈ handlersAt routes q, f.precedence = 0 := by
      intro f hf
      obtain ⟨_, -, rfl⟩ := List.mem_map.1 hf
      rfl
    rw [if_pos hq, RNode.insertFn, addSorted_handlerMap hprec]
    simp [handlersAt, hq]
  · rw [if_neg hq]
    simp [handlersAt, Ne.symm hq]

/-- The trie of a list of static routes. -/
structure TrieOf (routes : List (Route C H)) (root : RNode C H) : Prop where
  token : root.token = []
  keyed : root.Keyed
  plain : root.Plain
  functionsAt : ∀ q, root.functionsAt q = ([], handlersAt routes q)

/-- Every registration succeeds. -/
theorem TrieOf.route {routes : List (Route C H)} {root : RNode C H} (h : TrieOf routes root)
    (r : Route C H) :
    ∃ root' loc, route r root = some (root', loc) ∧ TrieOf (routes ++ [r]) root' := by
  obtain ⟨root', loc, hroute, htoken, hkeyed, hfunctions⟩ :=
    RNode.exists_extendPath h.token h.keyed r.path (.handlerMap r.method r.inode)
  have hplain : root'.Plain := by
    refine h.plain.extendPath (fun fs hfs => ?_) h.keyed hroute
    have hlength := congrArg (fun fs => fs.2.length) hfs
    simp [RNode.insertFn, addSorted, List.length_insertionSort, -List.insertionSort_cons]
      at hlength
  refine ⟨root', loc, hroute, htoken, hkeyed, hplain, fun q => ?_⟩
  rw [hfunctions, h.functionsAt, handlersAt_append_singleton]

/-- The router's trie is built without an exception. -/
theorem exists_trieOf (routes : List (Route C H)) :
    ∃ root, routerNode routes = some root ∧ TrieOf routes root := by
  induction routes using List.reverseRecOn with
  | nil =>
    refine ⟨{ token := [] }, rfl, rfl, .of_leaf rfl, .of_leaf rfl rfl, fun q => ?_⟩
    rw [RNode.functionsAt_leaf rfl]
    split <;> rfl
  | append_singleton routes r ih =>
    obtain ⟨root, hroot, htrie⟩ := ih
    obtain ⟨root', loc, hroute, htrie'⟩ := htrie.route r
    refine ⟨root', ?_, htrie'⟩
    rw [routerNode] at hroot ⊢
    simp [List.foldlM_append, hroot, hroute]

namespace RNode

/-- From a node that a string spells, the edge of the next character leads on. -/
theorem reach_append {node n : RNode C H} {v : List C} (h : node.reach v = some n) (c : C)
    (rest : List C) :
    node.reach (v ++ c :: rest) = (n.tryGetValue c).bind fun cnode => cnode.reach (c :: rest) := by
  fun_induction reach node v with
  | case1 node v hp hdrop =>
    cases h
    obtain ⟨r, rfl⟩ := hp
    rw [List.drop_left] at hdrop
    subst hdrop
    rw [List.append_nil, reach_append_cons]
  | case2 node v hp d rest' hdrop cnode hc ih =>
    obtain ⟨r, rfl⟩ := hp
    rw [List.drop_left] at hdrop
    subst hdrop
    rw [List.append_assoc, List.cons_append, reach_append_cons, hc, Option.bind_some]
    exact ih h
  | case3 => cases h
  | case4 => cases h

/-- A node found is the first one, or it is occupied; it is keyed and plain as the first one is. -/
theorem Plain.reach {node n : RNode C H} (hp : node.Plain) (hk : node.Keyed) {v : List C}
    (h : node.reach v = some n) :
    n.Plain ∧ n.Keyed ∧ (v = node.token ∧ n = node ∨ n.Occupied) := by
  fun_induction RNode.reach node v with
  | case1 node v hpre hdrop =>
    cases h
    obtain ⟨r, rfl⟩ := hpre
    rw [List.drop_left] at hdrop
    subst hdrop
    exact ⟨hp, hk, .inl ⟨List.append_nil _, rfl⟩⟩
  | case2 node v hpre d rest' hdrop cnode hc ih =>
    obtain ⟨hplain, hkeyed, hor⟩ := ih (hp.child hc).2 (hk.child hc).2 h
    refine ⟨hplain, hkeyed, .inr ?_⟩
    rcases hor with ⟨-, rfl⟩ | ho
    · exact (hp.child hc).1
    · exact ho
  | case3 => cases h
  | case4 => cases h

/-- The strings at which a child has functions start with the character of its edge. -/
theorem exists_cons_of_functionsAt {cnode : RNode C H} {c : C} {q : List C}
    (hkey : cnode.token.head? = some c) (hq : cnode.functionsAt q ≠ ([], [])) :
    ∃ rest, q = c :: rest := by
  have hp : cnode.token <+: q := by
    by_contra hp
    exact hq (functionsAt_elsewhere hp)
  obtain ⟨t, ht⟩ : ∃ t, cnode.token = c :: t := List.head?_eq_some_iff.1 hkey
  obtain ⟨r, rfl⟩ := hp
  exact ⟨t ++ r, by rw [ht, List.cons_append]⟩

/-- Below an occupied node some function is found. -/
theorem exists_functionsAt {node : RNode C H} (ho : node.Occupied) (hp : node.Plain)
    (hk : node.Keyed) : ∃ q, node.functionsAt q ≠ ([], []) := by
  induction hn : sizeOf node using Nat.strong_induction_on generalizing node with
  | _ n ih =>
    rcases ho with hfns | ⟨c, _, _, hc, _⟩
    · exact ⟨node.token, by rwa [functionsAt_token rfl]⟩
    · obtain ⟨cnode, hc⟩ := Option.isSome_iff_exists.1 hc
      obtain ⟨hkey, hkc⟩ := hk.child hc
      obtain ⟨hoc, hpc⟩ := hp.child hc
      obtain ⟨q, hq⟩ := ih _ (hn ▸ sizeOf_tryGetValue hc) hoc hpc hkc rfl
      obtain ⟨rest, rfl⟩ := exists_cons_of_functionsAt hkey hq
      refine ⟨node.token ++ c :: rest, ?_⟩
      rwa [functionsAt_append_cons rfl, hc]

/-- Where two strings that are spelled part, there is a node. -/
theorem exists_reach_of_parting {node n₁ n₂ : RNode C H} {q r₁ r₂ : List C} {c d : C} (hcd : c ≠ d)
    (h₁ : node.reach (q ++ c :: r₁) = some n₁) (h₂ : node.reach (q ++ d :: r₂) = some n₂) :
    ∃ n, node.reach q = some n := by
  induction hn : sizeOf node using Nat.strong_induction_on generalizing node q with
  | _ k ih =>
    rcases token_cases node.token q with hq | rfl | ⟨e, r, rfl⟩
    · -- the token would go on past `q` with both characters
      have hpre : ∀ {x r n}, node.reach (q ++ x :: r) = some n → q ++ [x] <+: node.token := by
        intro x r n h
        have hp : node.token <+: q ++ x :: r := by
          by_contra hp
          rw [reach_elsewhere hp] at h
          cases h
        have hlen : q.length < node.token.length := by
          by_contra hlen
          exact hq (List.prefix_of_prefix_length_le hp (List.prefix_append _ _) (by omega))
        refine List.prefix_of_prefix_length_le ⟨r, by simp⟩ hp ?_
        rw [List.length_append, List.length_singleton]
        exact hlen
      have heq := List.prefix_of_prefix_length_le (hpre h₁) (hpre h₂) (by simp)
      simp [List.prefix_append_right_inj] at heq
      exact absurd heq hcd
    · exact ⟨node, reach_token node⟩
    · rw [List.append_assoc, List.cons_append, reach_append_cons] at h₁ h₂
      rw [reach_append_cons]
      cases hc : node.tryGetValue e with
      | none => simp [hc] at h₁
      | some cnode =>
        rw [hc, Option.bind_some] at h₁ h₂
        rw [Option.bind_some]
        exact ih _ (hn ▸ sizeOf_tryGetValue hc) (q := e :: r) h₁ h₂ rfl

end RNode

namespace TrieOf

variable {routes : List (Route C H)} {root : RNode C H}

/-- Functions are found at the registered paths only. -/
theorem functionsAt_ne_iff (h : TrieOf routes root) {q : List C} :
    root.functionsAt q ≠ ([], []) ↔ q ∈ routes.map Route.path := by
  rw [h.functionsAt]
  simp [handlersAt]

/-- The nodes of the trie are the stops of the registered paths. -/
theorem isStop_iff (h : TrieOf routes root) {v : List C} :
    IsStop (routes.map Route.path) v ↔ ∃ n, root.reach v = some n := by
  have hreach : ∀ {p}, p ∈ routes.map Route.path → ∃ n, root.reach p = some n := by
    intro p hp
    rw [← h.functionsAt_ne_iff, RNode.functionsAt] at hp
    cases hr : root.reach p with
    | none => simp [hr] at hp
    | some n => exact ⟨n, rfl⟩
  constructor
  · rintro (rfl | hv | ⟨c, d, hcd, ⟨p₁, hp₁, r₁, rfl⟩, p₂, hp₂, r₂, rfl⟩)
    · exact ⟨root, h.token ▸ root.reach_token⟩
    · exact hreach hv
    · obtain ⟨n₁, h₁⟩ := hreach hp₁
      obtain ⟨n₂, h₂⟩ := hreach hp₂
      rw [List.append_assoc, List.singleton_append] at h₁ h₂
      exact RNode.exists_reach_of_parting hcd h₁ h₂
  · rintro ⟨n, hn⟩
    obtain ⟨hp, hk, ⟨hv, -⟩ | ho⟩ := h.plain.reach h.keyed hn
    · exact .inl (hv.trans h.token)
    · have hbranch : ∀ {c}, (n.tryGetValue c).isSome →
          ∃ p ∈ routes.map Route.path, v ++ [c] <+: p := by
        intro c hc
        obtain ⟨cnode, hc⟩ := Option.isSome_iff_exists.1 hc
        obtain ⟨hkey, hkc⟩ := hk.child hc
        obtain ⟨hoc, hpc⟩ := hp.child hc
        obtain ⟨q, hq⟩ := RNode.exists_functionsAt hoc hpc hkc
        obtain ⟨rest, rfl⟩ := RNode.exists_cons_of_functionsAt hkey hq
        refine ⟨v ++ c :: rest, h.functionsAt_ne_iff.1 ?_, rest, by simp⟩
        rwa [RNode.functionsAt, RNode.reach_append hn, hc]
      rcases ho with hfns | ⟨c, d, hcd, hc, hd⟩
      · refine .inr (.inl (h.functionsAt_ne_iff.1 ?_))
        rwa [RNode.functionsAt, hn]
      · exact .inr (.inr ⟨c, d, hcd, hbranch hc, hbranch hd⟩)

/-- The children of a node are the next stops. -/
theorem nextStop_iff (h : TrieOf routes root) {v w : List C} :
    NextStop (routes.map Route.path) v w ↔
      ∃ n c cnode, root.reach v = some n ∧ n.tryGetValue c = some cnode ∧
        w = v ++ cnode.token := by
  constructor
  · intro hnext
    obtain ⟨n, hn⟩ := h.isStop_iff.1 hnext.isStop_left
    obtain ⟨m, hm⟩ := h.isStop_iff.1 hnext.isStop_right
    obtain ⟨r, rfl⟩ := hnext.isPrefix
    cases r with
    | nil => exact absurd (List.append_nil v).symm hnext.ne
    | cons c rest =>
      obtain ⟨-, hk, -⟩ := h.plain.reach h.keyed hn
      rw [RNode.reach_append hn] at hm
      obtain ⟨cnode, hc, hm⟩ := Option.bind_eq_some_iff.1 hm
      obtain ⟨t, ht⟩ : ∃ t, cnode.token = c :: t := List.head?_eq_some_iff.1 (hk.child hc).1
      have hpre : cnode.token <+: c :: rest := by
        by_contra hp
        rw [RNode.reach_elsewhere hp] at hm
        cases hm
      have hstop : IsStop (routes.map Route.path) (v ++ cnode.token) := by
        refine h.isStop_iff.2 ⟨cnode, ?_⟩
        rw [ht, RNode.reach_append hn, hc, ← ht]
        exact cnode.reach_token
      rcases hnext.next _ hstop (List.prefix_append _ _)
        ((List.prefix_append_right_inj v).2 hpre) with heq | heq
      · simp [ht] at heq
      · exact ⟨n, c, cnode, hn, hc, heq.symm⟩
  · rintro ⟨n, c, cnode, hn, hc, rfl⟩
    obtain ⟨-, hk, -⟩ := h.plain.reach h.keyed hn
    obtain ⟨t, ht⟩ : ∃ t, cnode.token = c :: t := List.head?_eq_some_iff.1 (hk.child hc).1
    refine ⟨h.isStop_iff.2 ⟨n, hn⟩, h.isStop_iff.2 ⟨cnode, ?_⟩, List.prefix_append _ _, ?_, ?_⟩
    · rw [ht, RNode.reach_append hn, hc, ← ht]
      exact cnode.reach_token
    · simp [ht]
    · rintro u hu ⟨r, rfl⟩ hur
      cases r with
      | nil => exact .inl (List.append_nil v)
      | cons d rest =>
        refine .inr ?_
        obtain ⟨m, hm⟩ := h.isStop_iff.1 hu
        have hur := (List.prefix_append_right_inj v).1 hur
        obtain rfl : d = c := by
          rw [ht, List.cons_prefix_cons] at hur
          exact hur.1
        rw [RNode.reach_append hn, hc, Option.bind_some] at hm
        have hpre : cnode.token <+: d :: rest := by
          by_contra hp
          rw [RNode.reach_elsewhere hp] at hm
          cases hm
        rw [hur.eq_of_length_le hpre.length_le]

end TrieOf

end FrameworkBenchmarks.Zebra
