import FrameworkBenchmarks.Zebra.Trie

/-!
# Insertion into the trie

Whatever paths are inserted, in whatever order, the trie keeps its shape, a node holds what was
inserted at the string it stands for, and an insertion returns the node of its path.
-/

namespace FrameworkBenchmarks.Zebra

variable {C H : Type}

/-- The marker for no function. -/
def Cont.isEmpty : Cont C H → Bool
  | .empty => true
  | _ => false

namespace RNode

/-- Below a node, every edge is keyed by the first character of the child's token, which is thus not
empty, and the tokens of siblings start with different characters. -/
inductive Branching : RNode C H → Prop where
  | mk {node : RNode C H}
    (key : ∀ e ∈ node.edges, e.2.token.head? = some e.1)
    (siblings : node.edges.Pairwise fun e e' => e.2.token.head? ≠ e'.2.token.head?)
    (below : ∀ e ∈ node.edges, Branching e.2) : Branching node

section Branching

/-- Siblings start differently if their keys are different. -/
theorem Branching.of_keys {node : RNode C H} (hkeys : (node.edges.map Prod.fst).Nodup)
    (key : ∀ e ∈ node.edges, e.2.token.head? = some e.1) (below : ∀ e ∈ node.edges, Branching e.2) :
    node.Branching := by
  refine ⟨key, ?_, below⟩
  apply (List.pairwise_map.mp hkeys).imp_of_mem
  intro e e' he he' hne heq
  rw [key e he, key e' he'] at heq
  exact hne (Option.some.inj heq)

theorem Branching.keys_nodup {node : RNode C H} (h : node.Branching) :
    (node.edges.map Prod.fst).Nodup := by
  obtain ⟨key, siblings, -⟩ := h
  apply List.pairwise_map.mpr
  apply siblings.imp_of_mem
  intro e e' he he' hne heq
  rw [key e he, key e' he', heq] at hne
  exact hne rfl

theorem Branching.of_edges {node node' : RNode C H} (h : node.Branching)
    (hedges : node'.edges = node.edges) : node'.Branching := by
  obtain ⟨key, siblings, below⟩ := h
  rw [← hedges] at key siblings below
  exact ⟨key, siblings, below⟩

theorem Branching.of_leaf {node : RNode C H} (hedges : node.edges = []) : node.Branching := by
  constructor
  · rw [hedges]
    exact fun e he => (nomatch he)
  · rw [hedges]
    exact .nil
  · rw [hedges]
    exact fun e he => (nomatch he)

theorem Branching.splitAt {node : RNode C H} (h : node.Branching) (pre : List C) (c : C)
    (rest : List C) : (node.splitAt pre c rest).Branching := by
  apply Branching.of_keys
  · exact List.nodup_singleton c
  · intro e he
    rw [List.mem_singleton.mp he]
    rfl
  · intro e he
    rw [List.mem_singleton.mp he]
    exact h.of_edges rfl

variable [DecidableEq C]

theorem mem_edges {node cnode : RNode C H} {c : C} (hc : node.tryGetValue c = some cnode) :
    (c, cnode) ∈ node.edges := by
  obtain ⟨before, after, heq, -⟩ := List.lookup_eq_some_iff.mp hc
  rw [heq]
  exact List.mem_append_right _ List.mem_cons_self

theorem not_mem_keys {node : RNode C H} {c : C} (hc : node.tryGetValue c = none) :
    c ∉ node.edges.map Prod.fst := by
  intro hmem
  obtain ⟨e, he, rfl⟩ := List.mem_map.mp hmem
  have hne := List.lookup_eq_none_iff.mp hc e he
  simp at hne

/-- In particular it is keyed. -/
theorem Branching.keyed {node : RNode C H} (h : node.Branching) : node.Keyed := by
  induction h with
  | mk key _ _ ih =>
    exact ⟨fun c cnode hc => key _ (mem_edges hc), fun c cnode hc => ih _ (mem_edges hc)⟩

theorem Branching.addEdge {node child : RNode C H} (h : node.Branching) {c : C}
    (hc : node.tryGetValue c = none) (hkey : child.token.head? = some c)
    (hchild : child.Branching) : (node.addEdge c child).Branching := by
  have hkeys := h.keys_nodup
  obtain ⟨key, -, below⟩ := h
  apply Branching.of_keys
  · rw [RNode.addEdge, List.map_append]
    apply List.nodup_append.mpr
    refine ⟨hkeys, List.nodup_singleton c, ?_⟩
    intro d hd d' hd' heq
    rw [heq, List.mem_singleton.mp hd'] at hd
    exact not_mem_keys hc hd
  · intro e he
    rcases List.mem_append.mp he with hold | hnew
    · exact key e hold
    · rw [List.mem_singleton.mp hnew]
      exact hkey
  · intro e he
    rcases List.mem_append.mp he with hold | hnew
    · exact below e hold
    · rw [List.mem_singleton.mp hnew]
      exact hchild

theorem Branching.setChild {node cnode child : RNode C H} (h : node.Branching) {c : C}
    (hc : node.tryGetValue c = some cnode) (hkey : child.token.head? = cnode.token.head?)
    (hchild : child.Branching) : (node.setChild c child).Branching := by
  have hkeys := h.keys_nodup
  obtain ⟨key, -, below⟩ := h
  apply Branching.of_keys
  · have hsame : ((node.setChild c child).edges.map Prod.fst) = node.edges.map Prod.fst := by
      rw [RNode.setChild, List.map_map]
      apply List.map_congr_left
      intro e _
      dsimp only [Function.comp_apply]
      split
      · rfl
      · rfl
    rwa [hsame]
  · intro e he
    obtain ⟨e, hold, rfl⟩ := List.mem_map.mp he
    split
    · rename_i heq
      rw [hkey, key _ (mem_edges hc), heq]
    · exact key e hold
  · intro e he
    obtain ⟨e, hold, rfl⟩ := List.mem_map.mp he
    split
    · exact hchild
    · exact below e hold

/-- Adding a function keeps the shape. -/
theorem Added.branching {rc : Cont C H} {node node' : RNode C H} {path loc : List C}
    (h : Added rc node path node' loc) (hbranching : node.Branching) : node'.Branching := by
  induction h with
  | full => exact hbranching.of_edges (edges_addFn _ _)
  | inToken htoken hpre => exact (hbranching.splitAt _ _ _).of_edges (edges_addFn _ _)
  | child hc added ih =>
    obtain ⟨-, -, below⟩ := id hbranching
    exact hbranching.setChild hc added.head_token (ih (below _ (mem_edges hc)))
  | leaf hc =>
    apply hbranching.addEdge hc
    · rw [token_addFn]
      rfl
    · exact .of_leaf (edges_addFn _ _)
  | fork htoken hpre hcd =>
    apply (hbranching.splitAt _ _ _).addEdge
    · rw [tryGetValue_splitAt, if_neg hcd]
    · rw [token_addFn]
      rfl
    · exact .of_leaf (edges_addFn _ _)

end Branching

section Walk

variable [DecidableEq C]

/-- The node that edges lead to, with the string that the tokens on the way spell. -/
def walk (node : RNode C H) : List C → Option (List C × RNode C H)
  | [] => some (node.token, node)
  | c :: loc => (node.tryGetValue c).bind fun cnode =>
      (cnode.walk loc).map fun (s, n) => (node.token ++ s, n)

theorem walk_cons (node cnode : RNode C H) {n : RNode C H} {c : C} {t loc s : List C}
    (ht : node.token = t) (hc : node.tryGetValue c = some cnode) (hwalk : cnode.walk loc = some (s, n)) :
    node.walk (c :: loc) = some (t ++ s, n) := by
  rw [walk, hc, Option.bind_some, hwalk, ht]
  rfl

/-- The string that is spelled starts with the first token. -/
theorem token_prefix_of_walk {node n : RNode C H} {loc s : List C}
    (hwalk : node.walk loc = some (s, n)) : node.token <+: s := by
  cases loc with
  | nil =>
    obtain ⟨rfl, -⟩ := Prod.mk.inj (Option.some.inj hwalk)
    exact List.prefix_rfl
  | cons c loc =>
    obtain ⟨cnode, -, hmap⟩ := Option.bind_eq_some_iff.mp hwalk
    obtain ⟨⟨s', n'⟩, -, heq⟩ := Option.map_eq_some_iff.mp hmap
    obtain ⟨rfl, -⟩ := Prod.mk.inj heq
    exact List.prefix_append _ _

/-- A node that is walked to is the node that its string spells. -/
theorem reach_of_walk {node n : RNode C H} {loc s : List C} (hk : node.Keyed)
    (hwalk : node.walk loc = some (s, n)) : node.reach s = some n := by
  induction loc generalizing node s with
  | nil =>
    obtain ⟨rfl, rfl⟩ := Prod.mk.inj (Option.some.inj hwalk)
    exact reach_token node
  | cons c loc ih =>
    obtain ⟨cnode, hc, hmap⟩ := Option.bind_eq_some_iff.mp hwalk
    obtain ⟨⟨s', n'⟩, hlater, heq⟩ := Option.map_eq_some_iff.mp hmap
    obtain ⟨rfl, rfl⟩ := Prod.mk.inj heq
    obtain ⟨hkey, hcnode⟩ := hk.child hc
    -- the rest of the string starts with the key of the edge
    obtain ⟨rest, hrest⟩ := List.head?_eq_some_iff.mp hkey
    obtain ⟨later, rfl⟩ := token_prefix_of_walk hlater
    have hreach := ih hcnode hlater
    rw [hrest, List.cons_append] at hreach ⊢
    rw [reach_append_cons, hc, Option.bind_some, hreach]

/-- The edges that an insertion names lead to the node of its path. -/
theorem Added.walk {rc : Cont C H} {node node' : RNode C H} {path loc : List C}
    (h : Added rc node path node' loc) : ∃ n, node'.walk loc = some (path, n) := by
  induction h with
  | @full node =>
    refine ⟨node.addFn rc, ?_⟩
    rw [RNode.walk, token_addFn]
  | @inToken node pre c rest htoken hpre =>
    refine ⟨(node.splitAt pre c rest).addFn rc, ?_⟩
    rw [RNode.walk, token_addFn]
    rfl
  | @child node cnode cnode' c rest loc hc added ih =>
    obtain ⟨n, hn⟩ := ih
    refine ⟨n, walk_cons (node.setChild c cnode') cnode' rfl ?_ hn⟩
    rw [tryGetValue_setChild _ hc, if_pos rfl]
  | @leaf node c rest hc =>
    refine ⟨addFn { token := c :: rest } rc, walk_cons (node.addEdge c _)
      (addFn { token := c :: rest } rc) rfl ?_ ?_⟩
    · rw [tryGetValue_addEdge _ hc, if_pos rfl]
    · rw [RNode.walk, token_addFn]
  | @fork node pre d rest' c rest htoken hpre hcd =>
    have hc : (node.splitAt pre d rest').tryGetValue c = none := by
      rw [tryGetValue_splitAt, if_neg hcd]
    refine ⟨addFn { token := c :: rest } rc,
      walk_cons ((node.splitAt pre d rest').addEdge c _)
        (addFn { token := c :: rest } rc) rfl ?_ ?_⟩
    · rw [tryGetValue_addEdge _ hc, if_pos rfl]
    · rw [RNode.walk, token_addFn]

end Walk

section Contents

/-- What a node holds is sorted. -/
def Sorted (fs : List (Cont C H) × List (Cont C H)) : Prop :=
  fs.1.Pairwise (fun f g => f.precedence ≤ g.precedence) ∧
    fs.2.Pairwise fun f g => f.precedence ≤ g.precedence

theorem perm_addSorted (rc : Cont C H) (fns : List (Cont C H)) : (addSorted rc fns).Perm (rc :: fns) :=
  List.perm_insertionSort _ _

theorem pairwise_addSorted (rc : Cont C H) (fns : List (Cont C H)) :
    (addSorted rc fns).Pairwise fun f g => f.precedence ≤ g.precedence := by
  have htotal : Std.Total fun f g : Cont C H => f.precedence ≤ g.precedence :=
    ⟨fun f g => Nat.le_total _ _⟩
  have htrans : IsTrans (Cont C H) fun f g => f.precedence ≤ g.precedence :=
    ⟨fun f g h => Nat.le_trans⟩
  exact List.pairwise_insertionSort _ _

/-- A function joins what a node holds, unless it is the marker. -/
theorem perm_insertFn (rc : Cont C H) (fs : List (Cont C H) × List (Cont C H)) :
    ((insertFn rc fs).1 ++ (insertFn rc fs).2).Perm
      ([rc].filter (fun c => !c.isEmpty) ++ (fs.1 ++ fs.2)) := by
  cases rc with
  | empty => exact .refl _
  | initialMatch | applyMatch | matchComplete => exact (perm_addSorted _ fs.1).append_right fs.2
  | handlerMap | complete =>
    exact ((perm_addSorted _ fs.2).append_left fs.1).trans List.perm_middle

theorem sorted_insertFn {rc : Cont C H} {fs : List (Cont C H) × List (Cont C H)} (h : Sorted fs) :
    Sorted (insertFn rc fs) := by
  cases rc with
  | empty => exact h
  | initialMatch | applyMatch | matchComplete => exact ⟨pairwise_addSorted _ fs.1, h.2⟩
  | handlerMap | complete => exact ⟨h.1, pairwise_addSorted _ fs.2⟩

variable [DecidableEq C]

/-- The functions inserted at a string, without the markers. -/
def insertedAt (insertions : List (List C × Cont C H)) (q : List C) : List (Cont C H) :=
  ((insertions.filter fun i => i.1 = q).map Prod.snd).filter fun rc => !rc.isEmpty

/-- The node of a string holds these functions, and if there is none then there are none. -/
structure HoldsAt (root : RNode C H) (q : List C) (conts : List (Cont C H)) : Prop where
  node : ∀ n, root.reach q = some n → (n.midFns ++ n.endFns).Perm conts ∧ Sorted n.fns
  absent : root.reach q = none → conts = []

theorem holdsAt_of_functionsAt {root : RNode C H} {q : List C} {conts : List (Cont C H)}
    (hperm : ((root.functionsAt q).1 ++ (root.functionsAt q).2).Perm conts)
    (hsorted : Sorted (root.functionsAt q)) : HoldsAt root q conts := by
  constructor
  · intro n hn
    rw [functionsAt, hn] at hperm hsorted
    exact ⟨hperm, hsorted⟩
  · intro hnone
    rw [functionsAt, hnone] at hperm
    exact hperm.nil_eq.symm

/-- The insertions of a sequence of paths, each from the root. -/
def extendAll (root : RNode C H) : List (List C × Cont C H) → Option (RNode C H)
  | [] => some root
  | (path, rc) :: insertions =>
    (root.extendPath path rc).bind fun (root, _) => extendAll root insertions

/-- What is kept from one insertion to the next. -/
structure Grown (insertions : List (List C × Cont C H)) (root : RNode C H) : Prop where
  token : root.token = []
  branching : root.Branching
  perm : ∀ q, ((root.functionsAt q).1 ++ (root.functionsAt q).2).Perm (insertedAt insertions q)
  sorted : ∀ q, Sorted (root.functionsAt q)

theorem grown_root : Grown [] ({ token := [] } : RNode C H) where
  token := rfl
  branching := .of_leaf rfl
  perm := fun q => by
    rw [functionsAt_leaf rfl]
    split
    · exact .refl _
    · exact .refl _
  sorted := fun q => by
    rw [functionsAt_leaf rfl]
    split
    · exact ⟨.nil, .nil⟩
    · exact ⟨.nil, .nil⟩

/-- An insertion at the root keeps the shape and returns the node of its path. -/
theorem exists_walk_extendPath {root : RNode C H} (hroot : root.token = [])
    (hbranching : root.Branching) (path : List C) (rc : Cont C H) :
    ∃ root' loc n, root.extendPath path rc = some (root', loc) ∧ root'.Branching ∧
      root'.walk loc = some (path, n) := by
  cases path with
  | nil =>
    refine ⟨root.addFn rc, [], root.addFn rc, rfl, hbranching.of_edges (edges_addFn _ _), ?_⟩
    rw [walk, token_addFn, hroot]
  | cons c path =>
    rw [RNode.extendPath]
    cases hc : root.tryGetValue c with
    | none =>
      refine ⟨_, _, addFn { token := c :: path } rc, rfl, ?_, ?_⟩
      · apply hbranching.addEdge hc
        · rw [token_addFn]
          rfl
        · exact .of_leaf (edges_addFn _ _)
      · apply walk_cons (root.addEdge c _) (addFn { token := c :: path } rc) hroot
        · rw [tryGetValue_addEdge _ hc, if_pos rfl]
        · rw [walk, token_addFn]
    | some cnode =>
      obtain ⟨hkey, hcnode⟩ := hbranching.keyed.child hc
      obtain ⟨cnode', loc, hadd, hadded⟩ := exists_added hcnode rc (show (c :: path).head? = some c from rfl) hkey
      obtain ⟨-, -, below⟩ := id hbranching
      obtain ⟨n, hn⟩ := hadded.walk
      refine ⟨root.setChild c cnode', c :: loc, n, by simp [hadd], ?_, ?_⟩
      · exact hbranching.setChild hc hadded.head_token (hadded.branching (below _ (mem_edges hc)))
      · refine walk_cons (root.setChild c cnode') cnode' hroot ?_ hn
        rw [tryGetValue_setChild _ hc, if_pos rfl]

theorem insertedAt_concat (insertions : List (List C × Cont C H)) (path q : List C)
    (rc : Cont C H) : insertedAt (insertions ++ [(path, rc)]) q =
      insertedAt insertions q ++ if q = path then [rc].filter (fun c => !c.isEmpty) else [] := by
  rw [insertedAt, List.filter_append, List.map_append, List.filter_append, insertedAt]
  congr 1
  by_cases hq : q = path
  · simp [hq]
  · simp [hq, Ne.symm hq]

/-- One insertion: it does not fail, it keeps all this, and it returns the node of its path. -/
theorem Grown.extendPath {insertions : List (List C × Cont C H)} {root : RNode C H}
    (h : Grown insertions root) (path : List C) (rc : Cont C H) :
    ∃ root' loc n, root.extendPath path rc = some (root', loc) ∧
      Grown (insertions ++ [(path, rc)]) root' ∧ root'.walk loc = some (path, n) := by
  obtain ⟨root', loc, n, hextend, hbranching, hwalk⟩ :=
    exists_walk_extendPath h.token h.branching path rc
  obtain ⟨_, _, hsame, htoken, -, hfunctions⟩ :=
    exists_extendPath h.token h.branching.keyed path rc
  obtain ⟨rfl, rfl⟩ := Prod.mk.inj (Option.some.inj (hextend.symm.trans hsame))
  refine ⟨root', loc, n, hextend, ⟨htoken, hbranching, fun q => ?_, fun q => ?_⟩, hwalk⟩
  · rw [hfunctions, insertedAt_concat]
    split
    · exact ((perm_insertFn rc _).trans (List.perm_append_comm)).trans
        ((h.perm q).append_right _)
    · rw [List.append_nil]
      exact h.perm q
  · rw [hfunctions]
    split
    · exact sorted_insertFn (h.sorted q)
    · exact h.sorted q

/-- A sequence of insertions. -/
theorem Grown.extendAll {insertions : List (List C × Cont C H)} {root : RNode C H}
    (h : Grown insertions root) (later : List (List C × Cont C H)) :
    ∃ root', root.extendAll later = some root' ∧ Grown (insertions ++ later) root' := by
  induction later generalizing insertions root with
  | nil =>
    rw [List.append_nil]
    exact ⟨root, rfl, h⟩
  | cons i later ih =>
    obtain ⟨path, rc⟩ := i
    obtain ⟨root', loc, -, hextend, hgrown, -⟩ := h.extendPath path rc
    obtain ⟨root'', hall, hgrown'⟩ := ih hgrown
    rw [List.append_assoc] at hgrown'
    refine ⟨root'', ?_, hgrown'⟩
    rw [RNode.extendAll, hextend]
    exact hall

end Contents

/-- After any sequence of insertions into an empty trie, none of which fails, the trie branches by
first characters, the node of every string holds what was inserted there, sorted, markers apart, and
a further insertion returns the node of its path. -/
theorem extendAll_holds [DecidableEq C] (insertions : List (List C × Cont C H)) :
    ∃ root, extendAll { token := [] } insertions = some root ∧ root.Branching ∧
      (∀ q, HoldsAt root q (insertedAt insertions q)) ∧
      ∀ path rc, ∃ root' loc n, root.extendPath path rc = some (root', loc) ∧
        root'.walk loc = some (path, n) ∧ root'.reach path = some n := by
  obtain ⟨root, hall, hgrown⟩ := Grown.extendAll grown_root insertions
  refine ⟨root, hall, hgrown.branching, fun q => ?_, fun path rc => ?_⟩
  · exact holdsAt_of_functionsAt (hgrown.perm q) (hgrown.sorted q)
  · obtain ⟨root', loc, n, hextend, hgrown', hwalk⟩ := hgrown.extendPath path rc
    exact ⟨root', loc, n, hextend, hwalk, reach_of_walk hgrown'.branching.keyed hwalk⟩

/-- The marker is inserted at `a`: the node is made, and holds nothing. -/
theorem extendAll_marker : ∃ root n : RNode Char Unit,
    extendAll { token := [] } [(['a'], .empty)] = some root ∧ root.reach ['a'] = some n ∧
      ¬(n.midFns ++ n.endFns).Perm [.empty] := by
  have hc : ({ token := [] } : RNode Char Unit).tryGetValue 'a' = none := rfl
  refine ⟨addEdge { token := [] } 'a' { token := ['a'] }, { token := ['a'] }, rfl, ?_, ?_⟩
  · have hreach := reach_append_cons
      (addEdge { token := [] } 'a' { token := ['a'] } : RNode Char Unit) 'a' []
    rw [tryGetValue_addEdge _ hc, if_pos rfl, Option.bind_some] at hreach
    exact hreach.trans (reach_token _)
  · intro hperm
    exact absurd hperm.length_eq (by decide)

end RNode

end FrameworkBenchmarks.Zebra
