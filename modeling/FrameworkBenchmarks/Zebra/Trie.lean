import FrameworkBenchmarks.Zebra.Router

/-!
# What the trie holds

A node is found from the string that its tokens spell. Adding a function for a path changes what
is found for that path only: there the function joins the ones already found.
-/

namespace FrameworkBenchmarks.Zebra

variable {C H : Type} [DecidableEq C]

/-- The node that a string spells, the token of the first node included. -/
def RNode.reach (node : RNode C H) (q : List C) : Option (RNode C H) :=
  if node.token <+: q then
    match q.drop node.token.length with
    | [] => some node
    | c :: rest =>
      match _hc : node.tryGetValue c with
      | some cnode => cnode.reach (c :: rest)
      | none => none
  else none
termination_by sizeOf node
decreasing_by exact RNode.sizeOf_tryGetValue _hc

namespace RNode

/-- Every edge below a node is keyed by the first character of the child's token. -/
inductive Keyed : RNode C H → Prop where
  | mk {node : RNode C H}
    (key : ∀ c cnode, node.tryGetValue c = some cnode → cnode.token.head? = some c)
    (below : ∀ c cnode, node.tryGetValue c = some cnode → Keyed cnode) : Keyed node

/-- The children of a keyed node. -/
theorem Keyed.child {node cnode : RNode C H} (h : node.Keyed) {c : C}
    (hc : node.tryGetValue c = some cnode) : cnode.token.head? = some c ∧ cnode.Keyed := by
  obtain ⟨key, below⟩ := h
  exact ⟨key c cnode hc, below c cnode hc⟩

/-- Only strings that start with the token are spelled from a node. -/
theorem reach_elsewhere {node : RNode C H} {q : List C} (h : ¬ node.token <+: q) :
    node.reach q = none := by
  rw [reach, if_neg h]

/-- The node itself. -/
@[simp] theorem reach_token (node : RNode C H) : node.reach node.token = some node := by
  rw [reach, if_pos List.prefix_rfl, List.drop_length]

/-- Past the token, the edge of the next character leads on. -/
theorem reach_append_cons (node : RNode C H) (c : C) (rest : List C) :
    node.reach (node.token ++ c :: rest)
      = (node.tryGetValue c).bind fun cnode => cnode.reach (c :: rest) := by
  rw [reach, if_pos (List.prefix_append _ _), List.drop_left]
  dsimp only
  split <;> simp [*]

/-- The token of a node spells the node: what the token is, is all that is used of it. -/
theorem reach_append_cons' {node : RNode C H} {t : List C} (ht : node.token = t) (c : C)
    (rest : List C) :
    node.reach (t ++ c :: rest)
      = (node.tryGetValue c).bind fun cnode => cnode.reach (c :: rest) := by
  rw [← ht, reach_append_cons]

/-- A string either starts otherwise than the token, or is it, or goes on past it. -/
theorem token_cases (t q : List C) :
    ¬ t <+: q ∨ q = t ∨ ∃ c rest, q = t ++ c :: rest := by
  by_cases h : t <+: q
  · obtain ⟨r, rfl⟩ := h
    cases r with
    | nil => simp
    | cons c rest => exact .inr (.inr ⟨c, rest, rfl⟩)
  · exact .inl h

/-! ### The edges after an update -/

/-- The updated child is found in place of the child. -/
theorem tryGetValue_setChild {node cnode : RNode C H} {c : C} (child : RNode C H)
    (hc : node.tryGetValue c = some cnode) (d : C) :
    (node.setChild c child).tryGetValue d = if d = c then some child else node.tryGetValue d := by
  obtain ⟨token, midFns, endFns, edges, methodFilters⟩ := node
  simp only [tryGetValue, setChild] at hc ⊢
  induction edges with
  | nil => simp at hc
  | cons e edges ih =>
    obtain ⟨k, n⟩ := e
    by_cases hkc : k = c
    · subst hkc
      by_cases hd : d = k
      · simp [hd]
      · have hd' : (d == k) = false := by simpa using hd
        simp only [List.map_cons, if_true, List.lookup_cons, hd', if_neg hd]
        clear ih hc
        induction edges with
        | nil => rfl
        | cons e edges ih =>
          obtain ⟨k', n'⟩ := e
          by_cases hk' : k' = k
          · simpa [List.lookup_cons, hk', hd'] using ih
          · simp only [List.map_cons, if_neg hk', List.lookup_cons]
            cases d == k' <;> simp [ih]
    · have hck : (c == k) = false := by simpa using Ne.symm hkc
      rw [List.lookup_cons, hck] at hc
      simp only [List.map_cons, if_neg hkc, List.lookup_cons]
      by_cases hdk : d = k
      · simp [hdk, hkc]
      · have hdk' : (d == k) = false := by simpa using hdk
        simp only [hdk']
        exact ih hc

/-- A new edge is found besides the others. -/
theorem tryGetValue_addEdge {node : RNode C H} {c : C} (child : RNode C H)
    (hc : node.tryGetValue c = none) (d : C) :
    (node.addEdge c child).tryGetValue d = if d = c then some child else node.tryGetValue d := by
  simp only [tryGetValue, addEdge, List.lookup_append] at hc ⊢
  by_cases hd : d = c
  · subst hd
    simp [hc]
  · have hd' : (d == c) = false := by simpa using hd
    cases h : List.lookup d node.edges <;> simp [List.lookup_cons, hd, hd']

end RNode

/-! ### One insertion -/

/-- Two strings split where they start to differ. -/
theorem exists_split (path token : List C) :
    ∃ pre a b, path = pre ++ a ∧ token = pre ++ b ∧ ∀ c, a.head? = some c → b.head? ≠ some c := by
  induction path generalizing token with
  | nil => exact ⟨[], [], token, rfl, rfl, by simp⟩
  | cons c path ih =>
    cases token with
    | nil => exact ⟨[], c :: path, [], rfl, rfl, by simp⟩
    | cons d token =>
      by_cases hcd : d = c
      · subst hcd
        obtain ⟨pre, a, b, rfl, rfl, hne⟩ := ih token
        exact ⟨d :: pre, a, b, rfl, rfl, hne⟩
      · exact ⟨[], c :: path, d :: token, rfl, rfl, by simpa using hcd⟩

/-- Up to there they are common. -/
theorem commonPath_append {a b : List C} (hne : ∀ c, a.head? = some c → b.head? ≠ some c)
    (pre : List C) : commonPath (pre ++ a) (pre ++ b) = pre.length := by
  induction pre with
  | nil =>
    cases a with
    | nil => simp [commonPath]
    | cons c a =>
      cases b with
      | nil => simp [commonPath]
      | cons d b => simpa [commonPath, eq_comm] using hne c rfl
  | cons c pre ih => simp [commonPath, ih]

/-- How a path meets a token that starts alike depends on where each of them goes on. -/
theorem getPathMatch_append {pre a b : List C} (hpre : pre ≠ [])
    (hne : ∀ c, a.head? = some c → b.head? ≠ some c) :
    getPathMatch (pre ++ a) (pre ++ b) =
      if b = [] ∧ a = [] then .fullMatch else if b = [] then .tokenInPath
      else if a = [] then .pathInToken else .subMatch pre.length := by
  have hlen : 0 < pre.length := List.length_pos_iff.2 hpre
  have h0 : ¬ (pre ++ b).length = 0 := by
    rw [List.length_append]
    omega
  rw [getPathMatch, if_neg h0]
  simp only [commonPath_append hne, List.length_append, Nat.left_eq_add,
    List.length_eq_zero_iff, if_neg hpre]

namespace RNode

/-- The upper and the lower part of a node split before the character `c` of its token. -/
def splitAt (node : RNode C H) (pre : List C) (c : C) (rest : List C) : RNode C H :=
  { token := pre
    edges := [(c, { token := c :: rest, midFns := node.midFns, endFns := node.endFns,
                    edges := node.edges })]
    methodFilters := node.methodFilters }

/-- The edges of a split node. -/
theorem tryGetValue_splitAt (node : RNode C H) (pre : List C) (c : C) (rest : List C) (d : C) :
    (node.splitAt pre c rest).tryGetValue d =
      if d = c then
        some { token := c :: rest, midFns := node.midFns, endFns := node.endFns,
               edges := node.edges }
      else none := by
  by_cases hd : d = c
  · simp [tryGetValue, splitAt, hd]
  · have hd' : (d == c) = false := by simpa using hd
    simp [tryGetValue, splitAt, List.lookup_cons, hd, hd']

omit [DecidableEq C] in
theorem split_eq {node : RNode C H} {pre rest : List C} {c : C}
    (h : node.token = pre ++ c :: rest) :
    node.split pre.length = some (node.splitAt pre c rest) := by
  simp [split, splitAt, h]

/-- What adding a function for a path does to a node whose token the path starts like, and the
edges to the node that received it. -/
inductive Added (rc : Cont C H) : RNode C H → List C → RNode C H → List C → Prop where
  | full {node : RNode C H} : Added rc node node.token (node.addFn rc) []
  | inToken {node : RNode C H} {pre : List C} {c : C} {rest : List C}
    (htoken : node.token = pre ++ c :: rest) (hpre : pre ≠ []) :
    Added rc node pre ((node.splitAt pre c rest).addFn rc) []
  | child {node cnode cnode' : RNode C H} {c : C} {rest loc : List C}
    (hc : node.tryGetValue c = some cnode) (added : Added rc cnode (c :: rest) cnode' loc) :
    Added rc node (node.token ++ c :: rest) (node.setChild c cnode') (c :: loc)
  | leaf {node : RNode C H} {c : C} {rest : List C} (hc : node.tryGetValue c = none) :
    Added rc node (node.token ++ c :: rest)
      (node.addEdge c (addFn { token := c :: rest } rc)) [c]
  | fork {node : RNode C H} {pre : List C} {d : C} {rest' : List C} {c : C} {rest : List C}
    (htoken : node.token = pre ++ d :: rest') (hpre : pre ≠ []) (hcd : c ≠ d) :
    Added rc node (pre ++ c :: rest)
      ((node.splitAt pre d rest').addEdge c (addFn { token := c :: rest } rc)) [c]

/-- Below a keyed node, a path that starts like the token is added without an exception. -/
theorem exists_added {node : RNode C H} (hk : node.Keyed) {path : List C} (rc : Cont C H)
    {c : C} (hpath : path.head? = some c) (htoken : node.token.head? = some c) :
    ∃ node' loc, node.addPath path rc = some (node', loc) ∧ Added rc node path node' loc := by
  induction hn : path.length using Nat.strong_induction_on generalizing node path c with
  | _ n ih =>
    obtain ⟨pre, a, b, rfl, hb, hne⟩ := exists_split path node.token
    have hpre : pre ≠ [] := by
      rintro rfl
      exact hne c hpath (by simpa [hb] using htoken)
    have hmatch := getPathMatch_append hpre hne
    rw [← hb] at hmatch
    cases b with
    | nil =>
      rw [List.append_nil] at hb
      subst hb
      cases a with
      | nil =>
        simp only [and_self, if_true, List.append_nil] at hmatch ⊢
        rw [addPath]
        split <;> rename_i h <;> cases hmatch.symm.trans h
        exact ⟨_, _, rfl, .full⟩
      | cons d rest =>
        simp only [reduceCtorEq, and_false, if_false, if_true] at hmatch
        rw [addPath]
        split <;> rename_i h <;> cases hmatch.symm.trans h
        cases hc : node.tryGetValue d with
        | none =>
          exact ⟨_, _, by simp [hc], .leaf hc⟩
        | some cnode =>
          obtain ⟨hkey, hcnode⟩ := hk.child hc
          have hlt : (d :: rest).length < n := by
            have := List.length_pos_iff.2 hpre
            rw [← hn, List.length_append]
            omega
          obtain ⟨cnode', loc, hadd, hadded⟩ := ih _ hlt hcnode rfl hkey rfl
          exact ⟨_, _, by simp [hc, hadd], .child hc hadded⟩
    | cons e rest' =>
      cases a with
      | nil =>
        simp only [reduceCtorEq, false_and, if_false, if_true, List.append_nil] at hmatch ⊢
        rw [addPath]
        split <;> rename_i h <;> cases hmatch.symm.trans h
        exact ⟨_, _, by simp [split_eq hb], .inToken hb hpre⟩
      | cons d rest =>
        simp only [reduceCtorEq, and_false, if_false] at hmatch
        rw [addPath]
        split <;> rename_i h <;> cases hmatch.symm.trans h
        have hde : d ≠ e := fun h => hne d rfl (congrArg some h.symm)
        exact ⟨_, _, by simp [split_eq hb], .fork hb hpre hde⟩

/-! ### The functions at a string -/

/-- The functions of a node. -/
def fns (node : RNode C H) : List (Cont C H) × List (Cont C H) :=
  (node.midFns, node.endFns)

/-- The functions of the node that a string spells; none if there is no such node. -/
def functionsAt (node : RNode C H) (q : List C) : List (Cont C H) × List (Cont C H) :=
  ((node.reach q).map fns).getD ([], [])

/-- A function joins the functions of its kind. -/
def insertFn (rc : Cont C H) (fs : List (Cont C H) × List (Cont C H)) :
    List (Cont C H) × List (Cont C H) :=
  match rc with
  | .empty => fs
  | .initialMatch .. | .applyMatch .. | .matchComplete .. => (addSorted rc fs.1, fs.2)
  | .handlerMap .. | .complete .. => (fs.1, addSorted rc fs.2)

section AddFn

omit [DecidableEq C]

@[simp] theorem token_addFn (node : RNode C H) (rc : Cont C H) :
    (node.addFn rc).token = node.token := by
  cases rc <;> rfl

@[simp] theorem edges_addFn (node : RNode C H) (rc : Cont C H) :
    (node.addFn rc).edges = node.edges := by
  cases rc <;> rfl

@[simp] theorem methodFilters_addFn (node : RNode C H) (rc : Cont C H) :
    (node.addFn rc).methodFilters = node.methodFilters := by
  cases rc <;> rfl

@[simp] theorem fns_addFn (node : RNode C H) (rc : Cont C H) :
    (node.addFn rc).fns = insertFn rc node.fns := by
  cases rc <;> rfl

end AddFn

@[simp] theorem tryGetValue_addFn (node : RNode C H) (rc : Cont C H) (c : C) :
    (node.addFn rc).tryGetValue c = node.tryGetValue c := by
  simp [tryGetValue]

theorem functionsAt_elsewhere {node : RNode C H} {q : List C} (h : ¬ node.token <+: q) :
    node.functionsAt q = ([], []) := by
  simp [functionsAt, reach_elsewhere h]

theorem functionsAt_token {node : RNode C H} {t : List C} (ht : node.token = t) :
    node.functionsAt t = node.fns := by
  simp [functionsAt, ← ht]

theorem functionsAt_append_cons {node : RNode C H} {t : List C} (ht : node.token = t) (c : C)
    (rest : List C) :
    node.functionsAt (t ++ c :: rest)
      = ((node.tryGetValue c).map fun cnode => cnode.functionsAt (c :: rest)).getD ([], []) := by
  rw [functionsAt, reach_append_cons' ht]
  cases node.tryGetValue c <;> simp [functionsAt]

/-- A node without edges has functions at its own token only. -/
theorem functionsAt_leaf {node : RNode C H} (h : node.edges = []) (q : List C) :
    node.functionsAt q = if q = node.token then node.fns else ([], []) := by
  rcases token_cases node.token q with hq | rfl | ⟨c, rest, rfl⟩
  · have hne : q ≠ node.token := fun hqt => hq (hqt ▸ List.prefix_rfl)
    rw [functionsAt_elsewhere hq, if_neg hne]
  · rw [functionsAt_token rfl, if_pos rfl]
  · rw [functionsAt_append_cons rfl, if_neg (by simp)]
    simp [tryGetValue, h]

/-- A function added to a node changes the functions at its token. -/
theorem functionsAt_addFn (node : RNode C H) (rc : Cont C H) (q : List C) :
    (node.addFn rc).functionsAt q =
      if q = node.token then insertFn rc (node.functionsAt q) else node.functionsAt q := by
  rcases token_cases node.token q with hq | rfl | ⟨c, rest, rfl⟩
  · have hne : q ≠ node.token := fun hqt => hq (hqt ▸ List.prefix_rfl)
    rw [if_neg hne, functionsAt_elsewhere hq, functionsAt_elsewhere (by simpa using hq)]
  · rw [if_pos rfl, functionsAt_token rfl, functionsAt_token (token_addFn node rc), fns_addFn]
  · rw [if_neg (by simp), functionsAt_append_cons rfl, functionsAt_append_cons (token_addFn ..),
      tryGetValue_addFn]

/-- The split of a node leaves all functions where they are. -/
theorem functionsAt_splitAt {node : RNode C H} {pre rest : List C} {c : C}
    (h : node.token = pre ++ c :: rest) (q : List C) :
    (node.splitAt pre c rest).functionsAt q = node.functionsAt q := by
  rcases token_cases pre q with hq | rfl | ⟨d, r, rfl⟩
  · have hq' : ¬ node.token <+: q := fun hp => hq ((h ▸ List.prefix_append pre _).trans hp)
    rw [functionsAt_elsewhere hq', functionsAt_elsewhere hq]
  · have hq' : ¬ node.token <+: q := fun hp => by
      have := hp.length_le
      rw [h, List.length_append, List.length_cons] at this
      omega
    rw [functionsAt_elsewhere hq']
    exact functionsAt_token rfl
  · rw [functionsAt_append_cons (show (node.splitAt pre c rest).token = pre from rfl),
      tryGetValue_splitAt]
    by_cases hdc : d = c
    · subst hdc
      simp only [if_true, Option.map_some, Option.getD_some]
      rcases token_cases (d :: rest) (d :: r) with hr | hr | ⟨e, r', hr⟩
      · have hq' : ¬ node.token <+: pre ++ d :: r := by
          rwa [h, List.prefix_append_right_inj]
        rw [functionsAt_elsewhere hq', functionsAt_elsewhere hr]
      · rw [hr, functionsAt_token rfl, functionsAt_token h]
        rfl
      · rw [hr, functionsAt_append_cons rfl, ← List.append_assoc, functionsAt_append_cons h]
        rfl
    · have hq' : ¬ node.token <+: pre ++ d :: r := by
        rw [h, List.prefix_append_right_inj, List.cons_prefix_cons]
        exact fun hp => hdc hp.1.symm
      rw [functionsAt_elsewhere hq', if_neg hdc]
      rfl

/-- A new leaf brings the functions at its end. -/
theorem functionsAt_addEdge {node : RNode C H} {c : C} {rest : List C} (rc : Cont C H)
    (hc : node.tryGetValue c = none) (q : List C) :
    (node.addEdge c (addFn { token := c :: rest } rc)).functionsAt q =
      if q = node.token ++ c :: rest then insertFn rc (node.functionsAt q)
      else node.functionsAt q := by
  rcases token_cases node.token q with hq | rfl | ⟨d, r, rfl⟩
  · have hne : q ≠ node.token ++ c :: rest := fun h => hq (h ▸ List.prefix_append _ _)
    rw [if_neg hne, functionsAt_elsewhere hq, functionsAt_elsewhere (by exact hq)]
  · rw [if_neg (by simp), functionsAt_token rfl]
    exact functionsAt_token rfl
  · rw [functionsAt_append_cons (by rfl), tryGetValue_addEdge _ hc, functionsAt_append_cons rfl]
    by_cases hdc : d = c
    · subst hdc
      rw [if_pos rfl, hc]
      simp only [Option.map_some, Option.getD_some, Option.map_none, Option.getD_none]
      rw [functionsAt_leaf (by simp), fns_addFn]
      simp only [token_addFn, List.append_cancel_left_eq]
      rfl
    · rw [if_neg hdc, if_neg (by simp [hdc])]

/-- An updated child brings its own changes. -/
theorem functionsAt_setChild {node cnode cnode' : RNode C H} {c : C} {rest : List C}
    {rc : Cont C H} (hc : node.tryGetValue c = some cnode)
    (h : ∀ q, cnode'.functionsAt q =
      if q = c :: rest then insertFn rc (cnode.functionsAt q) else cnode.functionsAt q)
    (q : List C) :
    (node.setChild c cnode').functionsAt q =
      if q = node.token ++ c :: rest then insertFn rc (node.functionsAt q)
      else node.functionsAt q := by
  rcases token_cases node.token q with hq | rfl | ⟨d, r, rfl⟩
  · have hne : q ≠ node.token ++ c :: rest := fun h => hq (h ▸ List.prefix_append _ _)
    rw [if_neg hne, functionsAt_elsewhere hq, functionsAt_elsewhere (by exact hq)]
  · rw [if_neg (by simp), functionsAt_token rfl]
    exact functionsAt_token rfl
  · rw [functionsAt_append_cons (by rfl), tryGetValue_setChild _ hc, functionsAt_append_cons rfl]
    by_cases hdc : d = c
    · subst hdc
      simp [hc, h]
    · rw [if_neg hdc, if_neg (by simp [hdc])]

/-- Adding a function for a path changes the functions at that path only. -/
theorem Added.functionsAt {rc : Cont C H} {node node' : RNode C H} {path loc : List C}
    (h : Added rc node path node' loc) (q : List C) :
    node'.functionsAt q =
      if q = path then insertFn rc (node.functionsAt q) else node.functionsAt q := by
  induction h generalizing q with
  | full => exact functionsAt_addFn _ rc q
  | inToken htoken hpre =>
    rw [functionsAt_addFn, functionsAt_splitAt htoken]
    rfl
  | child hc _ ih => exact functionsAt_setChild hc ih q
  | leaf hc => exact functionsAt_addEdge rc hc q
  | fork htoken hpre hcd =>
    rw [functionsAt_addEdge rc (by rw [tryGetValue_splitAt, if_neg hcd]),
      functionsAt_splitAt htoken]
    rfl

/-- The node that an insertion leaves in place starts like the one before. -/
theorem Added.head_token {rc : Cont C H} {node node' : RNode C H} {path loc : List C}
    (h : Added rc node path node' loc) : node'.token.head? = node.token.head? := by
  cases h with
  | full => simp
  | inToken htoken hpre => simp [splitAt, htoken, List.head?_append_of_ne_nil _ hpre]
  | child hc _ => rfl
  | leaf hc => rfl
  | fork htoken hpre hcd =>
    simp [addEdge, splitAt, htoken, List.head?_append_of_ne_nil _ hpre]

/-- The children of a node whose edges are another's. -/
theorem Keyed.of_edges {node node' : RNode C H} (h : node.Keyed) (he : node'.edges = node.edges) :
    node'.Keyed := by
  constructor <;> intro c cnode hc <;> simp only [tryGetValue, he] at hc
  · exact (h.child hc).1
  · exact (h.child hc).2

/-- A node without edges. -/
theorem Keyed.of_leaf {node : RNode C H} (h : node.edges = []) : node.Keyed := by
  constructor <;> intro c cnode hc <;> simp [tryGetValue, h] at hc

/-- The split of a node keeps the keys. -/
theorem Keyed.splitAt {node : RNode C H} (h : node.Keyed) (pre : List C) (c : C)
    (rest : List C) : (node.splitAt pre c rest).Keyed := by
  constructor <;> intro d cnode hd <;> rw [tryGetValue_splitAt] at hd <;> split at hd <;> cases hd
  · simp [*]
  · exact h.of_edges rfl

/-- A new edge keeps the keys. -/
theorem Keyed.addEdge {node child : RNode C H} (h : node.Keyed) {c : C}
    (hc : node.tryGetValue c = none) (hkey : child.token.head? = some c) (hchild : child.Keyed) :
    (node.addEdge c child).Keyed := by
  constructor <;> intro d cnode hd <;> rw [tryGetValue_addEdge _ hc] at hd <;> split at hd
  · cases hd
    simp [*]
  · exact (h.child hd).1
  · cases hd
    exact hchild
  · exact (h.child hd).2

/-- An updated child keeps the keys. -/
theorem Keyed.setChild {node cnode child : RNode C H} (h : node.Keyed) {c : C}
    (hc : node.tryGetValue c = some cnode) (hkey : child.token.head? = cnode.token.head?)
    (hchild : child.Keyed) : (node.setChild c child).Keyed := by
  constructor <;> intro d cnode' hd <;> rw [tryGetValue_setChild _ hc] at hd <;> split at hd
  · cases hd
    rw [hkey, (h.child hc).1]
    simp [*]
  · exact (h.child hd).1
  · cases hd
    exact hchild
  · exact (h.child hd).2

/-- Adding a function keeps the keys. -/
theorem Added.keyed {rc : Cont C H} {node node' : RNode C H} {path loc : List C}
    (h : Added rc node path node' loc) (hk : node.Keyed) : node'.Keyed := by
  induction h with
  | full => exact hk.of_edges (by simp)
  | inToken htoken hpre => exact (hk.splitAt _ _ _).of_edges (edges_addFn _ _)
  | child hc added ih => exact hk.setChild hc added.head_token (ih (hk.child hc).2)
  | leaf hc => exact hk.addEdge hc (by simp) (.of_leaf (by simp))
  | fork htoken hpre hcd =>
    exact (hk.splitAt ..).addEdge (by rw [tryGetValue_splitAt, if_neg hcd]) (by simp)
      (.of_leaf (by simp))

/-- Below a root, whose token is empty, every path is added without an exception, and the functions
at that path alone change. -/
theorem exists_extendPath {root : RNode C H} (hroot : root.token = []) (hk : root.Keyed)
    (path : List C) (rc : Cont C H) :
    ∃ root' loc, root.extendPath path rc = some (root', loc) ∧ root'.token = [] ∧ root'.Keyed ∧
      ∀ q, root'.functionsAt q =
        if q = path then insertFn rc (root.functionsAt q) else root.functionsAt q := by
  cases path with
  | nil =>
    refine ⟨root.addFn rc, [], rfl, by simp [hroot], hk.of_edges (by simp), fun q => ?_⟩
    rw [functionsAt_addFn, hroot]
  | cons c path =>
    cases hc : root.tryGetValue c with
    | none =>
      refine ⟨root.addEdge c (addFn { token := c :: path } rc), [c], ?_, hroot, ?_, ?_⟩
      · simp [extendPath, hc]
      · exact hk.addEdge hc (by simp) (.of_leaf (by simp))
      · intro q
        rw [functionsAt_addEdge rc hc, hroot]
        rfl
    | some cnode =>
      obtain ⟨hkey, hcnode⟩ := hk.child hc
      obtain ⟨cnode', loc, hadd, hadded⟩ :=
        exists_added hcnode rc (show (c :: path).head? = some c from rfl) hkey
      refine ⟨root.setChild c cnode', c :: loc, ?_, hroot, ?_, ?_⟩
      · simp [extendPath, hc, hadd]
      · exact hk.setChild hc hadded.head_token (hadded.keyed hcnode)
      · intro q
        rw [functionsAt_setChild hc hadded.functionsAt, hroot]
        rfl

end RNode

end FrameworkBenchmarks.Zebra
