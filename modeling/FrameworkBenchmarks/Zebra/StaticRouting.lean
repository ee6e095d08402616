import FrameworkBenchmarks.Zebra.Stops

/-!
# Static routing

The crawl of a request path ends at the node that the path spells, or at a child that it takes for
the end of the path because of the length of its token. The first handler there decides.
-/

namespace FrameworkBenchmarks.Zebra

variable {C H : Type}

/-- From the stop `v`, reached from `u`, the crawl along `s` takes the next stop `w` for the end of
the path: only the length of the token is compared, and with the wrong position. -/
structure Shortcut (paths : List (List C)) (s u v w : List C) : Prop where
  before : NextStop paths u v
  after : NextStop paths v w
  char : ∃ c, v ++ [c] <+: w ∧ v ++ [c] <+: s
  length : u.length + (w.length - v.length) + 1 = s.length

section Edges

variable [DecidableEq C] {routes : List (Route C H)} {root n cnode : RNode C H} {u t : List C} {c : C}

/-- The stops beyond a stop, through one character, lie beyond the child. -/
theorem TrieOf.prefix_of_edge (h : TrieOf routes root) (hn : root.reach u = some n)
    (hc : n.tryGetValue c = some cnode) (ht : IsStop (routes.map Route.path) t)
    (hut : u ++ [c] <+: t) : u ++ cnode.token <+: t := by
  obtain ⟨r, rfl⟩ := hut
  obtain ⟨m, hm⟩ := h.isStop_iff.1 ht
  rw [List.append_assoc, List.singleton_append, RNode.reach_append hn, hc, Option.bind_some] at hm
  rw [List.append_assoc, List.singleton_append, List.prefix_append_right_inj]
  by_contra hp
  rw [RNode.reach_elsewhere hp] at hm
  cases hm

/-- Without an edge for a character there is no stop beyond it. -/
theorem TrieOf.not_isStop_of_no_edge (h : TrieOf routes root) (hn : root.reach u = some n)
    (hc : n.tryGetValue c = none) (hut : u ++ [c] <+: t) :
    ¬ IsStop (routes.map Route.path) t := by
  obtain ⟨r, rfl⟩ := hut
  intro ht
  obtain ⟨m, hm⟩ := h.isStop_iff.1 ht
  rw [List.append_assoc, List.singleton_append, RNode.reach_append hn, hc] at hm
  cases hm

/-- The child is the next stop through its character. -/
theorem TrieOf.eq_of_nextStop (h : TrieOf routes root) (hn : root.reach u = some n)
    (hc : n.tryGetValue c = some cnode) (ht : NextStop (routes.map Route.path) u t)
    (hut : u ++ [c] <+: t) : t = u ++ cnode.token := by
  have hnext : NextStop (routes.map Route.path) u (u ++ cnode.token) :=
    h.nextStop_iff.2 ⟨n, c, cnode, hn, hc, rfl⟩
  rcases ht.next _ hnext.isStop_right hnext.isPrefix
    (h.prefix_of_edge hn hc ht.isStop_right hut) with heq | heq
  · exact absurd heq.symm hnext.ne
  · exact heq.symm

/-- The functions at a node of the trie. -/
theorem TrieOf.fns_eq (h : TrieOf routes root) (hn : root.reach u = some n) :
    n.midFns = [] ∧ n.endFns = handlersAt routes u := by
  have := h.functionsAt u
  rw [RNode.functionsAt, hn] at this
  exact ⟨congrArg Prod.fst this, congrArg Prod.snd this⟩

omit [DecidableEq C] in
/-- Of two strings that are both prefixes of a third one, one goes on from the other through the
third one's next character. -/
theorem prefix_through {s u v : List C} {c : C} {r : List C} (hs : s = u ++ c :: r)
    (huv : u <+: v) (hne : u ≠ v) (hv : v <+: s) : u ++ [c] <+: v := by
  obtain ⟨x, rfl⟩ := huv
  cases x with
  | nil => simp at hne
  | cons d x =>
    rw [hs, List.prefix_append_right_inj, List.cons_prefix_cons] at hv
    rw [List.prefix_append_right_inj, hv.1]
    simp

omit [DecidableEq C] in
/-- A shortcut's middle stop is passed on the way to the end of the path. -/
theorem Shortcut.lt {paths : List (List C)} {s u v w : List C} (h : Shortcut paths s u v w) :
    v <+: s ∧ u.length < v.length ∧ v.length < w.length ∧ v.length < s.length := by
  obtain ⟨c, hw, hs⟩ := h.char
  have hvw := hw.length_le
  have hvs := hs.length_le
  rw [List.length_append, List.length_singleton] at hvw hvs
  refine ⟨(List.prefix_append _ _).trans hs, ?_, hvw, hvs⟩
  refine lt_of_le_of_ne h.before.isPrefix.length_le fun hlen => h.before.ne ?_
  exact h.before.isPrefix.eq_of_length hlen

/-- The middle stop of a shortcut lies beyond the child that the path's next character leads to. -/
theorem TrieOf.prefix_of_shortcut (h : TrieOf routes root) (hn : root.reach u = some n)
    (hc : n.tryGetValue c = some cnode) {s r u' v w : List C} (hs : s = u ++ c :: r)
    (hu : u <+: u') (hcut : Shortcut (routes.map Route.path) s u' v w) : u ++ cnode.token <+: v := by
  have huv : u <+: v := hu.trans hcut.before.isPrefix
  refine h.prefix_of_edge hn hc hcut.before.isStop_right
    (prefix_through hs huv ?_ hcut.lt.1)
  rintro rfl
  exact hcut.before.ne (hcut.before.isPrefix.eq_of_length_le hu.length_le)

end Edges

/-- The path has the whole token in common from a position on if it goes on with it there. -/
theorem commonPath_eq_length_iff [DecidableEq C] (path token : List C) :
    commonPath path token = token.length ↔ token <+: path := by
  induction path generalizing token with
  | nil => cases token <;> simp [commonPath]
  | cons c path ih =>
    cases token with
    | nil => simp [commonPath]
    | cons d token =>
      by_cases hcd : c = d
      · subst hcd
        simp [commonPath, ih, List.cons_prefix_cons]
      · simp [commonPath, hcd, List.cons_prefix_cons, Ne.symm hcd]

section Crawl

variable [DecidableEq C] {routes : List (Route C H)} {root : RNode C H} {s : List C}
  {m : Methods} {pathPosition : ℕ}

/-- Where a crawl that has come to `u` may end: at the end of the path, if it is a stop, and by a
shortcut further on. -/
def Ends (paths : List (List C)) (s u w : List C) : Prop :=
  w = s ∧ IsStop paths s ∨ ∃ u' v, u <+: u' ∧ Shortcut paths s u' v w

/-- The result of a crawl is that of the handlers at the string where it ends. -/
def EndsAt (routes : List (Route C H)) (s : List C) (m : Methods) (pathPosition : ℕ)
    (result : Tried H) : Option (List C) → Prop
  | none => result = .no pathPosition
  | some w => ∃ pos, result = processEnd s m pos [] (handlersAt routes w) pathPosition

section Cases

variable {n node : RNode C H} {u r : List C} {c : C}

/-- The node that the path's next character leads to. -/
theorem TrieOf.reach_child (h : TrieOf routes root) (hn : root.reach u = some n)
    (hc : n.tryGetValue c = some node) :
    (∃ t, node.token = c :: t) ∧ root.reach (u ++ node.token) = some node ∧
      NextStop (routes.map Route.path) u (u ++ node.token) := by
  obtain ⟨-, hkeyed, -⟩ := h.plain.reach h.keyed hn
  obtain ⟨t, ht⟩ : ∃ t, node.token = c :: t := List.head?_eq_some_iff.1 (hkeyed.child hc).1
  refine ⟨⟨t, ht⟩, ?_, h.nextStop_iff.2 ⟨n, c, node, hn, hc, rfl⟩⟩
  rw [ht, RNode.reach_append hn, hc, ← ht]
  exact node.reach_token

/-- Wherever the crawl may end, the path goes on with the child's token. -/
theorem TrieOf.prefix_of_ends (h : TrieOf routes root) (hn : root.reach u = some n)
    (hc : n.tryGetValue c = some node) (hs : s = u ++ c :: r) {w : List C}
    (hw : Ends (routes.map Route.path) s u w) : u ++ node.token <+: s := by
  rcases hw with ⟨-, hstop⟩ | ⟨u', v, hu', hcut⟩
  · exact h.prefix_of_edge hn hc hstop ⟨r, by rw [hs]; simp⟩
  · exact (h.prefix_of_shortcut hn hc hs hu' hcut).trans hcut.lt.1

/-- If the path ends with the child's token, the crawl ends there. -/
theorem TrieOf.ends_iff_of_eq (h : TrieOf routes root) (hn : root.reach u = some n)
    (hc : n.tryGetValue c = some node) (hs : s = u ++ c :: r) (hq : s = u ++ node.token)
    (w : List C) : Ends (routes.map Route.path) s u w ↔ s = w := by
  constructor
  · rintro (⟨rfl, -⟩ | ⟨u', v, hu', hcut⟩)
    · rfl
    · have := (h.prefix_of_shortcut hn hc hs hu' hcut).length_le
      have := hcut.lt.2.2.2
      rw [hq] at this
      omega
  · rintro rfl
    exact .inl ⟨rfl, h.isStop_iff.2 ⟨node, hq ▸ (h.reach_child hn hc).2.1⟩⟩

/-- If the child has no edge for the character after its token, the crawl ends nowhere. -/
theorem TrieOf.not_ends_of_no_edge (h : TrieOf routes root) (hn : root.reach u = some n)
    (hc : n.tryGetValue c = some node) (hs : s = u ++ c :: r) {d : C} {r' : List C}
    (hs' : s = (u ++ node.token) ++ d :: r') (hd : node.tryGetValue d = none) (w : List C) :
    ¬ Ends (routes.map Route.path) s u w := by
  have hno : ∀ {t}, (u ++ node.token) ++ [d] <+: t → ¬ IsStop (routes.map Route.path) t :=
    h.not_isStop_of_no_edge (h.reach_child hn hc).2.1 hd
  rintro (⟨-, hstop⟩ | ⟨u', v, hu', hcut⟩)
  · exact hno ⟨r', by rw [hs']; simp⟩ hstop
  · by_cases hv : u ++ node.token = v
    · obtain ⟨x, hxw, hxs⟩ := hcut.char
      subst hv
      rw [hs', List.prefix_append_right_inj] at hxs
      obtain rfl := (List.cons_prefix_cons.1 hxs).1
      exact hno hxw hcut.after.isStop_right
    · exact hno (prefix_through hs' (h.prefix_of_shortcut hn hc hs hu' hcut) hv hcut.lt.1)
        hcut.before.isStop_right

/-- A shortcut either takes the child of the child for the end of the path, or it lies beyond. -/
theorem TrieOf.shortcut_cases (h : TrieOf routes root) (hn : root.reach u = some n)
    (hc : n.tryGetValue c = some node) (hs : s = u ++ c :: r) {d : C} {r' : List C}
    (hs' : s = (u ++ node.token) ++ d :: r') {cn : RNode C H} (hd : node.tryGetValue d = some cn)
    {u' v w : List C} (hu' : u <+: u') (hcut : Shortcut (routes.map Route.path) s u' v w) :
    u ++ node.token = v ∧ w = u ++ node.token ++ cn.token ∨ u ++ node.token ++ cn.token <+: v := by
  have hreach := (h.reach_child hn hc).2.1
  by_cases hv : u ++ node.token = v
  · obtain ⟨x, hxw, hxs⟩ := hcut.char
    subst hv
    rw [hs', List.prefix_append_right_inj] at hxs
    obtain rfl := (List.cons_prefix_cons.1 hxs).1
    exact .inl ⟨rfl, h.eq_of_nextStop hreach hd hcut.after hxw⟩
  · exact .inr (h.prefix_of_edge hreach hd hcut.before.isStop_right
      (prefix_through hs' (h.prefix_of_shortcut hn hc hs hu' hcut) hv hcut.lt.1))

/-- If the child of the child has the length that the crawl compares, the crawl ends there. -/
theorem TrieOf.ends_iff_of_shortcut (h : TrieOf routes root) (hn : root.reach u = some n)
    (hc : n.tryGetValue c = some node) (hs : s = u ++ c :: r) {d : C} {r' : List C}
    (hs' : s = (u ++ node.token) ++ d :: r') {cn : RNode C H} (hd : node.tryGetValue d = some cn)
    (hlen : u.length + cn.token.length + 1 = s.length) (w : List C) :
    Ends (routes.map Route.path) s u w ↔ u ++ node.token ++ cn.token = w := by
  obtain ⟨⟨t, ht⟩, hreach, hnext⟩ := h.reach_child hn hc
  obtain ⟨⟨t', ht'⟩, -, hnext'⟩ := h.reach_child hreach hd
  have htpos : 0 < node.token.length := by simp [ht]
  have htoken : (u ++ node.token ++ cn.token).length - (u ++ node.token).length
      = cn.token.length := by
    simp only [List.length_append]
    omega
  constructor
  · rintro (⟨rfl, hstop⟩ | ⟨u', v, hu', hcut⟩)
    · have hp := h.prefix_of_edge hreach hd hstop ⟨r', by rw [hs']; simp⟩
      exact hp.eq_of_length_le (by simp only [List.length_append]; omega)
    · rcases h.shortcut_cases hn hc hs hs' hd hu' hcut with ⟨-, rfl⟩ | hp
      · rfl
      · have := hp.length_le
        have := hcut.lt.2.2.2
        simp only [List.length_append] at *
        omega
  · rintro rfl
    refine .inr ⟨u, u ++ node.token, List.prefix_rfl, hnext, hnext', ⟨d, ?_, r', ?_⟩, ?_⟩
    · rw [ht', List.prefix_append_right_inj]
      simp
    · rw [hs']
      simp
    · rw [htoken]
      exact hlen

/-- Otherwise the crawl ends where it may end from the child on. -/
theorem TrieOf.ends_iff_of_ne (h : TrieOf routes root) (hn : root.reach u = some n)
    (hc : n.tryGetValue c = some node) (hs : s = u ++ c :: r) {d : C} {r' : List C}
    (hs' : s = (u ++ node.token) ++ d :: r') {cn : RNode C H} (hd : node.tryGetValue d = some cn)
    (hlen : ¬ u.length + cn.token.length + 1 = s.length) (w : List C) :
    Ends (routes.map Route.path) s (u ++ node.token) w ↔ Ends (routes.map Route.path) s u w := by
  obtain ⟨-, hreach, -⟩ := h.reach_child hn hc
  obtain ⟨⟨t', ht'⟩, -, -⟩ := h.reach_child hreach hd
  have htoken : (u ++ node.token ++ cn.token).length - (u ++ node.token).length
      = cn.token.length := by
    simp only [List.length_append]
    omega
  refine or_congr Iff.rfl ⟨?_, ?_⟩
  · rintro ⟨u', v, hu', hcut⟩
    exact ⟨u', v, (List.prefix_append _ _).trans hu', hcut⟩
  · rintro ⟨u', v, hu', hcut⟩
    refine ⟨u', v, ?_, hcut⟩
    by_cases hne : u = u'
    · subst hne
      have hv : v = u ++ node.token := h.eq_of_nextStop hn hc hcut.before
        (prefix_through hs hcut.before.isPrefix hcut.before.ne hcut.lt.1)
      rcases h.shortcut_cases hn hc hs hs' hd hu' hcut with ⟨-, hw⟩ | hp
      · have hlength := hcut.length
        rw [hw, hv, htoken] at hlength
        exact absurd hlength hlen
      · have := hp.length_le
        simp only [hv, ht', List.length_append, List.length_cons] at this
        omega
    · exact h.prefix_of_edge hn hc hcut.before.isStop_left (prefix_through hs hu' hne
        (hcut.before.isPrefix.trans hcut.lt.1))

end Cases

/-- The crawl from a node below the root ends wherever it may. -/
theorem TrieOf.crawl_node (h : TrieOf routes root) {n node : RNode C H} {u r : List C} {c : C}
    (hn : root.reach u = some n) (hc : n.tryGetValue c = some node) (hs : s = u ++ c :: r) :
    ∃ o, EndsAt routes s m pathPosition (crawl s m u.length node pathPosition) o ∧
      ∀ w, Ends (routes.map Route.path) s u w ↔ o = some w := by
  induction hk : sizeOf node using Nat.strong_induction_on generalizing n node u r c with
  | _ k ih =>
    obtain ⟨⟨t, ht⟩, hreach, -⟩ := h.reach_child hn hc
    obtain ⟨hp, -, -⟩ := h.plain.reach h.keyed hn
    have hfilters := (hp.child hc).2.methodFilters
    obtain ⟨hmid, hend⟩ := h.fns_eq hreach
    have hcommon : commonPathIndex s u.length node.token = node.token.length ↔
        node.token <+: c :: r := by
      rw [commonPathIndex, hs, List.drop_left, commonPath_eq_length_iff]
    rw [crawl, if_neg (by simp [hfilters]), if_pos (by simp [ht])]
    rcases RNode.token_cases node.token (c :: r) with hq | hq | ⟨d, r', hq⟩
    · -- the token is not followed
      refine ⟨none, ?_, fun w => ⟨fun hw => ?_, (nomatch ·)⟩⟩
      · rw [if_neg (hcommon.not.2 hq)]
        rfl
      · have hpre := h.prefix_of_ends hn hc hs hw
        rw [hs, List.prefix_append_right_inj] at hpre
        exact absurd hpre hq
    · -- the path ends with the token
      have hs' : s = u ++ node.token := by rw [hs, hq]
      have hlen : u.length + node.token.length = s.length := by rw [hs', List.length_append]
      refine ⟨some s, ⟨u.length, ?_⟩, fun w => ?_⟩
      · rw [if_pos (hcommon.2 (hq ▸ List.prefix_rfl))]
        dsimp only
        rw [if_pos hlen, hend, ← hs']
      · rw [h.ends_iff_of_eq hn hc hs hs', Option.some_inj]
    · -- the path goes on
      have hs' : s = (u ++ node.token) ++ d :: r' := by rw [hs, hq, List.append_assoc]
      have hlen : ¬ u.length + node.token.length = s.length := by
        rw [hs', List.length_append, List.length_append, List.length_cons]
        omega
      have hget : s[u.length + node.token.length]? = some d := by
        rw [hs', ← List.length_append, List.getElem?_append_right le_rfl]
        simp
      rw [if_pos (hcommon.2 ⟨_, hq.symm⟩)]
      simp only [if_neg hlen, hget]
      cases hd : node.tryGetValue d with
      | none =>
        refine ⟨none, ?_, fun w => ⟨fun hw => ?_, (nomatch ·)⟩⟩
        · simp [EndsAt, hmid, processMid]
        · exact absurd hw (h.not_ends_of_no_edge hn hc hs hs' hd w)
      | some cn =>
        dsimp only
        split_ifs with hcut
        · refine ⟨some (u ++ node.token ++ cn.token), ⟨u.length + node.token.length, ?_⟩,
            fun w => ?_⟩
          · rw [(h.fns_eq (h.reach_child hreach hd).2.1).2]
          · rw [h.ends_iff_of_shortcut hn hc hs hs' hd hcut, Option.some_inj]
        · obtain ⟨o, hends, ho⟩ := ih _ (hk ▸ RNode.sizeOf_tryGetValue hd) hreach hd hs' rfl
          rw [List.length_append] at hends
          exact ⟨o, hends, fun w => (h.ends_iff_of_ne hn hc hs hs' hd hcut w).symm.trans (ho w)⟩

/-- The crawl of a non-empty path from the root ends wherever it may. -/
theorem TrieOf.crawl_root (h : TrieOf routes root) (hs : s ≠ []) :
    ∃ o, EndsAt routes s m pathPosition (crawl s m 0 root pathPosition) o ∧
      ∀ w, Ends (routes.map Route.path) s [] w ↔ o = some w := by
  obtain ⟨c, r, rfl⟩ := List.exists_cons_of_ne_nil hs
  have hroot : root.reach [] = some root := h.token ▸ root.reach_token
  obtain ⟨hmid, -⟩ := h.fns_eq hroot
  rw [crawl, if_neg (by simp [h.plain.methodFilters]), if_neg (by simp [h.token])]
  simp only [List.getElem?_cons_zero]
  cases hc : root.tryGetValue c with
  | none =>
    refine ⟨none, ?_, fun w => ⟨fun hw => ?_, (fun h => by cases h)⟩⟩
    · simp [EndsAt, hmid, processMid]
    · have hno : ∀ {t}, [] ++ [c] <+: t → ¬ IsStop (routes.map Route.path) t :=
        h.not_isStop_of_no_edge hroot hc
      rcases hw with ⟨-, hstop⟩ | ⟨u', v, -, hcut⟩
      · exact absurd hstop (hno ⟨r, rfl⟩)
      · have hne : [] ≠ v := by
          rintro rfl
          simpa using hcut.lt.2.1
        exact absurd hcut.before.isStop_right
          (hno (prefix_through rfl List.nil_prefix hne hcut.lt.1))
  | some cnode => exact h.crawl_node hroot hc rfl

end Crawl

section Dispatch

variable [DecidableEq C]

/-- The route that was registered last for a path. -/
def lastRoute (routes : List (Route C H)) (q : List C) : Option (Route C H) :=
  routes.reverse.find? (·.path = q)

/-- A route is registered for exactly the method and the path of a request. -/
def Route.Matches (r : Route C H) (request : Request C) : Prop :=
  r.method = .ofRequest request.method ∧ r.path = request.path

instance (r : Route C H) (request : Request C) : Decidable (r.Matches request) :=
  inferInstanceAs (Decidable (_ ∧ _))

/-- A request is dispatched: to the handler of a route registered for it when there is one, and
otherwise to abort. -/
structure Dispatched (routes : List (Route C H)) (request : Request C) (outcome : Outcome H) :
    Prop where
  matched : (∃ r ∈ routes, r.Matches request) →
    ∃ r ∈ routes, r.Matches request ∧ ∃ pos, outcome = .handler r.inode pos
  unmatched : (¬ ∃ r ∈ routes, r.Matches request) → ∃ pos, outcome = .abort pos

/-- The requests that are dispatched: the path is not empty; no later route of the path hides the
ones registered for the method; and the crawl takes no other stop, whose last route has the
request's method, for the end of the path. -/
structure Dispatchable (routes : List (Route C H)) (request : Request C) : Prop where
  path_ne : request.path ≠ []
  notHidden : (∃ r ∈ routes, r.Matches request) →
    ∃ r, lastRoute routes request.path = some r ∧ r.method = .ofRequest request.method
  notMistaken : ∀ u v w r, Shortcut (routes.map Route.path) request.path u v w →
    w ≠ request.path → lastRoute routes w = some r → r.method ≠ .ofRequest request.method

/-- The last route registered for a path decides. -/
theorem processEnd_handlersAt (routes : List (Route C H)) (s : List C) (m : Methods) (pos : ℕ)
    (range : List Range) (pathPosition : ℕ) (q : List C) :
    processEnd s m pos range (handlersAt routes q) pathPosition =
      match lastRoute routes q with
      | some r => if r.method = m then .yes r.inode pos else .no pathPosition
      | none => .no pathPosition := by
  rw [handlersAt, lastRoute, ← List.head?_filter]
  cases routes.reverse.filter (·.path = q) <;> rfl

/-- The last route of a path is one of its routes. -/
theorem mem_of_lastRoute {routes : List (Route C H)} {q : List C} {r : Route C H}
    (h : lastRoute routes q = some r) : r ∈ routes ∧ r.path = q :=
  ⟨List.mem_reverse.1 (List.mem_of_find?_eq_some h), by simpa using List.find?_some h⟩

/-- An empty path raises an exception. -/
theorem TrieOf.processPath_nil {routes : List (Route C H)} {root : RNode C H}
    (h : TrieOf routes root) (method : String) : processPath root ⟨method, []⟩ 0 = .raised := by
  rw [processPath, crawl, if_neg (by simp [h.plain.methodFilters]), if_neg (by simp [h.token])]
  rfl

/-- The last route of the string where the crawl ends decides. -/
theorem TrieOf.processPath_eq {routes : List (Route C H)} {root : RNode C H}
    (h : TrieOf routes root) {request : Request C} (hne : request.path ≠ []) :
    ∃ o pos, (∀ w, Ends (routes.map Route.path) request.path [] w ↔ o = some w) ∧
      processPath root request 0 =
        match o.bind (lastRoute routes) with
        | some r => if r.method = .ofRequest request.method then .handler r.inode pos else .abort 0
        | none => .abort 0 := by
  obtain ⟨o, hends, ho⟩ : ∃ o, EndsAt routes request.path (.ofRequest request.method) 0
      (crawl request.path (.ofRequest request.method) 0 root 0) o ∧
        ∀ w, Ends (routes.map Route.path) request.path [] w ↔ o = some w := h.crawl_root hne
  cases o with
  | none => exact ⟨none, 0, ho, by rw [processPath, hends]; rfl⟩
  | some w =>
    obtain ⟨pos, hpos⟩ := hends
    refine ⟨some w, pos, ho, ?_⟩
    rw [processPath, hpos, processEnd_handlersAt, Option.bind_some]
    cases lastRoute routes w with
    | none => rfl
    | some r => by_cases hr : r.method = .ofRequest request.method <;> simp [hr]

/-- A request to a router of static routes is dispatched exactly if it is dispatchable. -/
theorem processPath_dispatched_iff (routes : List (Route C H)) (request : Request C) :
    (∃ root, routerNode routes = some root ∧
      Dispatched routes request (processPath root request 0)) ↔ Dispatchable routes request := by
  obtain ⟨root, hroot, h⟩ := exists_trieOf routes
  simp only [hroot, Option.some_inj, exists_eq_left']
  by_cases hne : request.path = []
  · obtain ⟨method, path⟩ := request
    obtain rfl : path = [] := hne
    rw [h.processPath_nil]
    refine ⟨fun hd => ?_, fun hd => absurd rfl hd.path_ne⟩
    by_cases hex : ∃ r ∈ routes, r.Matches ⟨method, []⟩
    · obtain ⟨_, -, -, _, hraised⟩ := hd.matched hex
      cases hraised
    · obtain ⟨_, hraised⟩ := hd.unmatched hex
      cases hraised
  · obtain ⟨o, pos, ho, houtcome⟩ := h.processPath_eq hne
    have hself : (∃ r ∈ routes, r.path = request.path) → o = some request.path := by
      rintro ⟨r, hr, hpath⟩
      exact (ho _).1 (.inl ⟨rfl, .inr (.inl (List.mem_map.2 ⟨r, hr, hpath⟩))⟩)
    have hlast : ∀ {r}, lastRoute routes request.path = some r →
        r.method = .ofRequest request.method → r ∈ routes ∧ r.Matches request :=
      fun hr hm => ⟨(mem_of_lastRoute hr).1, hm, (mem_of_lastRoute hr).2⟩
    constructor
    · intro hd
      refine ⟨hne, fun hex => ?_, fun u v w r hcut hw hr hm => ?_⟩
      · obtain ⟨r, hr, hmatch⟩ := hex
        obtain ⟨_, -, -, pos', hhandler⟩ := hd.matched ⟨r, hr, hmatch⟩
        rw [houtcome, hself ⟨r, hr, hmatch.2⟩, Option.bind_some] at hhandler
        split at hhandler
        · rename_i r' hr'
          refine ⟨r', hr', ?_⟩
          by_contra hm
          rw [if_neg hm] at hhandler
          cases hhandler
        · cases hhandler
      · -- the crawl takes `w` for the end, so that no route of the path is registered
        have hw' : o = some w := (ho w).1 (.inr ⟨u, v, List.nil_prefix, hcut⟩)
        have hno : ¬ ∃ r ∈ routes, r.Matches request := by
          rintro ⟨r', hr', hmatch⟩
          exact hw (Option.some_inj.1 (hw'.symm.trans (hself ⟨r', hr', hmatch.2⟩)))
        obtain ⟨pos', habort⟩ := hd.unmatched hno
        rw [houtcome, hw', Option.bind_some, hr] at habort
        simp [hm] at habort
    · intro hd
      refine ⟨fun hex => ?_, fun hno => ⟨0, ?_⟩⟩
      · obtain ⟨r, hr, hm⟩ := hd.notHidden hex
        obtain ⟨r', hr', hmatch⟩ := hex
        refine ⟨r, (hlast hr hm).1, (hlast hr hm).2, pos, ?_⟩
        rw [houtcome, hself ⟨r', hr', hmatch.2⟩, Option.bind_some, hr]
        simp [hm]
      · rw [houtcome]
        cases hw : o.bind (lastRoute routes) with
        | none => rfl
        | some r =>
          obtain ⟨w, rfl, hr⟩ := Option.bind_eq_some_iff.1 hw
          have hm : r.method ≠ .ofRequest request.method := by
            by_cases hws : w = request.path
            · subst hws
              exact fun hm => hno ⟨r, hlast hr hm⟩
            · rcases (ho w).2 rfl with ⟨hws', -⟩ | ⟨u, v, -, hcut⟩
              · exact absurd hws' hws
              · exact hd.notMistaken u v w r hcut hws hr
          simp [hm]

/-- A request for a path that no route has, answered by a route of the same length. -/
theorem path_mistaken : ¬ ∀ (routes : List (Route Char ℕ)) (request : Request Char),
    ∃ root, routerNode routes = some root ∧
      Dispatched routes request (processPath root request 0) := by
  intro h
  obtain ⟨root, hroot, hd⟩ :=
    h [⟨.get, "/json".toList, 1⟩, ⟨.get, "/db".toList, 2⟩] ⟨"GET", "/jabc".toList⟩
  obtain ⟨pos, habort⟩ := hd.unmatched (by decide +kernel)
  have hrun : (routerNode [⟨.get, "/json".toList, 1⟩, ⟨.get, "/db".toList, 2⟩]).map
      (fun root => processPath root ⟨"GET", "/jabc".toList⟩ 0) = some (Outcome.handler 1 1) := by
    decide +kernel
  rw [hroot, Option.map_some, habort] at hrun
  cases hrun

end Dispatch

end FrameworkBenchmarks.Zebra
