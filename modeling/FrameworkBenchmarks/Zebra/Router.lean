import FrameworkBenchmarks.Zebra.RouteNode

/-!
# The router

Registration of routes on the root of a trie, and the runtime processor: a request path is crawled
down the trie, and either a handler is applied or the router's abort node. Where the source mutates
the position of the request's state, the position is passed along.
-/

namespace FrameworkBenchmarks.Zebra

variable {C H : Type}

/-- What an attempt to process a part of the path came to: a handler was applied, with the position
it found in the state; or nothing matched; or an exception. -/
inductive Tried (H : Type) where
  | yes (inode : H) (pathPosition : Nat)
  | no (pathPosition : Nat)
  | raised
  deriving DecidableEq, Repr

/-- What processing a request came to. -/
inductive Outcome (H : Type) where
  | handler (inode : H) (pathPosition : Nat)
  | abort (pathPosition : Nat)
  | raised
  deriving DecidableEq, Repr

/-- What the router reads of a request. -/
structure Request (C : Type) where
  method : String
  path : List C

/-- The functions of a node where the path ends, tried in order. -/
def processEnd (path : List C) (method : Methods) (pos : Nat) (range : List Range) :
    List (Cont C H) → Nat → Tried H
  | [], pathPosition => .no pathPosition
  | .handlerMap m inode :: _, pathPosition =>
    if m = method then .yes inode pos else .no pathPosition
  | .complete m fn :: t, pathPosition =>
    if m = method then
      match fn.parse path range with
      | some inode => .yes inode pos
      | none => processEnd path method pos range t pos
    else .no pathPosition
  | _ :: _, _ => .raised

/-- The children of a node are smaller than the node. -/
theorem sizeOf_lt_of_lookup [DecidableEq C] {edges : List (C × RNode C H)} {c : C}
    {cnode : RNode C H} (h : edges.lookup c = some cnode) : sizeOf cnode < sizeOf edges := by
  induction edges with
  | nil => simp at h
  | cons e edges ih =>
    obtain ⟨d, n⟩ := e
    rw [List.lookup_cons] at h
    split at h
    · cases h
      simp only [List.cons.sizeOf_spec, Prod.mk.sizeOf_spec]
      omega
    · have := ih h
      simp only [List.cons.sizeOf_spec]
      omega

/-- The same, for the lookup in a node. -/
theorem RNode.sizeOf_tryGetValue [DecidableEq C] {node cnode : RNode C H} {c : C}
    (h : node.tryGetValue c = some cnode) : sizeOf cnode < sizeOf node := by
  obtain ⟨token, midFns, endFns, edges, methodFilters⟩ := node
  have : sizeOf cnode < sizeOf edges := sizeOf_lt_of_lookup h
  simp only [RNode.mk.sizeOf_spec]
  omega

/-- The functions of a node are smaller than the node. -/
theorem RNode.sizeOf_midFns (node : RNode C H) : sizeOf node.midFns < sizeOf node := by
  cases node
  simp only [RNode.mk.sizeOf_spec]
  omega

/-- The first position from `pos` on that holds one of the characters. -/
def indexOfAny [DecidableEq C] (path cs : List C) (pos : Nat) : Option Nat :=
  ((path.drop pos).findIdx? (· ∈ cs)).map (pos + ·)

/-- Such a position lies in the path. -/
theorem indexOfAny_bounds [DecidableEq C] {path cs : List C} {pos x1 : Nat}
    (h : indexOfAny path cs pos = some x1) : pos ≤ x1 ∧ x1 < path.length := by
  obtain ⟨i, hi, rfl⟩ := Option.map_eq_some_iff.1 h
  have := (List.findIdx?_eq_some_iff_findIdx_eq.1 hi).1
  rw [List.length_drop] at this
  omega

section Runtime

variable [DecidableEq C] (path : List C) (method : Methods)

/-- The path from `pos` on follows a chain of nodes: to its end, or to a node whose functions go on
matching. The result is the position and the node reached. -/
def checkCompletionPath (pos : Nat) (node : RNode C H) : Option (Nat × RNode C H) :=
  if commonPathIndex path pos node.token = node.token.length then
    let nxtChar := pos + node.token.length
    if nxtChar = path.length then
      if node.endFns.isEmpty then none else some (nxtChar, node)
    else
      match path[nxtChar]? with
      -- past the end of the path, where the source has no test
      | none => none
      | some c =>
        match _hc : node.tryGetValue c with
        | some cnode => checkCompletionPath nxtChar cnode
        | none => if node.midFns.isEmpty then none else some (nxtChar, node)
  else none
termination_by sizeOf node
decreasing_by exact RNode.sizeOf_tryGetValue _hc

/-- The node reached is the first one or one below it. -/
theorem sizeOf_checkCompletionPath {pos p : Nat} {node n : RNode C H}
    (h : checkCompletionPath path pos node = some (p, n)) : sizeOf n ≤ sizeOf node := by
  fun_induction checkCompletionPath path pos node with
  | case4 _ _ _ _ _ _ _ _ hc ih => exact (ih h).trans (RNode.sizeOf_tryGetValue hc).le
  | _ => simp_all

/-- A parameter of the path ends before one of the characters from which on the path follows the
chain of nodes. The result is the parameter's last position, and the position and node reached. -/
def getNodeCompletion (cs : List C) (pos : Nat) (node : RNode C H) :
    Option (Int × Nat × RNode C H) :=
  match _hx : indexOfAny path cs pos with
  | none => none
  | some x1 =>
    match checkCompletionPath path x1 node with
    | some cp => some (x1 - 1, cp.1, cp.2)
    | none => getNodeCompletion cs (x1 + 1) node
termination_by path.length - pos
decreasing_by
  have := indexOfAny_bounds _hx
  omega

/-- The node reached is the first one or one below it. -/
theorem sizeOf_getNodeCompletion {cs : List C} {pos p : Nat} {e : Int} {node n : RNode C H}
    (h : getNodeCompletion path cs pos node = some (e, p, n)) : sizeOf n ≤ sizeOf node := by
  fun_induction getNodeCompletion path cs pos node with
  | case1 => simp at h
  | case2 pos x1 _ cp hcp =>
    simp only [Option.some.injEq, Prod.mk.injEq] at h
    obtain ⟨-, -, rfl⟩ := h
    exact sizeOf_checkCompletionPath path hcp
  | case3 _ _ _ _ ih => exact ih h

mutual

/-- The functions of a node that go on matching, tried in order from `pos` on. -/
def processMid (fns : List (Cont C H)) (pos : Nat) (range : List Range) (pathPosition : Nat) :
    Tried H :=
  match fns with
  | [] => .no pathPosition
  | .initialMatch argCount _ nextChars node :: t =>
    applyMatch pos 0 nextChars node (List.replicate argCount ⟨0, 0⟩) t pathPosition
  | .applyMatch pcount _ nexts node :: t => applyMatch pos pcount nexts node range t pathPosition
  | .matchComplete m pcount fn :: t =>
    if m = method then
      let range := if pcount = 0 then [⟨pos, path.length - 1⟩] else range
      if pcount < range.length then
        let range := range.set pcount ⟨pos, path.length - 1⟩
        match fn.parse path range with
        | some inode => .yes inode pos
        | none => processMid t pos range pos
      else .raised
    else .no pathPosition
  | _ :: _ => .raised
termination_by sizeOf fns

/-- One parameter is matched up to a completion; without one, the other functions are tried. -/
def applyMatch (pos pcount : Nat) (ca : List C) (n : RNode C H) (range : List Range)
    (tail : List (Cont C H)) (pathPosition : Nat) : Tried H :=
  match _hn : getNodeCompletion path ca pos n with
  | some (prend, nxtpos, nxtnode) =>
    if pcount < range.length then
      let range := range.set pcount ⟨pos, prend⟩
      if nxtpos = path.length then
        processEnd path method nxtpos range nxtnode.endFns pathPosition
      else processMid nxtnode.midFns nxtpos range pathPosition
    else .raised
  | none => processMid tail pos range pathPosition
termination_by sizeOf n + sizeOf tail
decreasing_by
  · have := sizeOf_getNodeCompletion path _hn
    have := nxtnode.sizeOf_midFns
    omega
  · cases n
    simp only [RNode.mk.sizeOf_spec]
    omega

end

/-- The crawl down the trie. `last`, the last position of the path, is one less than its length. -/
def crawl (pos : Nat) (node : RNode C H) (pathPosition : Nat) : Tried H :=
  if node.methodFilters.length > 0 ∧ method ∉ node.methodFilters then .no pathPosition
  else if node.token.length > 0 then
    if commonPathIndex path pos node.token = node.token.length then
      let nxtChar := pos + node.token.length
      if nxtChar = path.length then processEnd path method pos [] node.endFns pathPosition
      else
        match path[nxtChar]? with
        | none => .raised
        | some c =>
          match _hc : node.tryGetValue c with
          | some cnode =>
            -- taken for the end of the path, without a look at the child's token
            if pos + cnode.token.length + 1 = path.length then
              processEnd path method (pos + node.token.length) [] cnode.endFns pathPosition
            else crawl nxtChar cnode pathPosition
          | none => processMid path method node.midFns nxtChar [] pathPosition
    else .no pathPosition
  else
    match path[pos]? with
    | none => .raised
    | some c =>
      match _hc : node.tryGetValue c with
      | some cnode => crawl pos cnode pathPosition
      | none => processMid path method node.midFns pos [] pathPosition
termination_by sizeOf node
decreasing_by all_goals exact RNode.sizeOf_tryGetValue _hc

end Runtime

/-- A request is processed: the crawl applies a handler, or abort is applied. -/
def processPath [DecidableEq C] (root : RNode C H) (request : Request C) (pathPosition : Nat) :
    Outcome H :=
  match crawl request.path (.ofRequest request.method) pathPosition root pathPosition with
  | .yes inode pos => .handler inode pos
  | .no pos => .abort pos
  | .raised => .raised

/-- A route: the method and the path it is registered for, and its handler. -/
structure Route (C H : Type) where
  method : Methods
  path : List C
  inode : H
  deriving DecidableEq

/-- The registration of a route. -/
def route [DecidableEq C] (r : Route C H) (root : RNode C H) : Option (RNode C H × List C) :=
  root.extendPath r.path (.handlerMap r.method r.inode)

/-- The trie of a router: its routes are registered one after the other. -/
def routerNode [DecidableEq C] (routes : List (Route C H)) : Option (RNode C H) :=
  routes.foldlM (fun inode r => (route r inode).map Prod.fst) { token := [] }

end FrameworkBenchmarks.Zebra
