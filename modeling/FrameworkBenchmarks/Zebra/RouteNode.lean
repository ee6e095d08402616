import Mathlib.Data.List.Sort

/-!
# The route trie

Routes are kept in a radix trie: every node carries a token, its edges are keyed by the first
character of the child's token, and the functions of a route hang on the node whose tokens, read
from the root, spell the route's path. A node is a mutable object that only its parent (or the
function that continues on it) refers to, so an update of it is an update of the tree. Strings are
lists over an arbitrary type of characters; an exception is `none`.
-/

namespace FrameworkBenchmarks.Zebra

/-- The methods a route can be registered for. -/
inductive Methods where
  | get
  | post
  | put
  | delete
  | patch
  | unknown
  deriving DecidableEq, Repr

/-- The method of a request, from the text of its request line. -/
def Methods.ofRequest : String → Methods
  | "GET" => get
  | "POST" => post
  | "PUT" => put
  | "DELETE" => delete
  | "PATCH" => patch
  | _ => unknown

/-- An inclusive range of positions of the request path. -/
structure Range where
  start : Int
  finish : Int
  deriving DecidableEq, Repr

/-- The end of a parameterised route: it parses its ranges of the path, and the handler it then
invokes with the values is its result. -/
structure IRouteNode (C H : Type) where
  parse : List C → List Range → Option H

mutual

/-- A node of the trie. -/
structure RNode (C H : Type) where
  token : List C
  midFns : List (Cont C H) := []
  endFns : List (Cont C H) := []
  edges : List (C × RNode C H) := []
  methodFilters : List Methods := []

/-- What a route does at a node: go on matching after a parameter, or end. -/
inductive Cont (C H : Type) where
  | empty
  | initialMatch (argCount : Nat) (fmt : C) (nextChars : List C) (node : RNode C H)
  | applyMatch (pcount : Nat) (fmt : C) (nextChars : List C) (node : RNode C H)
  | matchComplete (method : Methods) (pcount : Nat) (fn : IRouteNode C H)
  | handlerMap (method : Methods) (inode : H)
  | complete (method : Methods) (fn : IRouteNode C H)

end

variable {C H : Type}

/-- The order in which the functions of a node are tried. -/
def Cont.precedence : Cont C H → Nat
  | .handlerMap .. => 0
  | .initialMatch .. => 1
  | .applyMatch .. => 2
  | .matchComplete .. => 3
  | .complete .. => 4
  | .empty => 5

/-- A new function in front of the ones of a node, sorted by precedence. -/
def addSorted (fn : Cont C H) (fns : List (Cont C H)) : List (Cont C H) :=
  (fn :: fns).insertionSort fun f g => f.precedence ≤ g.precedence

/-- How a path and a token start alike. -/
inductive PathMatch where
  | subMatch (i : Nat)
  | pathInToken
  | tokenInPath
  | zeroToken
  | zeroMatch
  | fullMatch
  deriving DecidableEq, Repr

section Strings

variable [DecidableEq C]

/-- The number of characters two strings have in common at their start. -/
def commonPath : List C → List C → Nat
  | c :: str1, d :: str2 => if c = d then commonPath str1 str2 + 1 else 0
  | _, _ => 0

/-- The same for the first string read from a position on. -/
def commonPathIndex (str1 : List C) (idx1 : Nat) (str2 : List C) : Nat :=
  commonPath (str1.drop idx1) str2

/-- The way a path meets the token of a node. -/
def getPathMatch (path token : List C) : PathMatch :=
  if token.length = 0 then .zeroToken
  else
    let cp := commonPath path token
    let tokenMatch := cp = token.length
    let pathMatch := cp = path.length
    if cp = 0 then .zeroMatch
    else if tokenMatch ∧ pathMatch then .fullMatch
    else if tokenMatch then .tokenInPath
    else if pathMatch then .pathInToken
    else .subMatch cp

/-- Only a non-empty path can extend a non-empty token. -/
theorem length_pos_of_tokenInPath {path token : List C}
    (h : getPathMatch path token = .tokenInPath) : 0 < token.length ∧ 0 < path.length := by
  have htoken : token.length ≠ 0 := by
    intro h0
    simp [getPathMatch, h0] at h
  refine ⟨by omega, ?_⟩
  cases path with
  | nil => simp [getPathMatch, htoken, commonPath] at h
  | cons c path => simp

end Strings

namespace RNode

/-- Whether a node has an edge for a character, and its child there. -/
def tryGetValue [DecidableEq C] (node : RNode C H) (c : C) : Option (RNode C H) :=
  node.edges.lookup c

/-- The update of the child that one edge leads to. -/
def setChild [DecidableEq C] (node : RNode C H) (c : C) (child : RNode C H) : RNode C H :=
  { node with edges := node.edges.map fun e => if e.1 = c then (e.1, child) else e }

/-- A new edge. -/
def addEdge (node : RNode C H) (c : C) (child : RNode C H) : RNode C H :=
  { node with edges := node.edges ++ [(c, child)] }

/-- A function goes to the list of its kind. -/
def addFn (node : RNode C H) (fn : Cont C H) : RNode C H :=
  match fn with
  | .empty => node
  | .initialMatch .. | .applyMatch .. | .matchComplete .. =>
    { node with midFns := addSorted fn node.midFns }
  | .handlerMap .. | .complete .. =>
    { node with endFns := addSorted fn node.endFns }

/-- A node is split: its token ends at `pos`, and a new child takes the rest of the token, the
edges and the functions. The method filters stay behind. -/
def split (node : RNode C H) (pos : Nat) : Option (RNode C H) :=
  match node.token.drop pos with
  | [] => none
  | c :: childToken =>
    let snode : RNode C H :=
      { token := c :: childToken, midFns := node.midFns, endFns := node.endFns,
        edges := node.edges }
    some { token := node.token.take pos, edges := [(c, snode)],
           methodFilters := node.methodFilters }

variable [DecidableEq C]

/-- A route's function is added below a node that its path starts at. Besides the new node, the
result names the node that received the function by the edges that lead to it. -/
def addPath (node : RNode C H) (path : List C) (rc : Cont C H) : Option (RNode C H × List C) :=
  match _hm : getPathMatch path node.token with
  | .zeroToken => some ({ node with token := path }.addFn rc, [])
  | .zeroMatch => none
  | .fullMatch => some (node.addFn rc, [])
  | .pathInToken => do
    let node ← node.split path.length
    some (node.addFn rc, [])
  | .tokenInPath => do
    -- the path extends beyond this node
    let rem := path.drop node.token.length
    let c ← rem.head?
    match node.tryGetValue c with
    | some cnode => do
      let (cnode, loc) ← cnode.addPath rem rc
      some (node.setChild c cnode, c :: loc)
    | none => some (node.addEdge c (addFn { token := rem } rc), [c])
  | .subMatch i => do
    let node ← node.split i
    let rem := path.drop i
    let c ← rem.head?
    some (node.addEdge c (addFn { token := rem } rc), [c])
termination_by path.length
decreasing_by
  have := length_pos_of_tokenInPath _hm
  simp only [List.length_drop]
  omega

/-- A route's function is added below a node, past its token. -/
def extendPath (node : RNode C H) (path : List C) (rc : Cont C H) :
    Option (RNode C H × List C) :=
  match path with
  | [] => some (node.addFn rc, [])
  | c :: _ =>
    match node.tryGetValue c with
    | some cnode => do
      let (cnode, loc) ← cnode.addPath path rc
      some (node.setChild c cnode, c :: loc)
    | none => some (node.addEdge c (addFn { token := path } rc), [c])

end RNode

end FrameworkBenchmarks.Zebra
