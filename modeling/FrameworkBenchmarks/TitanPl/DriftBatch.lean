import FrameworkBenchmarks.TitanPl.Action
import Std.Data.TreeMap.Lemmas

/-!
# Drift calls with an array

A drift call with an array runs its operations as tasks of their own, which finish in any order. What
V8 tells about JavaScript values, and what an operation results in, are parameters.
-/

namespace FrameworkBenchmarks.TitanPl

/-- What native functions ask of JavaScript values. Where JavaScript code runs it may throw, and then
the native call does not return a value. -/
structure V8 (J : Type) where
  isObject : J → Bool
  isString : J → Bool
  truthy : J → Bool
  str : String → J
  get : J → J → Option J
  toString : J → Option String
  stringify : J → Option String
  ownPropertyNames : J → Option (List J)

variable {J N : Type}

section Parse

/-- `obj.get(scope, v8_str(scope, key))` -/
def V8.getKey (v8 : V8 J) (obj : J) (key : String) : Option J := v8.get obj (v8.str key)

/-- The property `method` of the options of a request. -/
def fetchMethod (v8 : V8 J) (opts : J) : Option String := do
  let m ← v8.getKey opts "method"
  if v8.isString m then v8.toString m else some "GET"

/-- The property `body`. -/
def fetchBody (v8 : V8 J) (opts : J) : Option (Option String) := do
  let b ← v8.getKey opts "body"
  if v8.isString b then (v8.toString b).map some
  else if v8.isObject b then (v8.stringify b).map some
  else some none

/-- The property `headers`. -/
def fetchHeaders (v8 : V8 J) (opts : J) : Option (List (String × String)) := do
  let h ← v8.getKey opts "headers"
  if v8.isObject h then
    let keys ← v8.ownPropertyNames h
    keys.mapM fun key => do
      let val ← v8.get h key
      let k ← v8.toString key
      let v ← v8.toString val
      return (k, v)
  else some []

/-- `parse_async_op`: the operation that a value describes, if any. -/
def parseAsyncOp (v8 : V8 J) (opVal : J) : Option (Option TitanAsyncOp) :=
  if v8.isObject opVal then do
    let typeObj ← v8.getKey opVal "type"
    let opType ← v8.toString typeObj
    let data ← v8.getKey opVal "data"
    if v8.isObject data then
      if opType = "fetch" then
        let urlObj ← v8.getKey data "url"
        let url ← v8.toString urlObj
        let opts ← v8.getKey data "opts"
        if v8.isObject opts then
          let method ← fetchMethod v8 opts
          let body ← fetchBody v8 opts
          let headers ← fetchHeaders v8 opts
          return some (.fetch url method body headers)
        else return some (.fetch url "GET" none [])
      else if opType = "db_query" then
        let connObj ← v8.getKey data "conn"
        let conn ← v8.toString connObj
        let queryObj ← v8.getKey data "query"
        let query ← v8.toString queryObj
        return some (.dbQuery conn query)
      else if opType = "fs_read" then
        let pathObj ← v8.getKey data "path"
        let path ← v8.toString pathObj
        return some (.fsRead path)
      else return none
    else return none
  else some none

/-- `drift` with an array, up to the native call: every element must be marked. -/
def driftAccepts (v8 : V8 J) (items : List J) : Option Bool :=
  match items with
  | [] => some true
  | item :: items => do
    if v8.truthy item then
      let mark ← v8.getKey item "__titanAsync"
      if v8.truthy mark then driftAccepts v8 items else return false
    else return false

/-- `drift` with an array: the operations that `native_drift_call` finds in it, unless it throws. -/
def driftArray (v8 : V8 J) (items : List J) : Option (List (Option TitanAsyncOp)) := do
  let accepted ← driftAccepts v8 items
  if accepted then items.mapM (parseAsyncOp v8) else none

end Parse

section Run

/-- The tasks that `run_async_operation` spawns for a batch: the operations with their indices. -/
def spawned (ops : List TitanAsyncOp) : List (TitanAsyncOp × ℕ) := ops.zipIdx

/-- The loop over `join_next`, over the tasks in the order in which they end: the value of each task
that does not panic is stored under its index. -/
def joinAll (run : TitanAsyncOp × ℕ → Option (Value N)) (ended : List (TitanAsyncOp × ℕ))
    (results : Std.TreeMap ℕ (Value N)) : Std.TreeMap ℕ (Value N) :=
  ended.foldl (fun results task =>
    match run task with
    | some val => results.insert task.2 val
    | none => results) results

/-- `run_async_operation`, with the order in which the tasks of a batch end. -/
def runAsyncOperation (run : TitanAsyncOp × ℕ → Option (Value N))
    (ended : List (TitanAsyncOp × ℕ)) : TitanAsyncOp → Option (Value N)
  | .batch _ => some (.array ((joinAll run ended ∅).toList.map Prod.snd))
  | op => run (op, 0)

/-- The value of a task, with its index. -/
def outcome (run : TitanAsyncOp × ℕ → Option (Value N)) (task : TitanAsyncOp × ℕ) :
    Option (ℕ × Value N) :=
  (run task).map fun val => (task.2, val)

variable {run : TitanAsyncOp × ℕ → Option (Value N)} {ended : List (TitanAsyncOp × ℕ)}

/-- With different indices no result replaces another. -/
theorem toList_joinAll (run : TitanAsyncOp × ℕ → Option (Value N))
    (results : Std.TreeMap ℕ (Value N)) (hnodup : (ended.map Prod.snd).Nodup)
    (hnew : ∀ task ∈ ended, ∀ r ∈ results.toList, r.1 ≠ task.2) :
    (joinAll run ended results).toList.Perm (ended.filterMap (outcome run) ++ results.toList) := by
  induction ended generalizing results with
  | nil => exact .refl _
  | cons task ended ih =>
    rw [List.map_cons, List.nodup_cons] at hnodup
    obtain ⟨hfirst, hrest⟩ := List.forall_mem_cons.mp hnew
    rw [joinAll, List.foldl_cons, ← joinAll, List.filterMap_cons, outcome]
    cases run task with
    | none => exact ih results hnodup.2 hrest
    | some val =>
      have hinsert : (results.insert task.2 val).toList.Perm ((task.2, val) :: results.toList) := by
        have hperm := Std.TreeMap.toList_insert_perm (t := results) (k := task.2) (v := val)
        rwa [List.filter_eq_self.mpr] at hperm
        intro r hr
        simpa using (hfirst r hr).symm
      have hlater := ih (results.insert task.2 val) hnodup.2 ?_
      · exact (hlater.trans (hinsert.append_left _)).trans List.perm_middle
      · intro task' htask' r hr
        rcases List.mem_cons.mp (hinsert.mem_iff.mp hr) with rfl | hold
        · intro heq
          apply hnodup.1
          rw [show task.2 = task'.2 from heq]
          exact List.mem_map_of_mem htask'
        · exact hrest task' htask' r hold

/-- The indices of the tasks are rising. -/
theorem spawned_indices (ops : List TitanAsyncOp) :
    ((spawned ops).map Prod.snd).Pairwise (· < ·) := by
  rw [spawned, List.zipIdx_map_snd]
  exact List.pairwise_lt_range'

/-- In whatever order the tasks end, their values are returned in the order of their indices. -/
theorem values_joinAll {ops : List TitanAsyncOp} (hended : ended.Perm (spawned ops)) :
    (joinAll run ended ∅).toList.map Prod.snd = (spawned ops).filterMap run := by
  have hnodup : (ended.map Prod.snd).Nodup :=
    (hended.map Prod.snd).nodup_iff.mpr ((spawned_indices ops).imp Nat.ne_of_lt)
  have hempty : (∅ : Std.TreeMap ℕ (Value N)).toList = [] := rfl
  have hperm := toList_joinAll run ∅ hnodup fun _ _ r hr => (nomatch hr)
  rw [hempty, List.append_nil] at hperm
  have hordered : (joinAll run ended ∅).toList.Pairwise fun r r' => r.1 < r'.1 :=
    Std.TreeMap.ordered_keys_toList.imp fun h => Nat.compare_eq_lt.mp h
  have htasks : ((spawned ops).filterMap (outcome run)).Pairwise fun r r' => r.1 < r'.1 := by
    apply List.pairwise_filterMap.mpr
    apply (List.pairwise_map.mp (spawned_indices ops)).imp
    intro task task' hlt r hr r' hr'
    obtain ⟨val, -, rfl⟩ := Option.map_eq_some_iff.mp hr
    obtain ⟨val', -, rfl⟩ := Option.map_eq_some_iff.mp hr'
    exact hlt
  have heq : (joinAll run ended ∅).toList = (spawned ops).filterMap (outcome run) := by
    apply List.Perm.eq_of_pairwise _ hordered htasks (hperm.trans (hended.filterMap _))
    intro r r' _ _ hlt hlt'
    omega
  rw [heq, List.map_filterMap]
  apply List.filterMap_congr
  intro task _
  rw [outcome, Option.map_map]
  exact Option.map_id'

/-- No value is missing exactly if no element is dropped and no task panics. -/
theorem length_filterMap_spawned_iff (ops : List (Option TitanAsyncOp)) :
    ((spawned (ops.filterMap id)).filterMap run).length = ops.length ↔
      (∀ op ∈ ops, op ≠ none) ∧ ∀ task ∈ spawned (ops.filterMap id), run task ≠ none := by
  have hspawned : (spawned (ops.filterMap id)).length = (ops.filterMap id).length :=
    List.length_zipIdx
  have hvals := List.length_filterMap_le run (spawned (ops.filterMap id))
  have hops := List.length_filterMap_le id ops
  have hall : (ops.filterMap id).length = ops.length ↔ ∀ op ∈ ops, op ≠ none := by
    rw [List.filterMap_length_eq_length]
    simp only [id, Option.isSome_iff_ne_none]
  have hrun : ((spawned (ops.filterMap id)).filterMap run).length =
      (spawned (ops.filterMap id)).length ↔
        ∀ task ∈ spawned (ops.filterMap id), run task ≠ none := by
    rw [List.filterMap_length_eq_length]
    simp only [Option.isSome_iff_ne_none]
  rw [← hall, ← hrun]
  omega

/-- If nothing is dropped, the places are kept. -/
theorem map_some_filterMap {α β : Type} {f : α → Option β} {l : List α} (h : ∀ a ∈ l, f a ≠ none) :
    (l.filterMap f).map some = l.map f := by
  induction l with
  | nil => rfl
  | cons a l ih =>
    obtain ⟨hfirst, hrest⟩ := List.forall_mem_cons.mp h
    obtain ⟨b, hb⟩ := Option.ne_none_iff_exists'.mp hfirst
    rw [List.filterMap_cons_some hb, List.map_cons, List.map_cons, ih hrest, hb]

/-- Then the value of each operation is in its place. -/
theorem getElem?_filterMap_spawned {ops : List (Option TitanAsyncOp)} (hops : ∀ op ∈ ops, op ≠ none)
    (hrun : ∀ task ∈ spawned (ops.filterMap id), run task ≠ none) {i : ℕ} {op : TitanAsyncOp}
    (hop : ops[i]? = some (some op)) :
    ((spawned (ops.filterMap id)).filterMap run)[i]? = run (op, i) := by
  have hbatch : (ops.filterMap id)[i]? = some op := by
    have hplace := congrArg (·[i]?) (map_some_filterMap (f := id) hops)
    simpa [hop] using hplace
  have htask : (spawned (ops.filterMap id))[i]? = some (op, i) := by
    rw [spawned, List.getElem?_zipIdx, hbatch, Nat.zero_add]
    rfl
  have hplace := congrArg (·[i]?) (map_some_filterMap hrun)
  rw [List.getElem?_map, List.getElem?_map, htask, Option.map_some] at hplace
  obtain ⟨val, hval, hsome⟩ := Option.map_eq_some_iff.mp hplace
  rw [hval, hsome]

theorem length_of_mapM {α β : Type} {f : α → Option β} {xs : List α} {ys : List β}
    (h : xs.mapM f = some ys) : ys.length = xs.length := by
  induction xs generalizing ys with
  | nil =>
    obtain rfl := Option.some.inj h
    rfl
  | cons x xs ih =>
    rw [List.mapM_cons] at h
    obtain ⟨y, -, hrest⟩ := Option.bind_eq_some_iff.mp h
    obtain ⟨ys', hys, heq⟩ := Option.bind_eq_some_iff.mp hrest
    obtain rfl := Option.some.inj heq
    rw [List.length_cons, List.length_cons, ih hys]

end Run

/-- A drift call with an array of marked elements that returns: in whatever order the tasks end, the
returned array is as long as the argument and has the value of each operation in its place exactly if
every element describes an operation and no task panics. -/
theorem drift_positional_iff {v8 : V8 J} {items : List J} {ops : List (Option TitanAsyncOp)}
    {ended : List (TitanAsyncOp × ℕ)} (run : TitanAsyncOp × ℕ → Option (Value N))
    (hdrift : driftArray v8 items = some ops) (hended : ended.Perm (spawned (ops.filterMap id))) :
    ∃ vals, (DriftArg.array ops).asyncOp.bind (fun op => runAsyncOperation run ended op.1) =
        some (.array vals) ∧
      ((vals.length = items.length ∧
          ∀ i op, ops[i]? = some (some op) → vals[i]? = run (op, i)) ↔
        (∀ op ∈ ops, op ≠ none) ∧ ∀ task ∈ spawned (ops.filterMap id), run task ≠ none) := by
  obtain ⟨accepted, -, hmap⟩ := Option.bind_eq_some_iff.mp hdrift
  have hlength : ops.length = items.length := by
    split at hmap
    · exact length_of_mapM hmap
    · cases hmap
  refine ⟨(spawned (ops.filterMap id)).filterMap run, ?_, ?_⟩
  · rw [DriftArg.asyncOp, Option.bind_some, runAsyncOperation, values_joinAll hended]
  · rw [← hlength, length_filterMap_spawned_iff]
    constructor
    · exact fun h => h.1
    · exact fun h => ⟨h, fun i op hop => getElem?_filterMap_spawned h.1 h.2 hop⟩

/-- JSON values as JavaScript sees them. -/
def jsonV8 : V8 (Value ℕ) where
  isObject := fun v => match v with | .object _ | .array _ => true | _ => false
  isString := fun v => match v with | .string _ => true | _ => false
  truthy := fun v => match v with | .null | .bool false | .number 0 | .string "" => false | _ => true
  str := .string
  get := fun obj key => match key with
    | .string k => some ((obj.get k).getD .null)
    | _ => some .null
  toString := fun v => match v with | .string s => some s | _ => some "undefined"
  stringify := fun v => some (v.stringify toString)
  ownPropertyNames := fun v => match v with
    | .object fields => some (fields.map fun field => .string field.1)
    | _ => some []

/-- A marked value of some type. -/
def asyncOp (type path : String) : Value ℕ :=
  .object [("__titanAsync", .bool true), ("type", .string type),
    ("data", .object [("path", .string path)])]

/-- Two files, the second of which is read first. -/
theorem drift_positional_files :
    ∃ vals, runAsyncOperation (fun task => some (.number task.2))
        [(.fsRead "b", 1), (.fsRead "a", 0)] (.batch [.fsRead "a", .fsRead "b"]) =
          some (.array vals) ∧ vals.length = 2 := by
  have hdrift : driftArray jsonV8 [asyncOp "fs_read" "a", asyncOp "fs_read" "b"] =
      some [some (.fsRead "a"), some (.fsRead "b")] := by
    rfl
  have hended : [(TitanAsyncOp.fsRead "b", 1), (.fsRead "a", 0)].Perm
      (spawned ([some (.fsRead "a"), some (.fsRead "b")].filterMap id)) :=
    List.Perm.swap _ _ _
  obtain ⟨vals, hvals, hiff⟩ := drift_positional_iff (fun task => some (.number task.2)) hdrift hended
  exact ⟨vals, hvals, (hiff.mpr ⟨by simp, by simp⟩).1⟩

/-- An operation of an unknown type in front of a file: the file takes its place. -/
theorem drift_dropped :
    driftArray jsonV8 [asyncOp "sleep" "", asyncOp "fs_read" "a"] = some [none, some (.fsRead "a")] ∧
      ∃ vals, (DriftArg.array [none, some (.fsRead "a")]).asyncOp.bind (fun op =>
          runAsyncOperation (fun _ => some (.string "content")) [(.fsRead "a", 0)] op.1) =
            some (.array vals) ∧ vals = [Value.string (N := ℕ) "content"] := by
  exact ⟨rfl, _, rfl, rfl⟩

end FrameworkBenchmarks.TitanPl
