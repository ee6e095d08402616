import FrameworkBenchmarks.AppMpower.BatchUpdate
import Mathlib.Data.List.Nodup

/-!
# Execution of the batch updates

The choice of the ODBC update takes its parameters in the order of their creation: the pairs of id and random
number, and the ids again. A statement of the MySQL text takes the random number first, but the id is created
first; so the rows are set as they should only where the pairs can be turned around.
-/

namespace FrameworkBenchmarks.AppMpower

open FrameworkBenchmarks.Common
open FrameworkBenchmarks.Common.Sql

/-! ### Names and texts -/

theorem decimal_injective : Function.Injective decimal := by
  intro n m h
  rw [← readNumber_decimal n, h, readNumber_decimal]

theorem ids_injective : Function.Injective ids := fun _ _ h => decimal_injective (List.append_cancel_left h)

theorem randoms_injective : Function.Injective randoms := fun _ _ h => decimal_injective (List.append_cancel_left h)

theorem jds_injective : Function.Injective jds := fun _ _ h => decimal_injective (List.append_cancel_left h)

theorem head_ids (i : ℕ) : (ids i).head? = some 105 := rfl

theorem head_randoms (i : ℕ) : (randoms i).head? = some 114 := rfl

theorem head_jds (i : ℕ) : (jds i).head? = some 106 := rfl

theorem ids_ne_randoms (i j : ℕ) : ids i ≠ randoms j := by
  intro h
  have hhead := congrArg List.head? h
  rw [head_ids, head_randoms] at hhead
  cases hhead

theorem nodup_pairNames (n : ℕ) : ((List.range n).flatMap fun i => [ids i, randoms i]).Nodup := by
  rw [List.nodup_flatMap]
  constructor
  · intro i _
    simp [ids_ne_randoms i i]
  · apply List.nodup_range.imp
    intro i j hij name hi hj
    rw [List.mem_pair] at hi hj
    rcases hi with rfl | rfl <;> rcases hj with h | h
    · exact hij (ids_injective h)
    · exact ids_ne_randoms i j h
    · exact ids_ne_randoms j i h.symm
    · exact hij (randoms_injective h)

/-- No name is created twice in a call. -/
theorem nodup_namesOf (build : Build) (n : ℕ) : (namesOf build n).Nodup := by
  unfold namesOf
  cases build.mysql with
  | true =>
    rw [if_pos rfl, List.append_nil]
    exact nodup_pairNames n
  | false =>
    rw [if_neg Bool.false_ne_true, List.nodup_append]
    refine ⟨nodup_pairNames n, List.nodup_range.map jds_injective, ?_⟩
    intro name hname name' hname' heq
    obtain ⟨i, _, hi⟩ := List.mem_flatMap.mp hname
    obtain ⟨j, _, rfl⟩ := List.mem_map.mp hname'
    subst heq
    rw [List.mem_pair] at hi
    rcases hi with h | h
    · have hhead := congrArg List.head? h
      rw [head_jds, head_ids] at hhead
      cases hhead
    · have hhead := congrArg List.head? h
      rw [head_jds, head_randoms] at hhead
      cases hhead

theorem names_parametersOf (build : Build) (worlds : List (World × ℤ)) :
    (parametersOf build worlds).map Prod.fst = namesOf build worlds.length := by
  have hrange : List.range worlds.length = worlds.zipIdx.map Prod.snd := by
    rw [List.zipIdx_map_snd, List.range_eq_range']
  unfold parametersOf namesOf pairParameters keyParameters
  rw [List.map_append, List.map_flatMap, hrange, List.flatMap_map, List.map_map]
  cases build.mysql with
  | true => rfl
  | false =>
    rw [if_neg Bool.false_ne_true, if_neg Bool.false_ne_true, List.map_map]
    rfl

theorem length_repeated (n : ℕ) (text : List UInt8) : (repeated n text).length = n * text.length := by
  rw [repeated, List.length_flatten, List.map_replicate, List.sum_replicate_nat]

theorem length_queryText (build : Build) {n : ℕ} (hn : 1 ≤ n) :
    (queryText build n).length = if build.mysql then n * 43 else n * 16 + 72 := by
  unfold queryText
  cases build.mysql with
  | true =>
    rw [if_pos rfl, if_pos rfl, length_repeated]
    rfl
  | false =>
    have hwhen : (ascii "WHEN ? THEN ? ").length = 14 := rfl
    have hlist : (ascii "?,").length = 2 := rfl
    have hbegin : (ascii "UPDATE world SET randomNumber=CASE id ").length = 38 := rfl
    have hmiddle : (ascii "ELSE randomnumber END WHERE id IN(").length = 34 := rfl
    have hend : (ascii "?)").length = 2 := rfl
    rw [if_neg Bool.false_ne_true, if_neg Bool.false_ne_true]
    simp only [List.length_append, length_repeated, hwhen, hlist, hbegin, hmiddle, hend]
    omega

/-- A text belongs to one batch size. -/
theorem queryText_injective {build : Build} {n m : ℕ} (hn : 1 ≤ n) (hm : 1 ≤ m)
    (h : queryText build n = queryText build m) : n = m := by
  have hlength := congrArg List.length h
  rw [length_queryText build hn, length_queryText build hm] at hlength
  cases hmysql : build.mysql with
  | true =>
    rw [hmysql, if_pos rfl, if_pos rfl] at hlength
    omega
  | false =>
    rw [hmysql, if_neg Bool.false_ne_true, if_neg Bool.false_ne_true] at hlength
    omega

/-! ### Calls -/

/-- A kept text is the one of its batch size, and a kept command has the parameters of its text. -/
structure Store.Valid (build : Build) (store : Store) : Prop where
  queries : ∀ n text, store.queries n = some text → text = queryText build n
  commands : ∀ text parameters, store.keyedDbCommands text = some parameters →
    ∃ n, 1 ≤ n ∧ text = queryText build n ∧ parameters.map Prod.fst = namesOf build n

theorem Store.valid_empty (build : Build) : Store.empty.Valid build :=
  ⟨fun _ _ h => (nomatch h), fun _ _ h => (nomatch h)⟩

variable {build : Build} {store : Store}

theorem query_fst (hstore : store.Valid build) (n : ℕ) : (query build store n).1 = queryText build n := by
  unfold query
  split
  · next text htext => exact hstore.queries n text htext
  · rfl

theorem Store.Valid.query (hstore : store.Valid build) (n : ℕ) : (query build store n).2.Valid build := by
  unfold AppMpower.query
  split
  · exact hstore
  · refine ⟨fun m text htext => ?_, hstore.commands⟩
    by_cases hm : m = n
    · subst hm
      simp only [Function.update_self, Option.some.injEq] at htext
      exact htext.symm
    · simp only [Function.update_of_ne hm] at htext
      exact hstore.queries m text htext

/-- A command is new, or its parameters have the names that a call creates. -/
theorem names_getCommand (hstore : store.Valid build) {n : ℕ} (hn : 1 ≤ n) :
    getCommand build store (queryText build n) = [] ∨
      (getCommand build store (queryText build n)).map Prod.fst = namesOf build n := by
  unfold getCommand
  cases build.odbc with
  | false => exact Or.inl rfl
  | true =>
    rw [if_pos rfl]
    cases hcommand : store.keyedDbCommands (queryText build n) with
    | none => exact Or.inl rfl
    | some parameters =>
      obtain ⟨m, hm, htext, hnames⟩ := hstore.commands _ _ hcommand
      rw [queryText_injective hn hm htext]
      exact Or.inr hnames

theorem Store.Valid.release (hstore : store.Valid build) {n : ℕ} (hn : 1 ≤ n) {parameters : Parameters}
    (hparameters : parameters.map Prod.fst = namesOf build n) :
    (release build store (queryText build n) parameters).Valid build := by
  unfold AppMpower.release
  cases build.odbc with
  | false => exact hstore
  | true =>
    rw [if_pos rfl]
    refine ⟨hstore.queries, fun text kept hkept => ?_⟩
    by_cases htext : text = queryText build n
    · subst htext
      simp only [Function.update_self, Option.some.injEq] at hkept
      rw [← hkept]
      exact ⟨n, hn, rfl, hparameters⟩
    · simp only [Function.update_of_ne htext] at hkept
      exact hstore.commands text kept hkept

/-- A call executes the text of its batch size, with the parameters of its worlds alone. -/
theorem loadMultipleUpdatesRows_eq (hstore : store.Valid build) {worlds : List (World × ℤ)} (hworlds : 1 ≤ worlds.length) :
    (loadMultipleUpdatesRows build store worlds).1 = ⟨queryText build worlds.length, parametersOf build worlds,
      worlds.map fun entry => { entry.1 with randomNumber := entry.2 }⟩ ∧
    (loadMultipleUpdatesRows build store worlds).2.Valid build := by
  have hquery := hstore.query worlds.length
  have hnames := names_parametersOf build worlds
  have hparameters : createParameters build
      (getCommand build (query build store worlds.length).2 (queryText build worlds.length)) worlds =
      parametersOf build worlds := by
    have hold := names_getCommand hquery hworlds
    rw [← hnames] at hold
    have hcreated := @foldl_createParameter [] _ _ hold (by rw [List.nil_append, hnames]; exact nodup_namesOf build _)
    rwa [createParameters_eq]
  constructor
  · simp only [loadMultipleUpdatesRows, query_fst hstore, hparameters]
  · simp only [loadMultipleUpdatesRows, query_fst hstore, hparameters]
    exact hquery.release hworlds hnames

/-- The store stays valid over all the calls. -/
theorem storeAfter_valid (build : Build) {calls : List (List (World × ℤ))}
    (hcalls : ∀ worlds ∈ calls, 1 ≤ worlds.length ∧ worlds.length ≤ MaxBatch) : (storeAfter build calls).Valid build := by
  have hrun : ∀ {store : Store}, store.Valid build →
      (calls.foldl (fun store worlds => (loadMultipleUpdatesRows build store worlds).2) store).Valid build := by
    induction calls with
    | nil => exact fun hstore => hstore
    | cons worlds calls ih =>
      intro store hstore
      rw [List.foldl_cons]
      apply ih fun later hlater => hcalls later (List.mem_cons_of_mem worlds hlater)
      exact (loadMultipleUpdatesRows_eq hstore (hcalls worlds List.mem_cons_self).1).2
  exact hrun (Store.valid_empty build)

/-! ### Values -/

/-- The ids and the random numbers that a call stores. -/
def pairsOf (worlds : List (World × ℤ)) : List (ℤ × ℤ) := worlds.map fun entry => (entry.1.id, entry.2)

theorem values_pairParameters (worlds : List (World × ℤ)) :
    (pairParameters worlds).map Prod.snd = pairParams (pairsOf worlds) := by
  have hworlds : worlds.zipIdx.map Prod.fst = worlds := List.zipIdx_map_fst 0 worlds
  conv_rhs => rw [← hworlds]
  rw [pairParameters, pairParams, pairsOf, List.map_flatMap, List.flatMap_map, List.flatMap_map]
  rfl

theorem values_keyParameters (worlds : List (World × ℤ)) :
    (keyParameters worlds).map Prod.snd = (pairsOf worlds).map Prod.fst := by
  have hworlds : worlds.zipIdx.map Prod.fst = worlds := List.zipIdx_map_fst 0 worlds
  conv_rhs => rw [← hworlds]
  rw [keyParameters, pairsOf, List.map_map, List.map_map, List.map_map]
  rfl

theorem lex_repeated {text : List UInt8} (h : ∀ rest, Apart text rest) (n : ℕ) (rest : List UInt8) :
    lex (repeated n text ++ rest) = (List.replicate n (lex text)).flatten ++ lex rest := by
  unfold repeated
  induction n with
  | zero => rfl
  | succ n ih =>
    rw [List.replicate_succ, List.flatten_cons, List.append_assoc, lex_append (h _), ih, List.replicate_succ,
      List.flatten_cons, List.append_assoc]

/-! ### The choice -/

/-- The parameters of the alternatives from `k` on. -/
def whensFrom (k n : ℕ) : List (ℕ × ℕ) := (List.range n).map fun j => (k + 2 * j, k + 2 * j + 1)

theorem bindParams_whens (k n : ℕ) (rest : List Token) :
    bindParams k ((List.replicate n (lex (ascii "WHEN ? THEN ? "))).flatten ++ rest) =
      whenTokens [] (whensFrom k n) ++ bindParams (k + 2 * n) rest := by
  induction n generalizing k with
  | zero => rfl
  | succ n ih =>
    have hbound (rest : List Token) : bindParams k (lex (ascii "WHEN ? THEN ? ") ++ rest) =
        whenTokens [] [(k, k + 1)] ++ bindParams (k + 2) rest := rfl
    have hwhens : whensFrom k (n + 1) = (k, k + 1) :: whensFrom (k + 2) n := by
      unfold whensFrom
      rw [List.range_succ_eq_map, List.map_cons, List.map_map, List.cons.injEq]
      refine ⟨rfl, List.map_congr_left fun j _ => ?_⟩
      simp only [Function.comp_apply, Prod.mk.injEq]
      omega
    rw [List.replicate_succ, List.flatten_cons, List.append_assoc, hbound, ih, hwhens,
      show k + 2 + 2 * n = k + 2 * (n + 1) by omega, ← List.append_assoc]
    rfl

theorem bindParams_keys (k n : ℕ) :
    bindParams k ((List.replicate n (lex (ascii "?,"))).flatten ++ lex (ascii "?)")) =
      .param k :: (listTokens [] (List.range' (k + 1) n) ++ [.symbol 41]) := by
  induction n generalizing k with
  | zero => rfl
  | succ n ih =>
    have hbound (rest : List Token) : bindParams k (lex (ascii "?,") ++ rest) =
        .param k :: .symbol 44 :: bindParams (k + 1) rest := rfl
    rw [List.replicate_succ, List.flatten_cons, List.append_assoc, hbound, ih, List.range'_succ]
    rfl

/-- The ODBC text is an update by a choice. -/
theorem tokens_queryText_choice (hbuild : build.mysql = false) (n : ℕ) : tokens (queryText build n) =
    caseTokens (ascii "world") (ascii "randomnumber") (ascii "id") [] (whensFrom 1 n) (1 + 2 * n)
      (List.range' (1 + 2 * n + 1) (n - 1)) [] := by
  have hwhen (rest : List UInt8) : Apart (ascii "WHEN ? THEN ? ") rest := @apart_of_getLast? _ 32 rfl rfl rfl rest
  have hlist (rest : List UInt8) : Apart (ascii "?,") rest := @apart_of_getLast? _ 44 rfl rfl rfl rest
  have hbegin (rest : List Token) : bindParams 1 (lex (ascii "UPDATE world SET randomNumber=CASE id ") ++ rest) =
      [keyword "update", .word (ascii "world"), keyword "set", .word (ascii "randomnumber"), .symbol 61, keyword "case",
        .word (ascii "id")] ++ bindParams 1 rest := rfl
  have hmiddle (k : ℕ) (rest : List Token) : bindParams k (lex (ascii "ELSE randomnumber END WHERE id IN(") ++ rest) =
      [keyword "else", .word (ascii "randomnumber"), keyword "end", keyword "where", .word (ascii "id"), keyword "in",
        .symbol 40] ++ bindParams k rest := rfl
  unfold tokens queryText
  rw [hbuild, if_neg Bool.false_ne_true, lex_append (@apart_of_getLast? _ 32 rfl rfl rfl _), lex_repeated hwhen,
    lex_append (@apart_of_getLast? _ 40 rfl rfl rfl _), lex_repeated hlist, hbegin, bindParams_whens, hmiddle,
    bindParams_keys]
  rfl

/-! ### The statements of MySQL -/

def setTokens (k : ℕ) : List Token :=
  [keyword "update", .word (ascii "world"), keyword "set", .word (ascii "randomnumber"), .symbol 61, .param k,
    keyword "where", .word (ascii "id"), .symbol 61, .param (k + 1), .symbol 59]

/-- The random number is the first parameter, and the id the second one. -/
def setUpdate (k : ℕ) : Update where
  table := ascii "world"
  column := ascii "randomnumber"
  value := .operand (.param k)
  condition := .equal (.column (ascii "id")) (.param (k + 1))

theorem bindParams_sets (k n : ℕ) :
    bindParams k (List.replicate n (lex (ascii "UPDATE world SET randomNumber=? WHERE id=?;"))).flatten =
      (List.range n).flatMap fun j => setTokens (k + 2 * j) := by
  induction n generalizing k with
  | zero => rfl
  | succ n ih =>
    have hbound (rest : List Token) : bindParams k (lex (ascii "UPDATE world SET randomNumber=? WHERE id=?;") ++ rest) =
        setTokens k ++ bindParams (k + 2) rest := rfl
    rw [List.replicate_succ, List.flatten_cons, hbound, ih, List.range_succ_eq_map, List.flatMap_cons, List.flatMap_map]
    congr 2
    funext j
    congr 1
    omega

theorem tokens_queryText_sets (hbuild : build.mysql = true) (n : ℕ) :
    tokens (queryText build n) = (List.range n).flatMap fun j => setTokens (1 + 2 * j) := by
  have hset (rest : List UInt8) : Apart (ascii "UPDATE world SET randomNumber=? WHERE id=?;") rest :=
    @apart_of_getLast? _ 59 rfl rfl rfl rest
  have hlex := lex_repeated hset n []
  rw [List.append_nil] at hlex
  unfold tokens queryText
  rw [hbuild, if_pos rfl, hlex, show lex [] = [] from rfl, List.append_nil, bindParams_sets]

theorem readUpdates_sets {ks : List ℕ} {fuel : ℕ} (h : ks.length ≤ fuel) :
    readUpdates fuel (ks.flatMap setTokens) = some (ks.map setUpdate) := by
  induction ks generalizing fuel with
  | nil => cases fuel <;> rfl
  | cons k ks ih =>
    cases fuel with
    | zero => exact absurd h (Nat.not_succ_le_zero _)
    | succ fuel =>
      have hread (rest : List Token) : readUpdates (fuel + 1) (setTokens k ++ rest) =
          (readUpdates fuel rest).bind fun statements => some (setUpdate k :: statements) := rfl
      rw [List.flatMap_cons, hread, ih (Nat.le_of_succ_le_succ h)]
      rfl

/-! ### Effects -/

/-- A pair the way round in which the MySQL statement takes it. -/
def turned (row : Row) (pair : ℤ × ℤ) : Row :=
  if row (ascii "id") = pair.2 then Function.update row (ascii "randomnumber") pair.1 else row

theorem turned_id (row : Row) (pair : ℤ × ℤ) : turned row pair (ascii "id") = row (ascii "id") := by
  unfold turned
  split
  · exact Function.update_of_ne (by decide) _ _
  · rfl

/-- Statement after statement, a row takes the number of the last pair that ends in its id. -/
theorem foldl_turned (pairs : List (ℤ × ℤ)) (row : Row) :
    (∃ pair ∈ pairs, pair.2 = row (ascii "id") ∧
      pairs.foldl turned row = Function.update row (ascii "randomnumber") pair.1) ∨
    (∀ pair ∈ pairs, pair.2 ≠ row (ascii "id")) ∧ pairs.foldl turned row = row := by
  induction pairs generalizing row with
  | nil => exact Or.inr ⟨fun pair hpair => (nomatch hpair), rfl⟩
  | cons first pairs ih =>
    have hrest := ih (turned row first)
    rw [turned_id] at hrest
    rw [List.foldl_cons]
    by_cases hfirst : row (ascii "id") = first.2
    · have hturned : turned row first = Function.update row (ascii "randomnumber") first.1 := if_pos hfirst
      left
      rcases hrest with ⟨pair, hpair, hid, heq⟩ | ⟨_, heq⟩
      · refine ⟨pair, List.mem_cons_of_mem first hpair, hid, ?_⟩
        rw [heq, hturned, Function.update_idem]
      · refine ⟨first, List.mem_cons_self, hfirst.symm, ?_⟩
        rw [heq, hturned]
    · have hturned : turned row first = row := if_neg hfirst
      rw [hturned] at hrest ⊢
      rcases hrest with ⟨pair, hpair, hid, heq⟩ | ⟨hnone, heq⟩
      · exact Or.inl ⟨pair, List.mem_cons_of_mem first hpair, hid, heq⟩
      · refine Or.inr ⟨fun pair hpair => ?_, heq⟩
        rcases List.mem_cons.mp hpair with rfl | hpair
        · exact fun h => hfirst h.symm
        · exact hnone pair hpair

theorem foldl_setUpdate (pairs : List (ℤ × ℤ)) (row : Row) :
    ((List.range pairs.length).map fun j => setUpdate (1 + 2 * j)).foldl
      (fun row statement => statement.apply (pairParams pairs) row) row = pairs.foldl turned row := by
  have hargument := argument_pairParams pairs []
  rw [List.append_nil] at hargument
  have hstep (row : Row) (j : ℕ) : (setUpdate (1 + 2 * j)).apply (pairParams pairs) row =
      turned row (argument (pairParams pairs) (2 * j + 1), argument (pairParams pairs) (2 * j + 2)) := by
    unfold Update.apply turned
    rw [show 1 + 2 * j = 2 * j + 1 by omega]
    simp only [setUpdate, Condition.holds, decide_eq_true_eq]
    rfl
  conv_rhs => rw [← hargument]
  rw [List.foldl_map, List.foldl_map]
  simp only [hstep]

theorem params_setTokens (ks : List ℕ) :
    (ks.flatMap setTokens).filterMap Token.param? = ks.flatMap fun k => [k, k + 1] := by
  induction ks with
  | nil => rfl
  | cons k ks ih =>
    rw [List.flatMap_cons, List.filterMap_append, ih]
    rfl

/-- The MySQL text runs its statements one after the other. -/
theorem execute_sets (hbuild : build.mysql = true) (pairs : List (ℤ × ℤ)) (database : Database) :
    execute (pairParams pairs) (queryText build pairs.length) database =
      some (Function.update database (ascii "world") ((database (ascii "world")).map fun row => pairs.foldl turned row)) := by
  have htokens : tokens (queryText build pairs.length) =
      ((List.range pairs.length).map fun j => 1 + 2 * j).flatMap setTokens := by
    rw [tokens_queryText_sets hbuild, List.flatMap_map]
  have hparams (k : ℕ) : k ∈ paramNumbers (queryText build pairs.length) ↔ 1 ≤ k ∧ k ≤ 2 * pairs.length := by
    rw [paramNumbers, htokens, params_setTokens, List.flatMap_map]
    simp only [List.mem_flatMap, List.mem_range, List.mem_pair]
    constructor
    · rintro ⟨j, hj, hk⟩
      omega
    · intro hk
      exact ⟨(k - 1) / 2, by omega, by omega⟩
  have hlength (ks : List ℕ) : ks.length ≤ (ks.flatMap setTokens).length := by
    induction ks with
    | nil => exact Nat.le_refl _
    | cons k ks ih =>
      rw [List.flatMap_cons, List.length_append, List.length_cons]
      have hset : (setTokens k).length = 11 := rfl
      omega
  have hparse : parse (queryText build pairs.length) =
      some (((List.range pairs.length).map fun j => 1 + 2 * j).map setUpdate) := by
    unfold parse
    rw [htokens]
    exact readUpdates_sets (hlength _)
  unfold execute
  rw [if_pos, hparse, Option.map_some, List.map_map]
  · have hrun := @foldl_run (pairParams pairs) (ascii "world") ((List.range pairs.length).map fun j => setUpdate (1 + 2 * j))
      (fun statement hstatement => by obtain ⟨j, _, rfl⟩ := List.mem_map.mp hstatement; rfl) database
    simp only [foldl_setUpdate] at hrun
    exact congrArg some hrun
  · rw [length_pairParams]
    exact ⟨fun k hk => (hparams k).mp hk, fun k hk => (hparams (k + 1)).mpr ⟨Nat.succ_pos k, hk⟩⟩

/-! ### What the calls store -/

/-- The call of some worlds, whatever the store keeps. -/
def callOf (build : Build) (worlds : List (World × ℤ)) : Call :=
  ⟨queryText build worlds.length, parametersOf build worlds,
    worlds.map fun entry => { entry.1 with randomNumber := entry.2 }⟩

theorem stores_callOf_iff (worlds : List (World × ℤ)) : (callOf build worlds).Stores ↔ ∀ database : Database, ∃ database',
    execute ((parametersOf build worlds).map Prod.snd) (queryText build worlds.length) database = some database' ∧
      Assigns (ascii "world") (ascii "randomnumber") (ascii "id") (pairsOf worlds) database database' := by
  unfold Call.Stores callOf
  rw [List.map_map]
  rfl

theorem argument_keys (pairs : List (ℤ × ℤ)) :
    (List.range' (1 + 2 * pairs.length) pairs.length).map (argument (pairParams pairs ++ pairs.map Prod.fst)) =
      pairs.map Prod.fst := by
  apply List.ext_getElem
  · rw [List.length_map, List.length_range', List.length_map]
  · intro i hi hi'
    have hlength := length_pairParams pairs
    rw [List.length_map] at hi'
    rw [List.getElem_map, List.getElem_range', argument, List.getD_eq_getElem?_getD,
      show 1 + 2 * pairs.length + 1 * i - 1 = (pairParams pairs).length + i by omega,
      List.getElem?_append_right (Nat.le_add_right _ _), Nat.add_sub_cancel_left, List.getElem?_eq_getElem (by simpa using hi'),
      Option.getD_some]

/-- With ODBC on PostgreSQL, the placeholders and the parameters have the same order. -/
theorem stores_choice (hbuild : build.mysql = false) {worlds : List (World × ℤ)} (hworlds : 1 ≤ worlds.length)
    (hnodup : (worlds.map fun entry => entry.1.id).Nodup) : (callOf build worlds).Stores := by
  rw [stores_callOf_iff]
  intro database
  have hvalues : (parametersOf build worlds).map Prod.snd =
      pairParams (pairsOf worlds) ++ (pairsOf worlds).map Prod.fst := by
    rw [parametersOf, hbuild, if_neg Bool.false_ne_true, List.map_append, values_pairParameters, values_keyParameters]
  have hlength : (pairsOf worlds).length = worlds.length := List.length_map _
  have hwhens : (whensFrom 1 worlds.length).map (fun when =>
      (argument (pairParams (pairsOf worlds) ++ (pairsOf worlds).map Prod.fst) when.1,
        argument (pairParams (pairsOf worlds) ++ (pairsOf worlds).map Prod.fst) when.2)) = pairsOf worlds := by
    rw [whensFrom, List.map_map, ← hlength]
    conv_rhs => rw [← argument_pairParams (pairsOf worlds) ((pairsOf worlds).map Prod.fst)]
    apply List.map_congr_left
    intro j _
    simp only [Function.comp_apply, Nat.add_comm 1 (2 * j)]
  have hfirst : (whensFrom 1 worlds.length).map (fun when =>
      argument (pairParams (pairsOf worlds) ++ (pairsOf worlds).map Prod.fst) when.1) = (pairsOf worlds).map Prod.fst := by
    conv_rhs => rw [← hwhens]
    rw [List.map_map]
    rfl
  have hkeys : ((1 + 2 * worlds.length) :: List.range' (1 + 2 * worlds.length + 1) (worlds.length - 1)).map
      (argument (pairParams (pairsOf worlds) ++ (pairsOf worlds).map Prod.fst)) = (pairsOf worlds).map Prod.fst := by
    have hargument := argument_keys (pairsOf worlds)
    rwa [hlength, ← Nat.sub_add_cancel hworlds, List.range'_succ, Nat.sub_add_cancel hworlds] at hargument
  have hdistinct : ((pairsOf worlds).map Prod.fst).Nodup := by
    rw [pairsOf, List.map_map]
    exact hnodup
  have hparams (k : ℕ) : k ∈ paramNumbers (queryText build worlds.length) ↔
      1 ≤ k ∧ k ≤ (pairParams (pairsOf worlds) ++ (pairsOf worlds).map Prod.fst).length := by
    rw [List.length_append, length_pairParams, List.length_map, hlength, paramNumbers, tokens_queryText_choice hbuild,
      params_caseTokens .none, whensFrom, List.flatMap_map]
    simp only [List.mem_append, List.mem_flatMap, List.mem_range, List.mem_cons, List.mem_range'_1, List.not_mem_nil,
      List.filterMap_nil, List.append_nil, or_false]
    constructor
    · rintro (⟨j, hj, hk⟩ | hk | hk) <;> omega
    · intro hk
      rcases Nat.lt_or_ge (2 * worlds.length) k with hlarge | hsmall
      · exact Or.inr (by omega)
      · exact Or.inl ⟨(k - 1) / 2, by omega, by omega⟩
  have hexecute := execute_case (pairParams (pairsOf worlds) ++ (pairsOf worlds).map Prod.fst) .none
    (tokens_queryText_choice hbuild worlds.length) (Or.inl rfl) hparams database
  have hassigns := @caseUpdate_assigns (pairParams (pairsOf worlds) ++ (pairsOf worlds).map Prod.fst) (ascii "world")
    (ascii "randomnumber") (ascii "id") _ _ (by rw [hfirst]; exact hdistinct) (hkeys.trans hfirst.symm) database
  rw [hwhens] at hassigns
  rw [hvalues]
  exact ⟨_, hexecute, hassigns⟩

/-- With MySQL, each id and its random number change places. -/
theorem stores_sets_iff (hbuild : build.mysql = true) {worlds : List (World × ℤ)}
    (hnodup : (worlds.map fun entry => entry.1.id).Nodup) :
    (callOf build worlds).Stores ↔ ∀ pair ∈ pairsOf worlds, pair.swap ∈ pairsOf worlds := by
  have hlength : (pairsOf worlds).length = worlds.length := List.length_map _
  have hdistinct : ((pairsOf worlds).map Prod.fst).Nodup := by
    rw [pairsOf, List.map_map]
    exact hnodup
  have hvalues : (parametersOf build worlds).map Prod.snd = pairParams (pairsOf worlds) := by
    rw [parametersOf, hbuild, if_pos rfl, List.append_nil, values_pairParameters]
  have hexecute := execute_sets hbuild (pairsOf worlds)
  rw [hlength] at hexecute
  rw [stores_callOf_iff]
  constructor
  · intro hstores pair hpair
    -- A row with the id whose number is not the one to be stored yet.
    let row : Row := Function.update (fun _ => pair.2 + 1) (ascii "id") pair.1
    have hid : row (ascii "id") = pair.1 := Function.update_self _ _ _
    have hnumber : row (ascii "randomnumber") = pair.2 + 1 := Function.update_of_ne (by decide) _ _
    obtain ⟨database', hdatabase, hassigns⟩ := hstores fun _ => [row]
    rw [hvalues, hexecute, Option.some.injEq] at hdatabase
    have hrows := hassigns.rows
    rw [← hdatabase, Function.update_self, List.map_cons, List.map_nil, List.forall₂_cons] at hrows
    have hrow := hrows.1.1 pair hpair hid
    have hstored : (pairsOf worlds).foldl turned row (ascii "randomnumber") = pair.2 := by
      rw [hrow, Function.update_self]
    rcases foldl_turned (pairsOf worlds) row with ⟨other, hother, hother', heq⟩ | ⟨_, heq⟩
    · rw [heq, Function.update_self] at hstored
      have hswap : pair.swap = other := Prod.ext hstored.symm (hid.symm.trans hother'.symm)
      rw [hswap]
      exact hother
    · rw [heq, hnumber] at hstored
      omega
  · intro hswap database
    rw [hvalues]
    refine ⟨_, hexecute database, ?_⟩
    constructor
    · intro other hother
      exact Function.update_of_ne hother _ _
    · rw [Function.update_self, List.forall₂_map_right_iff, List.forall₂_same]
      intro row _
      rcases foldl_turned (pairsOf worlds) row with ⟨other, hother, hother', heq⟩ | ⟨hnone, heq⟩
      · constructor
        · intro pair hpair hid
          have hsame : pair = other.swap :=
            List.inj_on_of_nodup_map hdistinct hpair (hswap other hother) (hid.symm.trans hother'.symm)
          rw [heq, hsame]
          rfl
        · intro hmem
          exact absurd (List.mem_map.mpr ⟨other.swap, hswap other hother, hother'⟩) hmem
      · constructor
        · intro pair hpair hid
          exact absurd hid.symm (hnone pair.swap (hswap pair hpair))
        · exact fun _ => heq

/-- Whatever calls the connection has made, a call stores what it returns if and only if the build is the one for
PostgreSQL, or every pair of an id and its random number occurs the other way round too. -/
theorem loadMultipleUpdatesRows_stores_iff {build : Build} {earlier : List (List (World × ℤ))}
    (hearlier : ∀ worlds ∈ earlier, 1 ≤ worlds.length ∧ worlds.length ≤ MaxBatch) {worlds : List (World × ℤ)}
    (hworlds : 1 ≤ worlds.length ∧ worlds.length ≤ MaxBatch) (hnodup : (worlds.map fun entry => entry.1.id).Nodup) :
    (loadMultipleUpdatesRows build (storeAfter build earlier) worlds).1.Stores ↔
      build.mysql = false ∨ ∀ pair ∈ pairsOf worlds, pair.swap ∈ pairsOf worlds := by
  have hcall : (loadMultipleUpdatesRows build (storeAfter build earlier) worlds).1 = callOf build worlds :=
    (loadMultipleUpdatesRows_eq (storeAfter_valid build hearlier) hworlds.1).1
  rw [hcall]
  cases hbuild : build.mysql with
  | false => exact iff_of_true (stores_choice hbuild hworlds.1 hnodup) (Or.inl rfl)
  | true =>
    rw [stores_sets_iff hbuild hnodup]
    constructor
    · exact Or.inr
    · intro h
      rcases h with h | h
      · cases h
      · exact h

/-- A row whose number is to be its id. -/
theorem loadMultipleUpdatesRows_stores_one :
    (loadMultipleUpdatesRows .mysqlOdbc (storeAfter .mysqlOdbc []) [(⟨7, 5⟩, 7)]).1.Stores ↔
      Build.mysqlOdbc.mysql = false ∨ ∀ pair ∈ pairsOf [(⟨7, 5⟩, 7)], pair.swap ∈ pairsOf [(⟨7, 5⟩, 7)] :=
  loadMultipleUpdatesRows_stores_iff (fun _ h => absurd h List.not_mem_nil) (by decide) (by decide)

/-- The world 1 with the random number 2: the statement sets the world 2 to 1. -/
theorem loadMultipleUpdatesRows_turned :
    ¬ (loadMultipleUpdatesRows .mysqlOdbc (storeAfter .mysqlOdbc []) [(⟨1, 5⟩, 2)]).1.Stores := by
  have hcall : (loadMultipleUpdatesRows .mysqlOdbc (storeAfter .mysqlOdbc []) [(⟨1, 5⟩, 2)]).1 =
      callOf .mysqlOdbc [(⟨1, 5⟩, 2)] := 
    (@loadMultipleUpdatesRows_eq _ _ (Store.valid_empty _) [(⟨1, 5⟩, 2)] (Nat.le_refl 1)).1
  rw [hcall, stores_sets_iff rfl (by decide)]
  decide

end FrameworkBenchmarks.AppMpower
