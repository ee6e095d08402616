import FrameworkBenchmarks.H2o.UpdateStatements
import FrameworkBenchmarks.H2o.WorldResults

/-!
# Execution of the prepared updates

The text of a prepared update is read as one statement with a choice between the ids. Executed with the
parameters of `do_updates`, it sets the rows of the results to their random numbers.
-/

namespace FrameworkBenchmarks.H2o

open FrameworkBenchmarks.Common
open FrameworkBenchmarks.Common.Sql

/-! ### Tokens -/

def worldName : List UInt8 := ascii "world"

def randomNumberName : List UInt8 := ascii "randomnumber"

def idName : List UInt8 := ascii "id"

/-- `::integer` -/
def integerCast : List Token := [.symbol 58, .symbol 58, keyword "integer"]

theorem isCast_integerCast : IsCast integerCast := .cast (ascii "integer")

/-- A placeholder before it is bound. -/
def dollar (k : ℕ) : List Token := [.symbol 36, .number (decimal k)]

theorem lex_placeholder {before after : List UInt8} (hbefore : before.getLast? = some 36) (k : ℕ)
    (hafter : after.head? = some 58) :
    lex (before ++ (decimal k ++ after)) = lex before ++ .number (decimal k) :: lex after := by
  rw [lex_append (apart_of_getLast? hbefore rfl rfl _), lex_append (apart_of_head? hafter rfl rfl _), lex_decimal]
  rfl

theorem lex_elemText (j : ℕ) : lex (elemText j) = keyword "when" :: (dollar (2 * j + 1) ++ (integerCast ++
    keyword "then" :: (dollar (2 * j + 2) ++ integerCast))) := by
  rw [elemText_eq, lex_placeholder rfl _ rfl, lex_placeholder rfl _ rfl]
  rfl

theorem lex_elem2Text (j : ℕ) : lex (elem2Text j) = .symbol 44 :: (dollar (2 * j + 1) ++ integerCast) := by
  rw [elem2Text_eq, lex_placeholder rfl _ rfl]
  rfl

/-- The parameters of the alternatives, and of the list behind its first one. -/
def updateWhens (i : ℕ) : List (ℕ × ℕ) := (List.range (i + 1)).map fun j => (2 * j + 1, 2 * j + 2)

def updateKeys (i : ℕ) : List ℕ := (List.range' 1 i).map fun j => 2 * j + 1

theorem bindParams_elem (next j : ℕ) (tokens : List Token) :
    bindParams next (lex (elemText j) ++ tokens) =
      whenTokens integerCast [(2 * j + 1, 2 * j + 2)] ++ bindParams next tokens := by
  have hbound : bindParams next ((keyword "when" :: (dollar (2 * j + 1) ++ (integerCast ++
      keyword "then" :: (dollar (2 * j + 2) ++ integerCast)))) ++ tokens) =
      whenTokens integerCast [(readNumber (decimal (2 * j + 1)), readNumber (decimal (2 * j + 2)))] ++
        bindParams next tokens := rfl
  rw [lex_elemText, hbound, readNumber_decimal, readNumber_decimal]

theorem bindParams_elem2 (next j : ℕ) (tokens : List Token) :
    bindParams next (lex (elem2Text j) ++ tokens) =
      listTokens integerCast [2 * j + 1] ++ bindParams next tokens := by
  have hbound : bindParams next ((.symbol 44 :: (dollar (2 * j + 1) ++ integerCast)) ++ tokens) =
      listTokens integerCast [readNumber (decimal (2 * j + 1))] ++ bindParams next tokens := rfl
  rw [lex_elem2Text, hbound, readNumber_decimal]

theorem bindParams_elems (next : ℕ) (js : List ℕ) (tokens : List Token) :
    bindParams next (js.flatMap (fun j => lex (elemText j)) ++ tokens) =
      whenTokens integerCast (js.map fun j => (2 * j + 1, 2 * j + 2)) ++ bindParams next tokens := by
  induction js with
  | nil => rfl
  | cons j js ih =>
    rw [List.flatMap_cons, List.append_assoc, bindParams_elem, ih, ← List.append_assoc]
    rfl

theorem bindParams_elems2 (next : ℕ) (js : List ℕ) (tokens : List Token) :
    bindParams next (js.flatMap (fun j => lex (elem2Text j)) ++ tokens) =
      listTokens integerCast (js.map fun j => 2 * j + 1) ++ bindParams next tokens := by
  induction js with
  | nil => rfl
  | cons j js ih =>
    rw [List.flatMap_cons, List.append_assoc, bindParams_elem2, ih, ← List.append_assoc]
    rfl

theorem lex_begin : lex UPDATE_QUERY_BEGIN = [keyword "update", .word worldName, keyword "set", .word randomNumberName,
    .symbol 61, keyword "case", .word idName] := rfl

theorem lex_middle : lex UPDATE_QUERY_MIDDLE = [keyword "else", .word randomNumberName, keyword "end", keyword "where",
    .word idName, keyword "in", .symbol 40, .symbol 36, .number [49], .symbol 58, .symbol 58, keyword "integer"] := rfl

/-- The tokens of the text are those of an update by a choice. -/
theorem tokens_updateText (i : ℕ) : tokens (updateText i) =
    caseTokens worldName randomNumberName idName integerCast (updateWhens i) 1 (updateKeys i) [.symbol 59] := by
  have helem (j : ℕ) (text : List UInt8) : Apart (elemText j) text := by
    apply @apart_of_getLast? _ 32 _ rfl rfl
    rw [elemText_eq]
    simp only [List.getLast?_append]
    rfl
  have helem2 (j : ℕ) : (elem2Text j).head? = some 44 := rfl
  have hend : UPDATE_QUERY_END.head? = some 41 := rfl
  have hmiddle : Apart UPDATE_QUERY_MIDDLE ((List.range' 1 i).flatMap elem2Text ++ UPDATE_QUERY_END) := by
    cases i with
    | zero => exact apart_of_head? hend rfl rfl _
    | succ i => exact @apart_of_head? _ 44 rfl rfl rfl _
  have hlex : lex (updateText i) = lex UPDATE_QUERY_BEGIN ++ ((List.range (i + 1)).flatMap (fun j => lex (elemText j)) ++
      (lex UPDATE_QUERY_MIDDLE ++ ((List.range' 1 i).flatMap (fun j => lex (elem2Text j)) ++ lex UPDATE_QUERY_END))) := by
    unfold updateText
    rw [lex_append (@apart_of_getLast? _ 32 rfl rfl rfl _), lex_flatMap helem, lex_append hmiddle,
      lex_flatMap_cons helem2 rfl rfl _ hend rfl rfl]
  have hbegin (rest : List Token) : bindParams 1 (lex UPDATE_QUERY_BEGIN ++ rest) =
      lex UPDATE_QUERY_BEGIN ++ bindParams 1 rest := by
    rw [lex_begin]
    rfl
  have hbound (rest : List Token) : bindParams 1 (lex UPDATE_QUERY_MIDDLE ++ rest) =
      [keyword "else", .word randomNumberName, keyword "end", keyword "where", .word idName, keyword "in", .symbol 40,
        .param 1] ++ (integerCast ++ bindParams 1 rest) := by
    rw [lex_middle]
    rfl
  rw [tokens, hlex, hbegin, bindParams_elems, hbound, bindParams_elems2, lex_begin]
  rfl

/-! ### Execution -/

theorem mem_paramNumbers_updateText (i k : ℕ) : k ∈ paramNumbers (updateText i) ↔ 1 ≤ k ∧ k ≤ 2 * (i + 1) := by
  have hmem : k ∈ paramNumbers (updateText i) ↔
      (∃ j < i + 1, k = 2 * j + 1 ∨ k = 2 * j + 2) ∨ k = 1 ∨ ∃ j, (1 ≤ j ∧ j < 1 + i) ∧ 2 * j + 1 = k := by
    rw [paramNumbers, tokens_updateText, params_caseTokens isCast_integerCast]
    simp [updateWhens, updateKeys, Token.param?]
  rw [hmem]
  constructor
  · rintro (⟨j, hj, h⟩ | h | ⟨j, hj, h⟩) <;> omega
  · intro h
    exact Or.inl ⟨(k - 1) / 2, by omega, by omega⟩

/-- What a statement sets for the results of `do_updates`. -/
def resultPairs (res : List World.QueryResult) : List (ℤ × ℤ) := res.map fun r => ((r.id : ℤ), (r.randomNumber : ℤ))

theorem updateParams_eq (res : List World.QueryResult) : updateParams res = pairParams (resultPairs res) := by
  unfold updateParams pairParams resultPairs
  rw [List.flatMap_map]

/-- The statement for a number of results sets their rows, and no others. -/
theorem execute_updateText {i : ℕ} {res : List World.QueryResult} (hlength : res.length = i + 1)
    (hnodup : (res.map World.QueryResult.id).Nodup) (database : Database) :
    ∃ database', execute (updateParams res) (updateText i) database = some database' ∧
      Assigns worldName randomNumberName idName (resultPairs res) database database' := by
  have hpairs : (updateWhens i).map (fun when => (argument (updateParams res) when.1,
      argument (updateParams res) when.2)) = resultPairs res := by
    have hargument := argument_pairParams (resultPairs res) []
    rw [List.append_nil, ← updateParams_eq, resultPairs, List.length_map, hlength, ← resultPairs] at hargument
    rw [updateWhens, List.map_map]
    exact hargument
  have hkeys : (1 :: updateKeys i).map (argument (updateParams res)) =
      (updateWhens i).map fun when => argument (updateParams res) when.1 := by
    have hrange : List.range (i + 1) = 0 :: List.range' 1 i := by
      rw [List.range_eq_range', List.range'_succ]
    rw [updateWhens, updateKeys, hrange, List.map_map, List.map_cons, List.map_cons, List.map_map]
    rfl
  have hfirst : (updateWhens i).map (fun when => argument (updateParams res) when.1) = (resultPairs res).map Prod.fst := by
    rw [← hpairs, List.map_map]
    rfl
  have hdistinct : ((updateWhens i).map fun when => argument (updateParams res) when.1).Nodup := by
    rw [hfirst, resultPairs, List.map_map]
    have hinjective : Function.Injective fun n : ℕ => (n : ℤ) := fun a b h => Int.ofNat.inj h
    have hcast := List.Nodup.map hinjective hnodup
    rwa [List.map_map] at hcast
  refine ⟨_, execute_case _ isCast_integerCast (tokens_updateText i) (Or.inr rfl) (fun l => ?_) database, ?_⟩
  · rw [mem_paramNumbers_updateText, updateParams_eq, length_pairParams, resultPairs, List.length_map, hlength]
  · have hassigns := @caseUpdate_assigns (updateParams res) worldName randomNumberName idName _ _ hdistinct hkeys database
    rw [hpairs] at hassigns
    exact hassigns

theorem updateName_injective {n m : ℕ} (h : updateName n = updateName m) : n = m := by
  have hdecimal : decimal n = decimal m := List.append_cancel_left h
  rw [← readNumber_decimal n, hdecimal, readNumber_decimal]

/-- For every bound of the queries, a statement is prepared for each number of them, under a name of its own, which
`do_updates` prints too. Its text fits into the buffer, refers to two parameters for each update, and sets the rows
of the results to the numbers that `do_updates` draws. -/
theorem updateStatements_complete (maxQueries : ℕ) (name query : Memory) :
    initializeWorldHandlers maxQueries name query = .ok ((WORLD_TABLE_NAME, WORLD_QUERY) ::
      (List.range maxQueries).reverse.map fun i => (updateName (i + 1), updateText i)) ∧
    ∀ i < maxQueries,
      (updateText i).length < MAX_UPDATE_QUERY_LEN maxQueries maxQueries ∧
      (∀ k, k ∈ paramNumbers (updateText i) ↔ 1 ≤ k ∧ k ≤ 2 * (i + 1)) ∧
      (∀ n, updateName n = updateName (i + 1) → n = i + 1) ∧
      (∀ command, updateCommand maxQueries (i + 1) command = some (updateName (i + 1))) ∧
      ∀ (rows : List World.QueryResult) (numbers : List ℕ), rows.length = i + 1 → numbers.length = i + 1 →
        (rows.map World.QueryResult.id).Nodup → ∀ database : Database,
          ∃ database', execute (updateParams (World.redrawn rows numbers)) (updateText i) database = some database' ∧
            Assigns worldName randomNumberName idName (resultPairs (World.redrawn rows numbers)) database database' := by
  refine ⟨initializeWorldHandlers_eq maxQueries name query, fun i hi => ⟨length_updateText_lt hi,
    mem_paramNumbers_updateText i, fun n => updateName_injective, updateCommand_eq hi, ?_⟩⟩
  intro rows numbers hrows hnumbers hnodup database
  apply execute_updateText
  · simp [World.redrawn, hrows, hnumbers]
  · exact (World.redrawn_perm (hnumbers.trans hrows.symm)).nodup_iff.mpr hnodup

end FrameworkBenchmarks.H2o
