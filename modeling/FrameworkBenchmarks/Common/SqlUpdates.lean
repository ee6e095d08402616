import FrameworkBenchmarks.Common.Sql
import Mathlib.Data.List.Forall2

/-!
# Updates of several rows

An update by a choice names a key and its number for each of several rows, and lists the keys again. It sets
each of these rows to its number, and no other row.
-/

namespace FrameworkBenchmarks.Common.Sql

/-! ### Reading -/

/-- What may stand behind a parameter. -/
inductive IsCast : List Token → Prop
  | none : IsCast []
  | cast (type : List UInt8) : IsCast [.symbol 58, .symbol 58, .word type]

/-- The alternatives of a choice between parameters. -/
def whenTokens (cast : List Token) (whens : List (ℕ × ℕ)) : List Token :=
  whens.flatMap fun when => keyword "when" :: .param when.1 :: (cast ++ keyword "then" :: .param when.2 :: cast)

/-- The parameters of a list behind its first one. -/
def listTokens (cast : List Token) (ks : List ℕ) : List Token :=
  ks.flatMap fun k => .symbol 44 :: .param k :: cast

/-- The tokens of an update by a choice. -/
def caseTokens (table column key : List UInt8) (cast : List Token) (whens : List (ℕ × ℕ)) (k : ℕ) (ks : List ℕ)
    (rest : List Token) : List Token :=
  keyword "update" :: .word table :: keyword "set" :: .word column :: .symbol 61 :: keyword "case" :: .word key ::
    (whenTokens cast whens ++ keyword "else" :: .word column :: keyword "end" :: keyword "where" :: .word key ::
      keyword "in" :: .symbol 40 :: .param k :: (cast ++ (listTokens cast ks ++ .symbol 41 :: rest)))

def caseUpdate (table column key : List UInt8) (whens : List (ℕ × ℕ)) (ks : List ℕ) : Update where
  table := table
  column := column
  value := .choice (.column key) (whens.map fun when => (.param when.1, .param when.2)) (.column column)
  condition := .isIn (.column key) (ks.map .param)

theorem expect_self (token : Token) (tokens : List Token) : expect token (token :: tokens) = some tokens :=
  if_pos rfl

theorem expect_of_ne {token first : Token} (h : first ≠ token) (tokens : List Token) :
    expect token (first :: tokens) = none := if_neg h

theorem readOperand_word (name : List UInt8) (tokens : List Token) :
    readOperand (.word name :: tokens) = some (.column name, tokens) := rfl

variable {cast : List Token}

theorem readOperand_param (hcast : IsCast cast) (k : ℕ) {rest : List Token} (hrest : rest.head? ≠ some (.symbol 58)) :
    readOperand (.param k :: (cast ++ rest)) = some (.param k, rest) := by
  cases hcast with
  | cast type => rfl
  | none =>
    unfold readOperand
    split
    · next heq =>
      obtain ⟨-, heq⟩ := List.cons.inj heq
      rw [List.nil_append] at heq
      rw [heq] at hrest
      exact absurd rfl hrest
    · next heq =>
      obtain ⟨hk, rfl⟩ := List.cons.inj heq
      obtain rfl := Token.param.inj hk
      rfl
    · next heq => cases heq
    · next _ hparam _ => exact absurd rfl (hparam k _)

theorem head_whenTokens (whens : List (ℕ × ℕ)) {rest : List Token} (hrest : rest.head? ≠ some (.symbol 58)) :
    (whenTokens cast whens ++ rest).head? ≠ some (.symbol 58) := by
  cases whens with
  | nil => exact hrest
  | cons when whens =>
    intro heq
    cases heq

theorem readWhens_tokens (hcast : IsCast cast) {whens : List (ℕ × ℕ)} {rest : List Token}
    (hwhen : expect (keyword "when") rest = none) (hrest : rest.head? ≠ some (.symbol 58)) {fuel : ℕ}
    (hfuel : whens.length < fuel) :
    readWhens fuel (whenTokens cast whens ++ rest) =
      some (whens.map fun when => (.param when.1, .param when.2), rest) := by
  induction whens generalizing fuel with
  | nil =>
    obtain ⟨fuel, rfl⟩ := Nat.exists_eq_add_of_lt hfuel
    unfold whenTokens
    rw [List.flatMap_nil, List.nil_append, readWhens, hwhen]
    rfl
  | cons when whens ih =>
    cases fuel with
    | zero => exact absurd hfuel (Nat.not_lt_zero _)
    | succ fuel =>
      have hthen : (keyword "then" :: .param when.2 :: (cast ++ (whenTokens cast whens ++ rest))).head? ≠
          some (.symbol 58) := by
        intro heq
        cases heq
      have hshape : whenTokens cast (when :: whens) ++ rest = keyword "when" :: .param when.1 ::
          (cast ++ keyword "then" :: .param when.2 :: (cast ++ (whenTokens cast whens ++ rest))) := by
        simp [whenTokens]
      rw [hshape, readWhens, expect_self]
      simp only [readOperand_param hcast when.1 hthen, expect_self,
        readOperand_param hcast when.2 (head_whenTokens whens hrest), ih (Nat.lt_of_succ_lt_succ hfuel),
        Option.bind_eq_bind, Option.bind_some, Option.pure_def, List.map_cons]

theorem readOperands_tokens (hcast : IsCast cast) (k : ℕ) {ks : List ℕ} (rest : List Token) {fuel : ℕ}
    (hfuel : ks.length < fuel) :
    readOperands fuel (.param k :: (cast ++ (listTokens cast ks ++ .symbol 41 :: rest))) =
      some ((k :: ks).map .param, rest) := by
  induction ks generalizing fuel k with
  | nil =>
    obtain ⟨fuel, rfl⟩ := Nat.exists_eq_add_of_lt hfuel
    have hclose : (listTokens cast [] ++ .symbol 41 :: rest).head? ≠ some (.symbol 58) := by
      intro heq
      cases heq
    rw [readOperands, readOperand_param hcast k hclose]
    rfl
  | cons l ks ih =>
    cases fuel with
    | zero => exact absurd hfuel (Nat.not_lt_zero _)
    | succ fuel =>
      have hshape : listTokens cast (l :: ks) ++ .symbol 41 :: rest =
          .symbol 44 :: .param l :: (cast ++ (listTokens cast ks ++ .symbol 41 :: rest)) := by
        simp [listTokens]
      have hcomma : (listTokens cast (l :: ks) ++ .symbol 41 :: rest).head? ≠ some (.symbol 58) := by
        rw [hshape]
        intro heq
        cases heq
      rw [readOperands, readOperand_param hcast k hcomma, hshape]
      simp only [Option.bind_eq_bind, Option.bind_some, ih l (Nat.lt_of_succ_lt_succ hfuel)]
      rfl

theorem length_le_whenTokens (cast : List Token) (whens : List (ℕ × ℕ)) :
    whens.length ≤ (whenTokens cast whens).length := by
  induction whens with
  | nil => exact Nat.le_refl _
  | cons when whens ih =>
    simp only [whenTokens, List.flatMap_cons, List.length_append, List.length_cons] at ih ⊢
    omega

theorem length_le_listTokens (cast : List Token) (ks : List ℕ) : ks.length ≤ (listTokens cast ks).length := by
  induction ks with
  | nil => exact Nat.le_refl _
  | cons k ks ih =>
    simp only [listTokens, List.flatMap_cons, List.length_append, List.length_cons] at ih ⊢
    omega

theorem readUpdate_case (hcast : IsCast cast) (table column key : List UInt8) (whens : List (ℕ × ℕ)) (k : ℕ)
    (ks : List ℕ) (rest : List Token) :
    readUpdate (caseTokens table column key cast whens k ks rest) =
      some (caseUpdate table column key whens (k :: ks), rest) := by
  have helse (tokens : List Token) : expect (keyword "when") (keyword "else" :: tokens) = none :=
    expect_of_ne (by decide) tokens
  have hhead (tokens : List Token) : (keyword "else" :: tokens).head? ≠ some (.symbol 58) := by
    intro heq
    cases heq
  have hwhens (tokens : List Token) : whens.length < (whenTokens cast whens ++ keyword "else" :: tokens).length := by
    have hlength := length_le_whenTokens cast whens
    rw [List.length_append, List.length_cons]
    omega
  have hks : ks.length < (.param k :: (cast ++ (listTokens cast ks ++ .symbol 41 :: rest))).length := by
    have hlength := length_le_listTokens cast ks
    simp only [List.length_append, List.length_cons]
    omega
  have hcondition : readCondition (.word key :: keyword "in" :: .symbol 40 :: .param k ::
      (cast ++ (listTokens cast ks ++ .symbol 41 :: rest))) =
      some (.isIn (.column key) ((k :: ks).map .param), rest) := by
    rw [readCondition, readOperand_word]
    simp only [Option.bind_eq_bind, Option.bind_some, keyword]
    rw [show Token.word (ascii "in") = keyword "in" from rfl, expect_self]
    simp only [Option.bind_some, expect_self, readOperands_tokens hcast k rest hks]
    rfl
  rw [caseTokens, readUpdate, expect_self]
  simp only [Option.bind_eq_bind, Option.bind_some, readOperand_word, expect_self, readValue,
    readWhens_tokens hcast (helse _) (hhead _) (hwhens _), hcondition, Option.pure_def]
  rfl

/-- One statement, with or without a semicolon. -/
theorem readUpdates_one {tokens rest : List Token} {statement : Update} (h : readUpdate tokens = some (statement, rest))
    (hrest : rest = [] ∨ rest = [.symbol 59]) : readUpdates tokens.length tokens = some [statement] := by
  cases tokens with
  | nil => cases h
  | cons token tokens =>
    have hread := readUpdates.eq_3 (token :: tokens) tokens.length (fun hnil => List.cons_ne_nil _ _ hnil)
    rw [h] at hread
    rw [List.length_cons, hread]
    rcases hrest with rfl | rfl
    · rfl
    · cases tokens.length <;> rfl

/-! ### Effects -/

/-- The value of a parameter. -/
def argument (params : List ℤ) (k : ℕ) : ℤ := params.getD (k - 1) 0

/-- The rows with the keys of the pairs are set to their numbers, and nothing else changes. -/
structure Assigns (table column key : List UInt8) (pairs : List (ℤ × ℤ)) (database database' : Database) : Prop where
  others : ∀ other, other ≠ table → database' other = database other
  rows : List.Forall₂ (fun row row' : Row => (∀ p ∈ pairs, row key = p.1 → row' = Function.update row column p.2) ∧
    (row key ∉ pairs.map Prod.fst → row' = row)) (database table) (database' table)

/-- With distinct keys, an assignment has one result. -/
theorem Assigns.unique {table column key : List UInt8} {pairs : List (ℤ × ℤ)} {database database₁ database₂ : Database}
    (h₁ : Assigns table column key pairs database database₁)
    (h₂ : Assigns table column key pairs database database₂) : database₁ = database₂ := by
  have hrows : ∀ {rows rows₁ rows₂ : List Row},
      List.Forall₂ (fun row row' : Row => (∀ p ∈ pairs, row key = p.1 → row' = Function.update row column p.2) ∧
        (row key ∉ pairs.map Prod.fst → row' = row)) rows rows₁ →
      List.Forall₂ (fun row row' : Row => (∀ p ∈ pairs, row key = p.1 → row' = Function.update row column p.2) ∧
        (row key ∉ pairs.map Prod.fst → row' = row)) rows rows₂ → rows₁ = rows₂ := by
    intro rows rows₁ rows₂ h₁ h₂
    induction h₁ generalizing rows₂ with
    | nil =>
      cases h₂
      rfl
    | @cons row row₁ rows rows₁ hrow hrest ih =>
      cases h₂ with
      | @cons _ row₂ _ rows₂ hrow₂ hrest₂ =>
        have heq : row₁ = row₂ := by
          by_cases hmem : row key ∈ pairs.map Prod.fst
          · obtain ⟨p, hp, hkey⟩ := List.mem_map.mp hmem
            rw [hrow.1 p hp hkey.symm, hrow₂.1 p hp hkey.symm]
          · rw [hrow.2 hmem, hrow₂.2 hmem]
        rw [heq, ih hrest₂]
  funext other
  by_cases hother : other = table
  · subst hother
    exact hrows h₁.rows h₂.rows
  · rw [h₁.others other hother, h₂.others other hother]

variable (params : List ℤ)

/-- Updates of one table change its rows one by one. -/
theorem foldl_run {table : List UInt8} {statements : List Update}
    (h : ∀ statement ∈ statements, statement.table = table) (database : Database) :
    statements.foldl (Update.run params) database = Function.update database table
      ((database table).map fun row => statements.foldl (fun row statement => statement.apply params row) row) := by
  induction statements generalizing database with
  | nil =>
    have hrows : (database table).map (fun row => row) = database table := List.map_id' _
    rw [List.foldl_nil, show (fun row : Row => List.foldl (fun row statement => Update.apply params statement row) row [])
      = fun row => row from rfl, hrows, Function.update_eq_self]
  | cons statement statements ih =>
    obtain rfl := h statement List.mem_cons_self
    rw [List.foldl_cons, ih (fun later hlater => h later (List.mem_cons_of_mem statement hlater)), Update.run,
      Function.update_self, Function.update_idem, List.map_map]
    rfl

theorem find?_alternative {row : Row} {key : List UInt8} {whens : List (ℕ × ℕ)} {when : ℕ × ℕ}
    (hnodup : (whens.map fun when => argument params when.1).Nodup) (hmem : when ∈ whens)
    (hkey : row key = argument params when.1) :
    (whens.map fun when : ℕ × ℕ => (Operand.param when.1, Operand.param when.2)).find? (fun alternative =>
      alternative.1.eval params row = (Operand.column key).eval params row) =
      some (.param when.1, .param when.2) := by
  induction whens with
  | nil => cases hmem
  | cons first whens ih =>
    rw [List.map_cons, List.nodup_cons] at hnodup
    rcases List.mem_cons.mp hmem with rfl | hrest
    · rw [List.map_cons, List.find?_cons_of_pos]
      exact decide_eq_true hkey.symm
    · have hne : ¬ argument params first.1 = row key := by
        intro heq
        exact hnodup.1 (List.mem_map.mpr ⟨when, hrest, hkey.symm.trans heq.symm⟩)
      rw [List.map_cons, List.find?_cons_of_neg]
      · exact ih hnodup.2 hrest
      · exact fun heq => hne (of_decide_eq_true heq)

/-- An update by a choice whose list has the same keys sets the rows with these keys. -/
theorem caseUpdate_assigns {table column key : List UInt8} {whens : List (ℕ × ℕ)} {ks : List ℕ}
    (hnodup : (whens.map fun when => argument params when.1).Nodup)
    (hkeys : ks.map (argument params) = whens.map fun when => argument params when.1) (database : Database) :
    Assigns table column key (whens.map fun when => (argument params when.1, argument params when.2)) database
      ((caseUpdate table column key whens ks).run params database) := by
  have hholds (row : Row) : (caseUpdate table column key whens ks).condition.holds params row = true ↔
      row key ∈ whens.map fun when => argument params when.1 := by
    rw [← hkeys, caseUpdate, Condition.holds, List.any_map, List.any_eq_true, List.mem_map]
    constructor
    · rintro ⟨k, hk, heq⟩
      exact ⟨k, hk, of_decide_eq_true heq⟩
    · rintro ⟨k, hk, heq⟩
      exact ⟨k, hk, decide_eq_true heq⟩
  constructor
  · intro other hother
    exact Function.update_of_ne hother _ _
  · rw [Update.run, show (caseUpdate table column key whens ks).table = table from rfl, Function.update_self,
      List.forall₂_map_right_iff, List.forall₂_same]
    intro row _
    constructor
    · intro p hp hkey
      obtain ⟨when, hwhen, rfl⟩ := List.mem_map.mp hp
      have hmem : row key ∈ whens.map fun when => argument params when.1 := List.mem_map.mpr ⟨when, hwhen, hkey.symm⟩
      rw [Update.apply, if_pos ((hholds row).mpr hmem)]
      simp only [caseUpdate, Value.eval, find?_alternative params hnodup hwhen hkey]
      rfl
    · intro hmem
      rw [Update.apply, if_neg]
      rw [hholds row]
      intro hin
      apply hmem
      rwa [List.map_map]

/-- The parameters of an update by a choice. -/
theorem params_caseTokens (hcast : IsCast cast) (table column key : List UInt8) (whens : List (ℕ × ℕ)) (k : ℕ)
    (ks : List ℕ) (rest : List Token) :
    (caseTokens table column key cast whens k ks rest).filterMap Token.param? =
      whens.flatMap (fun when => [when.1, when.2]) ++ k :: (ks ++ rest.filterMap Token.param?) := by
  have hnone : cast.filterMap Token.param? = [] := by
    cases hcast <;> rfl
  have hwhens : (whenTokens cast whens).filterMap Token.param? = whens.flatMap fun when => [when.1, when.2] := by
    induction whens with
    | nil => rfl
    | cons when whens ih =>
      unfold whenTokens at ih ⊢
      rw [List.flatMap_cons, List.filterMap_append, ih, List.flatMap_cons]
      simp [keyword, Token.param?, List.filterMap_cons, hnone]
  have hlist : (listTokens cast ks).filterMap Token.param? = ks := by
    induction ks with
    | nil => rfl
    | cons l ks ih =>
      unfold listTokens at ih ⊢
      rw [List.flatMap_cons, List.filterMap_append, ih]
      simp [Token.param?, List.filterMap_cons, hnone]
  unfold caseTokens
  simp [keyword, Token.param?, List.filterMap_cons, hnone, hwhens, hlist]

/-- A text with these tokens is executed as the update, where its parameters are the ones that are passed. -/
theorem execute_case (hcast : IsCast cast) {text table column key : List UInt8} {whens : List (ℕ × ℕ)} {k : ℕ}
    {ks : List ℕ} {rest : List Token} (htokens : tokens text = caseTokens table column key cast whens k ks rest)
    (hrest : rest = [] ∨ rest = [.symbol 59])
    (hparams : ∀ l, l ∈ paramNumbers text ↔ 1 ≤ l ∧ l ≤ params.length) (database : Database) :
    execute params text database = some ((caseUpdate table column key whens (k :: ks)).run params database) := by
  have hparse : parse text = some [caseUpdate table column key whens (k :: ks)] := by
    unfold parse
    rw [htokens]
    exact readUpdates_one (readUpdate_case hcast table column key whens k ks rest) hrest
  unfold execute
  rw [if_pos, hparse]
  · rfl
  · exact ⟨fun l hl => (hparams l).mp hl, fun l hl => (hparams (l + 1)).mpr ⟨Nat.succ_pos l, hl⟩⟩

/-! ### Parameters in pairs -/

/-- Each pair passes two parameters. -/
def pairParams (pairs : List (ℤ × ℤ)) : List ℤ := pairs.flatMap fun p => [p.1, p.2]

theorem length_pairParams (pairs : List (ℤ × ℤ)) : (pairParams pairs).length = 2 * pairs.length := by
  induction pairs with
  | nil => rfl
  | cons p pairs ih =>
    unfold pairParams at ih ⊢
    rw [List.flatMap_cons, List.length_append, ih, List.length_cons, List.length_cons, List.length_cons, List.length_nil]
    omega

theorem argument_pairParams (pairs : List (ℤ × ℤ)) (rest : List ℤ) :
    (List.range pairs.length).map (fun j =>
      (argument (pairParams pairs ++ rest) (2 * j + 1), argument (pairParams pairs ++ rest) (2 * j + 2))) = pairs := by
  induction pairs with
  | nil => rfl
  | cons p pairs ih =>
    have hshift (k : ℕ) : argument (pairParams (p :: pairs) ++ rest) (k + 3) = argument (pairParams pairs ++ rest) (k + 1) := rfl
    have hrest : ((fun j => (argument (pairParams (p :: pairs) ++ rest) (2 * j + 1),
        argument (pairParams (p :: pairs) ++ rest) (2 * j + 2))) ∘ Nat.succ) =
        fun j => (argument (pairParams pairs ++ rest) (2 * j + 1), argument (pairParams pairs ++ rest) (2 * j + 2)) := by
      funext j
      exact congrArg₂ Prod.mk (hshift (2 * j)) (hshift (2 * j + 1))
    rw [List.length_cons, List.range_succ_eq_map, List.map_cons, List.map_map, hrest, ih]
    rfl

end FrameworkBenchmarks.Common.Sql
