import FrameworkBenchmarks.Common.Bytes
import FrameworkBenchmarks.Common.CodedOrder
import FrameworkBenchmarks.H2o.SortList

/-!
# The fortunes of the h2o server

The rows of the query are escaped and pushed in front of the additional fortune, the list is sorted by
the escaped messages, and the template writes one table row for each node. The template library and
`h2o_htmlescape` are parameters. The nodes are numbered as they are allocated, and the memory of the
list is a part of the context.
-/

namespace FrameworkBenchmarks.H2o

open FrameworkBenchmarks.Common

/-- A row of the fortunes query. The handler asserts that its id starts with a digit. -/
structure FortuneRow where
  id : List UInt8
  message : List UInt8
  digit : ∃ c ∈ id.head?, isDigit c = true

/-- A node of the list. -/
structure Fortune where
  id : List UInt8
  message : List UInt8

def NEW_FORTUNE_ID : List UInt8 := ascii "0"

def NEW_FORTUNE_MESSAGE : List UInt8 := ascii "Additional fortune added at request time."

/-- `fortune_ctx_t`, without the fields that are for the request. -/
structure FortuneCtx where
  buffer : List UInt8
  fortuneIter : Option ℕ
  result : Option ℕ
  numResult : ℕ
  next : ℕ → Option ℕ
  fortune : ℕ → Fortune

/-- The fields whose offsets the variables of the template hold. -/
inductive FortuneField
  | id
  | message

/-- A compiled template, as the list of its tokens. -/
inductive Template
  | done
  | text (text : List UInt8) (next : Template)
  | field (userdata : FortuneField) (next : Template)
  | repeated (body next : Template)

def addIovec (buffer : List UInt8) (ctx : FortuneCtx) : Option FortuneCtx :=
  some { ctx with buffer := ctx.buffer ++ buffer }

def onFortuneVariable (userdata : FortuneField) (ctx : FortuneCtx) : Option FortuneCtx := do
  let iter ← ctx.fortuneIter
  match userdata with
  | .id => addIovec (ctx.fortune iter).id ctx
  | .message => addIovec (ctx.fortune iter).message ctx

/-- The `do` loop of `on_fortune_section`. -/
def sectionLoop (render : FortuneCtx → Option FortuneCtx) : ℕ → ℕ → FortuneCtx → Option FortuneCtx
  | 0, _, _ => none
  | fuel + 1, iter, ctx => do
    let ctx ← render { ctx with fortuneIter := some iter }
    match ctx.next iter with
    | none => return ctx
    | some iter => sectionLoop render fuel iter ctx

def onFortuneSection (render : FortuneCtx → Option FortuneCtx) (ctx : FortuneCtx) :
    Option FortuneCtx :=
  if ctx.numResult = 0 then some ctx
  else ctx.result.bind fun iter => sectionLoop render ctx.numResult iter ctx

/-- `mustache_render` with the callbacks of the handler goes through the tokens in order. -/
structure RendersTokens (mustacheRender : Template → FortuneCtx → Option FortuneCtx) : Prop where
  done : ∀ ctx, mustacheRender .done ctx = some ctx
  text : ∀ s next ctx, mustacheRender (.text s next) ctx = (addIovec s ctx).bind (mustacheRender next)
  field : ∀ userdata next ctx, mustacheRender (.field userdata next) ctx =
    (onFortuneVariable userdata ctx).bind (mustacheRender next)
  repeated : ∀ body next ctx, mustacheRender (.repeated body next) ctx =
    (onFortuneSection (mustacheRender body) ctx).bind (mustacheRender next)

def templateHead : List UInt8 := ascii ("<!DOCTYPE html>\n<html>\n<head><title>Fortunes</title></head>\n" ++
  "<body>\n<table>\n<tr><th>id</th><th>message</th></tr>\n")

def templateFoot : List UInt8 := ascii "\n</table>\n</body>\n</html>\n"

/-- What the template repeats for each fortune. -/
def rowTemplate : Template :=
  .text (ascii "<tr><td>") <| .field .id <| .text (ascii "</td><td>") <| .field .message <|
    .text (ascii "</td></tr>") .done

/-- `fortunes.mustache` -/
def fortunesTemplate : Template :=
  .text templateHead <| .repeated rowTemplate <| .text templateFoot .done

/-- `memcmp`, of two areas of the same length. -/
def memcmp : List UInt8 → List UInt8 → ℤ
  | a :: s, b :: t => if a = b then memcmp s t else (a.toNat : ℤ) - b.toNat
  | _, _ => 0

def compareFortunes (fortune : ℕ → Fortune) (x y : ℕ) : ℤ :=
  let f1 := (fortune x).message
  let f2 := (fortune y).message
  let sz := min f1.length f2.length
  let ret := memcmp (f1.take sz) (f2.take sz)
  if ret = 0 then if f1.length < f2.length then -1 else if f2.length < f1.length then 1 else 0 else ret

/-- The context that `fortunes` makes for a request. -/
def fortunes : FortuneCtx where
  buffer := []
  fortuneIter := none
  result := some 0
  numResult := 1
  next := fun _ => none
  fortune := fun _ => ⟨NEW_FORTUNE_ID, NEW_FORTUNE_MESSAGE⟩

/-- One turn of the loop over the rows in `on_fortune_result`. -/
def pushRow (htmlescape : List UInt8 → List UInt8) (ctx : FortuneCtx) (row : FortuneRow) : FortuneCtx :=
  { ctx with
    fortune := Function.update ctx.fortune ctx.numResult ⟨row.id, htmlescape row.message⟩
    next := Function.update ctx.next ctx.numResult ctx.result
    result := some ctx.numResult
    numResult := ctx.numResult + 1 }

inductive FortuneOutcome
  | cleanedUp
  | badGateway
  | internalServerError
  | sent (ctx : FortuneCtx)
  | stuck

/-- `on_fortune_result`: whether the request is gone, whether the query succeeded, and its rows. -/
def onFortuneResult (mustacheRender : Template → FortuneCtx → Option FortuneCtx)
    (htmlescape : List UInt8 → List UInt8) (cleanup tuplesOk : Bool) (rows : List FortuneRow)
    (ctx : FortuneCtx) : FortuneOutcome :=
  if cleanup then .cleanedUp
  else if tuplesOk then
    let ctx := rows.foldl (pushRow htmlescape) ctx
    match sortList (compareFortunes ctx.fortune) (ctx.numResult + 1) ctx.result ctx.next with
    | none => .stuck
    | some (result, next) =>
      match mustacheRender fortunesTemplate { ctx with buffer := [], result := result, next := next } with
      | none => .internalServerError
      | some ctx => .sent ctx
  else .badGateway


/-! ### What is rendered -/

/-- The character reference for a byte, or the byte itself. -/
def entity (c : UInt8) : List UInt8 :=
  if c = 34 then ascii "&quot;" else if c = 38 then ascii "&amp;" else if c = 39 then ascii "&#39;"
  else if c = 60 then ascii "&lt;" else if c = 62 then ascii "&gt;" else [c]

/-- The fortune of a node: the additional one, or a row of the query. -/
def stored (rows : List FortuneRow) : ℕ → Fortune
  | 0 => ⟨NEW_FORTUNE_ID, NEW_FORTUNE_MESSAGE⟩
  | n + 1 => (rows[n]?).elim ⟨[], []⟩ fun row => ⟨row.id, row.message⟩

def escaped (fortune : Fortune) : Fortune := ⟨fortune.id, fortune.message.flatMap entity⟩

def tableRow (fortune : Fortune) : List UInt8 :=
  ascii "<tr><td>" ++ fortune.id ++ ascii "</td><td>" ++ fortune.message ++ ascii "</td></tr>"

/-- The page with a table row for each of the fortunes. -/
def page (fortunes : List Fortune) : List UInt8 :=
  templateHead ++ fortunes.flatMap tableRow ++ templateFoot

/-- The nodes of the list are all the fortunes, and the page shows them in its order, escaped. -/
structure Rendered (rows : List FortuneRow) (ctx : FortuneCtx) (nodes : List ℕ) : Prop where
  chain : Chain ctx.next ctx.result nodes
  perm : nodes.Perm (List.range (rows.length + 1))
  page : ctx.buffer = page (nodes.map fun node => escaped (stored rows node))

def InMessageOrder (rows : List FortuneRow) (nodes : List ℕ) : Prop :=
  nodes.Pairwise fun x y => (stored rows x).message ≤ (stored rows y).message

/-- A byte and a greater one whose escaped forms stand in the other order. -/
def Inverts (c d : UInt8) : Prop :=
  (c = 34 ∧ (35 ≤ d ∧ d ≤ 39 ∨ d = 60 ∨ d = 62)) ∨ (c = 38 ∧ d = 39) ∨
    (40 ≤ c ∧ c < d ∧ (d = 60 ∨ d = 62))

/-- The first bytes in which two messages differ are inverted by escaping. -/
def Inverted (x y : List UInt8) : Prop :=
  ∃ shared c d x' y', x = shared ++ c :: x' ∧ y = shared ++ d :: y' ∧ Inverts c d

def messages (rows : List FortuneRow) : List (List UInt8) :=
  NEW_FORTUNE_MESSAGE :: rows.map FortuneRow.message

/-! ### Comparison -/

theorem memcmp_take {x y : List UInt8} :
    memcmp (x.take (min x.length y.length)) (y.take (min x.length y.length)) = memcmp x y := by
  induction x generalizing y with
  | nil => rfl
  | cons a x ih =>
    cases y with
    | nil => rfl
    | cons b y => simp [memcmp, ih]

/-- The comparison of two messages is their byte order. -/
theorem compareFortunes_le_iff (fortune : ℕ → Fortune) (x y : ℕ) :
    compareFortunes fortune x y ≤ 0 ↔ (fortune x).message ≤ (fortune y).message := by
  unfold compareFortunes
  simp only [memcmp_take]
  generalize (fortune x).message = s
  generalize (fortune y).message = t
  induction s generalizing t with
  | nil => cases t <;> simp [memcmp]
  | cons a s ih =>
    cases t with
    | nil => simp [memcmp]
    | cons b t =>
      rw [List.cons_le_cons_iff]
      by_cases hab : a = b
      · subst hab
        simp [memcmp, ← ih]
      · have hne : (a.toNat : ℤ) - b.toNat ≠ 0 := fun h => hab (UInt8.toNat_inj.mp (by omega))
        rw [memcmp, if_neg hab, if_neg hne, UInt8.lt_iff_toNat_lt]
        simp only [hab, false_and, or_false]
        omega

theorem totalPreorder_compareFortunes (fortune : ℕ → Fortune) :
    TotalPreorder (notAfter (compareFortunes fortune)) := by
  constructor
  · intro a b c hab hbc
    simp only [notAfter, decide_eq_true_eq, compareFortunes_le_iff] at hab hbc ⊢
    exact List.le_trans hab hbc
  · intro a b
    simp only [notAfter, decide_eq_true_eq, compareFortunes_le_iff]
    exact List.le_total _ _

/-- The sorted list is in the order of the messages of its nodes. -/
theorem sortList_fortunes (fortune : ℕ → Fortune) {next : ℕ → Option ℕ} {head : Option ℕ} {l : List ℕ}
    (h : Chain next head l) {fuel : ℕ} (hfuel : l.length < fuel) :
    ∃ head' next' nodes, sortList (compareFortunes fortune) fuel head next = some (head', next') ∧
      Chain next' head' nodes ∧ nodes.Perm l ∧
      nodes.Pairwise fun x y => (fortune x).message ≤ (fortune y).message := by
  have hcompare := totalPreorder_compareFortunes fortune
  obtain ⟨head', next', nodes, heq, hchain, hperm, hsorted, -, -⟩ :=
    sortLoop_spec _ hcompare h hfuel ((descents_le_length l).trans_lt hfuel)
  refine ⟨head', next', nodes, heq, hchain, hperm, ?_⟩
  apply (pairwise_of_isChain hcompare hsorted).imp
  intro x y hle
  rwa [notAfter, decide_eq_true_eq, compareFortunes_le_iff] at hle

/-! ### Escaping -/

/-- The bytes that are escaped. -/
def special : List UInt8 := [34, 38, 39, 60, 62]

theorem entity_of_not_mem {c : UInt8} (h : c ∉ special) : entity c = [c] := by
  unfold entity
  simp only [special, List.mem_cons, List.not_mem_nil, or_false, not_or] at h
  rw [if_neg h.1, if_neg h.2.1, if_neg h.2.2.1, if_neg h.2.2.2.1, if_neg h.2.2.2.2]

theorem entity_of_mem {c : UInt8} (h : c ∈ special) : ∃ d word, entity c = 38 :: d :: word := by
  simp only [special, List.mem_cons, List.not_mem_nil, or_false] at h
  rcases h with rfl | rfl | rfl | rfl | rfl <;> exact ⟨_, _, rfl⟩

theorem entity_ne_nil (c : UInt8) : entity c ≠ [] := by
  by_cases hc : c ∈ special
  · obtain ⟨d, word, hword⟩ := entity_of_mem hc
    rw [hword]
    exact List.cons_ne_nil _ _
  · rw [entity_of_not_mem hc]
    exact List.cons_ne_nil _ _

theorem special_prefixFree : ∀ c ∈ special, ∀ d ∈ special, entity c <+: entity d → c = d := by
  decide +kernel

theorem prefixFree_entity : PrefixFree entity := by
  intro c d h
  by_cases hc : c ∈ special
  · by_cases hd : d ∈ special
    · exact special_prefixFree c hc d hd h
    · obtain ⟨e, word, hword⟩ := entity_of_mem hc
      rw [hword, entity_of_not_mem hd] at h
      exact absurd h.length_le (by simp)
  · rw [entity_of_not_mem hc] at h
    by_cases hd : d ∈ special
    · obtain ⟨e, word, hword⟩ := entity_of_mem hd
      rw [hword, List.cons_prefix_cons] at h
      exact absurd (h.1 ▸ by decide) hc
    · rw [entity_of_not_mem hd, List.cons_prefix_cons] at h
      exact h.1

instance (c d : UInt8) : Decidable (Inverts c d) := inferInstanceAs (Decidable (_ ∨ _))

theorem special_inverts_iff :
    ∀ c ∈ special, ∀ d ∈ special, Inverts c d ↔ c < d ∧ entity d < entity c := by
  decide +kernel

theorem inverts_iff (c d : UInt8) : Inverts c d ↔ c < d ∧ entity d < entity c := by
  by_cases hc : c ∈ special
  · by_cases hd : d ∈ special
    · exact special_inverts_iff c hc d hd
    · obtain ⟨e, word, hword⟩ := entity_of_mem hc
      rw [hword, entity_of_not_mem hd, List.cons_lt_cons_iff]
      unfold Inverts
      unfold special at hc hd
      grind
  · rw [entity_of_not_mem hc]
    by_cases hd : d ∈ special
    · obtain ⟨e, word, hword⟩ := entity_of_mem hd
      rw [hword, List.cons_lt_cons_iff]
      unfold Inverts
      unfold special at hc hd
      have hnil : ¬e :: word < [] := List.not_lt_nil _
      grind
    · rw [entity_of_not_mem hd, List.cons_lt_cons_iff]
      unfold Inverts
      unfold special at hc hd
      grind

theorem inverted_iff (x y : List UInt8) : Inverted x y ↔ Inversion entity x y := by
  simp only [Inverted, Inversion, inverts_iff]

/-! ### The list -/

/-- After the loop over some rows, the list is the fortunes in the reverse order of their nodes. -/
structure Pushed (rows : List FortuneRow) (ctx : FortuneCtx) : Prop where
  numResult : ctx.numResult = rows.length + 1
  chain : Chain ctx.next ctx.result (List.range (rows.length + 1)).reverse
  fortune : ∀ node ≤ rows.length, ctx.fortune node = escaped (stored rows node)

theorem pushed_fortunes : Pushed [] fortunes := by
  refine ⟨rfl, ⟨rfl, rfl⟩, fun node hnode => ?_⟩
  obtain rfl := Nat.le_zero.mp hnode
  rfl

theorem stored_concat {rows : List FortuneRow} {node : ℕ} (hnode : node ≤ rows.length)
    (row : FortuneRow) : stored (rows ++ [row]) node = stored rows node := by
  cases node with
  | zero => rfl
  | succ n => rw [stored, stored, List.getElem?_append_left hnode]

theorem pushRow_next (htmlescape : List UInt8 → List UInt8) (ctx : FortuneCtx) (row : FortuneRow) :
    (pushRow htmlescape ctx row).next = Function.update ctx.next ctx.numResult ctx.result := rfl

theorem pushRow_fortune (htmlescape : List UInt8 → List UInt8) (ctx : FortuneCtx) (row : FortuneRow) :
    (pushRow htmlescape ctx row).fortune =
      Function.update ctx.fortune ctx.numResult ⟨row.id, htmlescape row.message⟩ := rfl

theorem Pushed.push {htmlescape : List UInt8 → List UInt8}
    (hescape : ∀ s, htmlescape s = s.flatMap entity) {rows : List FortuneRow} {ctx : FortuneCtx}
    (h : Pushed rows ctx) (row : FortuneRow) : Pushed (rows ++ [row]) (pushRow htmlescape ctx row) := by
  constructor
  · rw [List.length_append, List.length_singleton, ← h.numResult]
    rfl
  · have hfresh : ctx.numResult ∉ (List.range (rows.length + 1)).reverse := by
      simp [h.numResult]
    have hrest := h.chain.update hfresh ctx.result
    rw [List.length_append, List.length_singleton, List.range_succ, List.reverse_concat, chain_cons,
      pushRow_next, ← h.numResult, Function.update_self]
    rw [← h.numResult] at hrest
    exact ⟨rfl, hrest⟩
  · intro node hnode
    rw [List.length_append, List.length_singleton] at hnode
    rw [pushRow_fortune, h.numResult]
    by_cases hlast : node = rows.length + 1
    · rw [hlast, Function.update_self, hescape, stored, List.getElem?_concat_length]
      rfl
    · rw [Function.update_of_ne hlast, stored_concat (by omega)]
      exact h.fortune node (by omega)

theorem pushed_foldl {htmlescape : List UInt8 → List UInt8}
    (hescape : ∀ s, htmlescape s = s.flatMap entity) (rows : List FortuneRow) :
    Pushed rows (rows.foldl (pushRow htmlescape) fortunes) := by
  induction rows using List.reverseRecOn with
  | nil => exact pushed_fortunes
  | append_singleton rows row ih =>
    rw [List.foldl_concat]
    exact ih.push hescape row

/-! ### Rendering -/

section Rendering

variable {mustacheRender : Template → FortuneCtx → Option FortuneCtx}

theorem RendersTokens.row (h : RendersTokens mustacheRender) (ctx : FortuneCtx) (node : ℕ) :
    mustacheRender rowTemplate { ctx with fortuneIter := some node } =
      some { ctx with fortuneIter := some node, buffer := ctx.buffer ++ tableRow (ctx.fortune node) } := by
  simp [rowTemplate, h.text, h.field, h.done, addIovec, onFortuneVariable, tableRow]

/-- The section writes a table row for each node of the list. -/
theorem RendersTokens.sectionLoop (h : RendersTokens mustacheRender) {nodes : List ℕ}
    (ctx : FortuneCtx) {iter fuel : ℕ} (hchain : Chain ctx.next (some iter) nodes) (hfuel : nodes.length ≤ fuel) :
    ∃ last, H2o.sectionLoop (mustacheRender rowTemplate) fuel iter ctx =
      some { ctx with
        fortuneIter := last
        buffer := ctx.buffer ++ nodes.flatMap fun node => tableRow (ctx.fortune node) } := by
  induction nodes generalizing ctx iter fuel with
  | nil => exact absurd hchain (by simp)
  | cons node nodes ih =>
    obtain ⟨fuel, rfl⟩ := Nat.exists_eq_succ_of_ne_zero (n := fuel) (by simp at hfuel; omega)
    obtain ⟨hstart, hrest⟩ := hchain
    obtain rfl : iter = node := Option.some.inj hstart
    rw [H2o.sectionLoop, h.row, Option.bind_eq_bind, Option.bind_some]
    cases hnext : ctx.next iter with
    | none =>
      obtain rfl : nodes = [] := hrest.eq_nil_iff.mpr hnext
      exact ⟨some iter, by simp⟩
    | some next =>
      rw [hnext] at hrest
      obtain ⟨last, hlast⟩ := ih { ctx with
        fortuneIter := some iter
        buffer := ctx.buffer ++ tableRow (ctx.fortune iter) } hrest (Nat.le_of_succ_le_succ hfuel)
      refine ⟨last, ?_⟩
      simp only [hlast, List.flatMap_cons, List.append_assoc]

/-- The template writes the page of the fortunes of the list. -/
theorem RendersTokens.page (h : RendersTokens mustacheRender) {nodes : List ℕ} (ctx : FortuneCtx)
    (hchain : Chain ctx.next ctx.result nodes) (hnum : ctx.numResult = nodes.length)
    (hne : nodes ≠ []) (hbuffer : ctx.buffer = []) :
    ∃ last, mustacheRender fortunesTemplate ctx =
      some { ctx with fortuneIter := last, buffer := H2o.page (nodes.map ctx.fortune) } := by
  obtain ⟨iter, hiter⟩ : ∃ iter, ctx.result = some iter := by
    rw [← Option.isSome_iff_exists, Option.isSome_iff_ne_none]
    exact fun hnone => hne (hchain.eq_nil_iff.mpr hnone)
  rw [hiter] at hchain
  obtain ⟨last, hlast⟩ := h.sectionLoop { ctx with buffer := templateHead } hchain hnum.ge
  refine ⟨last, ?_⟩
  have hpos : ctx.numResult ≠ 0 := by simpa [hnum] using hne
  simp only [hiter] at hlast
  simp only [fortunesTemplate, h.text, h.repeated, h.done, addIovec, onFortuneSection, hbuffer,
    List.nil_append, Option.bind_some, if_neg hpos, hiter, hlast, H2o.page, List.flatMap_map]

end Rendering

/-! ### The order of the page -/

section Order

variable {mustacheRender : Template → FortuneCtx → Option FortuneCtx}
  {htmlescape : List UInt8 → List UInt8}

theorem mem_messages_iff {rows : List FortuneRow} {x : List UInt8} :
    x ∈ messages rows ↔ ∃ node ≤ rows.length, (stored rows node).message = x := by
  constructor
  · intro h
    rcases List.mem_cons.mp h with rfl | h
    · exact ⟨0, Nat.zero_le _, rfl⟩
    · obtain ⟨row, hrow, rfl⟩ := List.mem_map.mp h
      obtain ⟨n, hn, rfl⟩ := List.getElem_of_mem hrow
      exact ⟨n + 1, hn, by rw [stored, List.getElem?_eq_getElem hn]; rfl⟩
  · rintro ⟨node, hnode, rfl⟩
    cases node with
    | zero => exact List.mem_cons_self
    | succ n =>
      rw [stored, List.getElem?_eq_getElem hnode]
      exact List.mem_cons_of_mem _ (List.mem_map_of_mem (List.getElem_mem hnode))

/-- The handler sends a page with every fortune once, in the order of the escaped messages. -/
theorem onFortuneResult_spec (hrender : RendersTokens mustacheRender)
    (hescape : ∀ s, htmlescape s = s.flatMap entity) (rows : List FortuneRow) :
    ∃ ctx nodes, onFortuneResult mustacheRender htmlescape false true rows fortunes = .sent ctx ∧
      Rendered rows ctx nodes ∧ nodes.Pairwise fun x y =>
        (escaped (stored rows x)).message ≤ (escaped (stored rows y)).message := by
  have hpushed := pushed_foldl hescape rows
  generalize hctx : rows.foldl (pushRow htmlescape) fortunes = ctx at hpushed
  have hlength : (List.range (rows.length + 1)).reverse.length < ctx.numResult + 1 := by
    simp [hpushed.numResult]
  obtain ⟨head, next, nodes, hsort, hchain, hperm, hsorted⟩ :=
    sortList_fortunes ctx.fortune hpushed.chain hlength
  have hrange : nodes.Perm (List.range (rows.length + 1)) := hperm.trans (List.reverse_perm _)
  have hfortune : ∀ node ∈ nodes, ctx.fortune node = escaped (stored rows node) := fun node hnode =>
    hpushed.fortune node (Nat.le_of_lt_succ (List.mem_range.mp (hrange.mem_iff.mp hnode)))
  have hne : nodes ≠ [] := by
    rintro rfl
    simp at hrange
  obtain ⟨last, hlast⟩ :=
    hrender.page { ctx with buffer := [], result := head, next := next } hchain
      (by simp [hpushed.numResult, hrange.length_eq]) hne rfl
  have hsent : onFortuneResult mustacheRender htmlescape false true rows fortunes = .sent { ctx with
      buffer := page (nodes.map ctx.fortune), fortuneIter := last, result := head, next := next } := by
    rw [onFortuneResult, if_neg Bool.false_ne_true, if_pos rfl, hctx]
    simp only [hsort, hlast]
  refine ⟨_, nodes, hsent, Rendered.mk hchain hrange ?_, ?_⟩
  · exact congrArg page (List.map_congr_left hfortune)
  · refine hsorted.imp_of_mem fun {x y} hx hy hle => ?_
    rwa [hfortune x hx, hfortune y hy] at hle

/-- Nodes in the order of their escaped messages are in message order unless two messages are
inverted. -/
theorem inMessageOrder_iff {rows : List FortuneRow} {nodes : List ℕ}
    (hperm : nodes.Perm (List.range (rows.length + 1)))
    (hsorted : nodes.Pairwise fun x y =>
      (escaped (stored rows x)).message ≤ (escaped (stored rows y)).message) :
    InMessageOrder rows nodes ↔ ∀ x ∈ messages rows, ∀ y ∈ messages rows, ¬Inverted x y := by
  have hmem : ∀ node, node ∈ nodes ↔ node ≤ rows.length := by
    intro node
    rw [hperm.mem_iff, List.mem_range, Nat.lt_succ_iff]
  constructor
  · intro horder x hx y hy hinverted
    obtain ⟨m, hm, rfl⟩ := mem_messages_iff.mp hx
    obtain ⟨n, hn, rfl⟩ := mem_messages_iff.mp hy
    rw [inverted_iff] at hinverted
    have hmessages := hinverted.lt
    have hescaped := hinverted.flatMap_lt prefixFree_entity
    -- whichever of the two nodes comes first, one of the two orders is violated
    let Swapped (x y : ℕ) : Prop := (stored rows x).message < (stored rows y).message ∧
      (escaped (stored rows y)).message < (escaped (stored rows x)).message
    have hsymm : Std.Symm fun x y => ¬Swapped x y ∧ ¬Swapped y x := ⟨fun _ _ h => h.symm⟩
    have hpairs : nodes.Pairwise fun x y => ¬Swapped x y ∧ ¬Swapped y x :=
      (horder.and hsorted).imp fun h => ⟨fun hswapped => h.2 hswapped.2, fun hswapped => h.1 hswapped.1⟩
    have hself : ∀ x ∈ nodes, ¬Swapped x x ∧ ¬Swapped x x := fun x _ =>
      ⟨fun h => List.lt_irrefl _ h.1, fun h => List.lt_irrefl _ h.1⟩
    exact (hpairs.forall_of_forall hself ((hmem m).mpr hm) ((hmem n).mpr hn)).1 ⟨hmessages, hescaped⟩
  · intro hnone
    refine hsorted.imp_of_mem fun {x y} hx hy hle hlt => ?_
    obtain h | h := flatMap_lt_or_inversion prefixFree_entity entity_ne_nil hlt
    · exact hle h
    · refine hnone _ (mem_messages_iff.mpr ⟨y, (hmem y).mp hy, rfl⟩) _
        (mem_messages_iff.mpr ⟨x, (hmem x).mp hx, rfl⟩) ((inverted_iff _ _).mpr h)

theorem inOrder_iff (hrender : RendersTokens mustacheRender)
    (hescape : ∀ s, htmlescape s = s.flatMap entity) (rows : List FortuneRow) :
    (∃ ctx nodes, onFortuneResult mustacheRender htmlescape false true rows fortunes = .sent ctx ∧
        Rendered rows ctx nodes ∧ InMessageOrder rows nodes) ↔
      ∀ x ∈ messages rows, ∀ y ∈ messages rows, ¬Inverted x y := by
  obtain ⟨ctx, nodes, hsent, hrendered, hsorted⟩ := onFortuneResult_spec hrender hescape rows
  rw [← inMessageOrder_iff hrendered.perm hsorted]
  constructor
  · rintro ⟨ctx', nodes', hsent', hrendered', horder⟩
    obtain rfl : ctx = ctx' := FortuneOutcome.sent.inj (hsent.symm.trans hsent')
    rwa [hrendered.chain.unique hrendered'.chain]
  · intro horder
    exact ⟨ctx, nodes, hsent, hrendered, horder⟩

/-- Every row and the additional fortune are rendered once, escaped, and they are in the order of the
stored messages exactly where escaping inverts no two of these. -/
theorem fortunes_in_order_iff (hrender : RendersTokens mustacheRender)
    (hescape : ∀ s, htmlescape s = s.flatMap entity) (rows : List FortuneRow) :
    (∃ ctx nodes, onFortuneResult mustacheRender htmlescape false true rows fortunes = .sent ctx ∧
      Rendered rows ctx nodes) ∧
    ((∃ ctx nodes, onFortuneResult mustacheRender htmlescape false true rows fortunes = .sent ctx ∧
        Rendered rows ctx nodes ∧ InMessageOrder rows nodes) ↔
      ∀ x ∈ messages rows, ∀ y ∈ messages rows, ¬Inverted x y) := by
  obtain ⟨ctx, nodes, hsent, hrendered, -⟩ := onFortuneResult_spec hrender hescape rows
  exact ⟨⟨ctx, nodes, hsent, hrendered⟩, inOrder_iff hrender hescape rows⟩

end Order

/-- The tokens of a template, one after the other. -/
def renderTokens : Template → FortuneCtx → Option FortuneCtx
  | .done, ctx => some ctx
  | .text s next, ctx => (addIovec s ctx).bind (renderTokens next)
  | .field userdata next, ctx => (onFortuneVariable userdata ctx).bind (renderTokens next)
  | .repeated body next, ctx => (onFortuneSection (renderTokens body) ctx).bind (renderTokens next)

theorem rendersTokens : RendersTokens renderTokens where
  done _ := rfl
  text _ _ _ := rfl
  field _ _ _ := rfl
  repeated _ _ _ := rfl

def rowOf (message : String) : FortuneRow := ⟨ascii "1", ascii message, 49, rfl, rfl⟩

theorem fortunes_in_order_plain :
    (∃ ctx nodes, onFortuneResult renderTokens (·.flatMap entity) false true [rowOf "a < b", rowOf "a"]
      fortunes = .sent ctx ∧ Rendered [rowOf "a < b", rowOf "a"] ctx nodes) ∧
    ((∃ ctx nodes, onFortuneResult renderTokens (·.flatMap entity) false true
        [rowOf "a < b", rowOf "a"] fortunes = .sent ctx ∧
        Rendered [rowOf "a < b", rowOf "a"] ctx nodes ∧
        InMessageOrder [rowOf "a < b", rowOf "a"] nodes) ↔
      ∀ x ∈ messages [rowOf "a < b", rowOf "a"], ∀ y ∈ messages [rowOf "a < b", rowOf "a"],
        ¬Inverted x y) :=
  fortunes_in_order_iff rendersTokens (fun _ => rfl) _

/-- A message that starts with `<` is shown before one that starts with a digit. -/
theorem fortunes_out_of_order :
    ¬∃ ctx nodes, onFortuneResult renderTokens (·.flatMap entity) false true [rowOf "5", rowOf "<"]
        fortunes = .sent ctx ∧ Rendered [rowOf "5", rowOf "<"] ctx nodes ∧
      InMessageOrder [rowOf "5", rowOf "<"] nodes := by
  rw [inOrder_iff rendersTokens fun _ => rfl]
  intro h
  exact h (ascii "5") (.tail _ (.head _)) (ascii "<") (.tail _ (.tail _ (.head _)))
    ⟨[], 53, 60, [], [], rfl, rfl, Or.inr (Or.inr (by decide))⟩

end FrameworkBenchmarks.H2o
