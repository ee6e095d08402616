import FrameworkBenchmarks.TitanPl.Expression
import FrameworkBenchmarks.TitanPl.RouteReading

/-!
# When the static value is the one the action has

`eval_static` takes a variable for the value of the declarator that first binds it. It is right
wherever the variables it goes through are bound by name, once, by an initialiser all of whose own
variables have been bound before, no value that is `undefined` gets anywhere but into an array, and
no member sets a prototype.
-/

namespace FrameworkBenchmarks.TitanPl.FastPath

variable {c : Coercions} {parsed : JsString → String} {semantic : Semantic}
  {run : List Declarator} {env : Bindings}

/-! ### The condition -/

/-- The expression is the value of a variable that was declared without a value. -/
inductive Unset (semantic : Semantic) : Expression → Prop
  | missing {symbol : ℕ} {d : Declarator} (hdecl : semantic.symbolDeclaration symbol = some d)
      (hinit : d.init = .missing) : Unset semantic (.identifier symbol)
  | through {symbol : ℕ} {d : Declarator} {init : Expression}
      (hdecl : semantic.symbolDeclaration symbol = some d) (hinit : d.init = .expression init)
      (h : Unset semantic init) : Unset semantic (.identifier symbol)
  | paren {e : Expression} (h : Unset semantic e) : Unset semantic (.paren e)

/-- `Reads semantic e' e`: evaluating `e` goes through `e'`, which is a part of `e` or of the
initialiser of a variable. -/
inductive Reads (semantic : Semantic) (e' : Expression) : Expression → Prop
  | refl : Reads semantic e' e'
  | member {members : List (Key × Expression)} {m : Key × Expression} (hm : m ∈ members)
      (h : Reads semantic e' m.2) : Reads semantic e' (.object members)
  | item {items : List (Option Expression)} {e : Expression} (hitem : some e ∈ items)
      (h : Reads semantic e' e) : Reads semantic e' (.array items)
  | part {head : JsString} {parts : List (Expression × JsString)} {p : Expression × JsString}
      (hp : p ∈ parts) (h : Reads semantic e' p.1) : Reads semantic e' (.template head parts)
  | left {l r : Expression} (h : Reads semantic e' l) : Reads semantic e' (.add l r)
  | right {l r : Expression} (h : Reads semantic e' r) : Reads semantic e' (.add l r)
  | negate {e : Expression} (h : Reads semantic e' e) : Reads semantic e' (.negate e)
  | paren {e : Expression} (h : Reads semantic e' e) : Reads semantic e' (.paren e)
  | through {symbol : ℕ} {d : Declarator} {init : Expression}
      (hdecl : semantic.symbolDeclaration symbol = some d) (hinit : d.init = .expression init)
      (h : Reads semantic e' init) : Reads semantic e' (.identifier symbol)

/-- A string without halves of surrogate pairs. -/
def WellFormed (s : JsString) : Prop := ∃ text : String, s = jsString text

def Key.WellFormed : Key → Prop
  | .string s _ => FastPath.WellFormed s
  | _ => True

/-- A declarator that binds its symbol for good. -/
structure Binds (semantic : Semantic) (run : List Declarator) (symbol : ℕ) (d : Declarator) :
    Prop where
  declaration : semantic.symbolDeclaration symbol = some d
  /-- it is no destructuring pattern -/
  simple : d.target = .name symbol
  /-- it is no head of a loop over items -/
  noLoop : ∀ item, d.init ≠ .loopItem item
  /-- the symbol is declared again only without an initialiser -/
  once : ∀ d' ∈ semantic.declarators, symbol ∈ d'.target.symbols →
    d' = d ∨ d'.isVar = true ∧ d'.init = .missing
  ran : d ∈ run
  /-- what its initialiser reads has been declared whenever it runs -/
  ordered : ∀ before after init, run = before ++ d :: after → d.init = .expression init →
    ∀ s, Reads semantic (.identifier s) init →
      ∃ d', semantic.symbolDeclaration s = some d' ∧ d' ∈ before

/-- What an expression needs of its own parts. -/
def Fine (semantic : Semantic) (run : List Declarator) : Expression → Prop
  | .string s => WellFormed s
  | .identifier symbol => ∃ d, Binds semantic run symbol d
  | .object members => ∀ m ∈ members,
      m.1.setsPrototype = false ∧ m.1.WellFormed ∧ ¬Unset semantic m.2
  | .template head parts =>
      WellFormed head ∧ ∀ p ∈ parts, WellFormed p.2 ∧ ¬Unset semantic p.1
  | _ => True

/-- The condition under which the static value of an expression can be relied on. -/
structure Clean (semantic : Semantic) (run : List Declarator) (e : Expression) : Prop where
  defined : ¬Unset semantic e
  fine : ∀ e', Reads semantic e' e → Fine semantic run e'

/-! ### Parentheses -/

theorem evaluate_unparen (e : Expression) : evaluate c env e.unparen = evaluate c env e := by
  induction e using Expression.unparen.induct with
  | case1 inner ih => exact ih
  | case2 e hne => rw [Expression.unparen.eq_2 e hne]

theorem unset_unparen_iff (e : Expression) : Unset semantic e.unparen ↔ Unset semantic e := by
  induction e using Expression.unparen.induct with
  | case1 inner ih =>
    rw [Expression.unparen, ih]
    constructor
    · exact .paren
    · intro h
      cases h with
      | paren h => exact h
  | case2 e hne => rw [Expression.unparen.eq_2 e hne]

theorem Reads.of_unparen {e' e : Expression} (h : Reads semantic e' e.unparen) :
    Reads semantic e' e := by
  induction e using Expression.unparen.induct with
  | case1 inner ih => exact .paren (ih h)
  | case2 e hne => rwa [Expression.unparen.eq_2 e hne] at h

theorem unparen_ne_paren (e inner : Expression) : e.unparen ≠ .paren inner := by
  induction e using Expression.unparen.induct with
  | case1 inner' ih => exact ih
  | case2 e hne =>
    rw [Expression.unparen.eq_2 e hne]
    exact hne inner

theorem Reads.trans {e'' e' e : Expression} (h : Reads semantic e' e)
    (h' : Reads semantic e'' e') : Reads semantic e'' e := by
  induction h with
  | refl => exact h'
  | member hm _ ih => exact .member hm ih
  | item hitem _ ih => exact .item hitem ih
  | part hp _ ih => exact .part hp ih
  | left _ ih => exact .left ih
  | right _ ih => exact .right ih
  | negate _ ih => exact .negate ih
  | paren _ ih => exact .paren ih
  | through hdecl hinit _ ih => exact .through hdecl hinit ih

/-- Only a variable is unset. -/
theorem Unset.exists_identifier {e : Expression} (h : Unset semantic e) :
    ∃ symbol, e.unparen = .identifier symbol := by
  induction h with
  | missing _ _ => exact ⟨_, rfl⟩
  | through _ _ _ _ => exact ⟨_, rfl⟩
  | paren _ ih => exact ih

/-! ### Strings -/

theorem jsString_append (s t : String) : jsString (s ++ t) = jsString s ++ jsString t := by
  simp [jsString]

theorem jsString_injective : Function.Injective jsString := by
  intro s t h
  have hscalar : Function.Injective JsChar.scalar := fun _ _ h => JsChar.scalar.inj h
  exact String.toList_inj.mp (List.map_injective_iff.mpr hscalar h)

/-- Texts have no halves that could meet. -/
theorem concat_jsString (s t : String) : concat (jsString s) (jsString t) = jsString (s ++ t) := by
  rw [jsString_append]
  unfold concat
  split
  · rename_i high low rest hlast _
    have hmem : JsChar.surrogate high ∈ jsString s := List.mem_of_getLast? hlast
    obtain ⟨ch, _, hch⟩ := List.mem_map.mp hmem
    cases hch
  · rfl

/-! ### Values that agree -/

/-- The value has the JSON text of the static value. -/
structure Strict (w : JsVal) (v : Value ℤ) : Prop where
  json : jsonOf w = some (ofValue v)
  notNan : w ≠ .nan

/-- The value of an expression and its static value: one that is unset has `null`. -/
def Agrees (semantic : Semantic) (e : Expression) (w : JsVal) (v : Value ℤ) : Prop :=
  (Unset semantic e ∧ w = .undefined ∧ v = .null) ∨ (¬Unset semantic e ∧ Strict w v)

theorem Strict.string_iff {w : JsVal} {s : String} :
    Strict w (.string s) ↔ w = .string (jsString s) := by
  constructor
  · intro h
    obtain ⟨hjson, _⟩ := h
    cases w <;> simp_all [jsonOf, ofValue]
  · rintro rfl
    exact ⟨rfl, by simp⟩

theorem Strict.number_iff {w : JsVal} {n : ℤ} : Strict w (.number n) ↔ w = .number n := by
  constructor
  · intro h
    obtain ⟨hjson, _⟩ := h
    cases w <;> simp_all [jsonOf, ofValue]
  · rintro rfl
    exact ⟨rfl, by simp⟩

theorem Strict.bool_iff {w : JsVal} {b : Bool} : Strict w (.bool b) ↔ w = .bool b := by
  constructor
  · intro h
    obtain ⟨hjson, _⟩ := h
    cases w <;> simp_all [jsonOf, ofValue]
  · rintro rfl
    exact ⟨rfl, by simp⟩

theorem Strict.null_iff {w : JsVal} : Strict w .null ↔ w = .null := by
  constructor
  · intro h
    obtain ⟨hjson, hnan⟩ := h
    cases w <;> simp_all [jsonOf, ofValue]
  · rintro rfl
    exact ⟨rfl, by simp⟩

/-- Interpolation gives the same text. -/
theorem interpolatedText_of_strict {w : JsVal} {v : Value ℤ} {text : String} (h : Strict w v)
    (htext : interpolate v = some text) : interpolatedText c w = some (jsString text) := by
  cases v with
  | string s =>
    obtain rfl := Strict.string_iff.mp h
    cases htext
    rfl
  | number n =>
    obtain rfl := Strict.number_iff.mp h
    cases htext
    rfl
  | bool b =>
    obtain rfl := Strict.bool_iff.mp h
    cases htext
    rfl
  | null =>
    obtain rfl := Strict.null_iff.mp h
    cases htext
    rfl
  | array items => cases htext
  | object fields => cases htext

/-- Addition gives the same value. -/
theorem addValues_of_strict {x y : JsVal} {v w r : Value ℤ} (hx : Strict x v) (hy : Strict y w)
    (hr : addStatic v w = some r) : ∃ z, addValues c x y = some z ∧ Strict z r := by
  cases v with
  | string s =>
    obtain rfl := Strict.string_iff.mp hx
    cases w with
    | string t =>
      obtain rfl := Strict.string_iff.mp hy
      cases hr
      exact ⟨_, rfl, Strict.string_iff.mpr (congrArg JsVal.string (concat_jsString s t))⟩
    | number n =>
      obtain rfl := Strict.number_iff.mp hy
      cases hr
      exact ⟨_, rfl, Strict.string_iff.mpr (congrArg JsVal.string (concat_jsString s _))⟩
    | null => cases hr
    | bool b => cases hr
    | array items => cases hr
    | object fields => cases hr
  | number m =>
    obtain rfl := Strict.number_iff.mp hx
    cases w with
    | string t =>
      obtain rfl := Strict.string_iff.mp hy
      cases hr
      exact ⟨_, rfl, Strict.string_iff.mpr (congrArg JsVal.string (concat_jsString _ t))⟩
    | number n =>
      obtain rfl := Strict.number_iff.mp hy
      cases hr
      exact ⟨_, rfl, Strict.number_iff.mpr rfl⟩
    | null => cases hr
    | bool b => cases hr
    | array items => cases hr
    | object fields => cases hr
  | null => cases hr
  | bool b => cases hr
  | array items => cases hr
  | object fields => cases hr

/-! ### Expressions -/

section Expressions

/-- Every static value of an expression is that of its value. -/
def Follows (c : Coercions) (parsed : JsString → String) (semantic : Semantic) (env : Bindings)
    (left : ℕ) (e : Expression) : Prop :=
  ∀ v, evalStaticFrom parsed semantic left e = some v →
    ∃ w, evaluate c env e = some w ∧ Agrees semantic e w v

/-- A symbol is bound to what it resolves to. -/
def Known (parsed : JsString → String) (semantic : Semantic) (env : Bindings) (symbol : ℕ) :
    Prop :=
  ∀ left v, resolveIdentifier semantic (evalStaticFrom parsed semantic left) symbol = some v →
    ∃ w, env symbol = some w ∧ Agrees semantic (.identifier symbol) w v

theorem Agrees.strict {e : Expression} {w : JsVal} {v : Value ℤ} (h : Agrees semantic e w v)
    (hset : ¬Unset semantic e) : Strict w v := by
  cases h with
  | inl hunset => exact absurd hunset.1 hset
  | inr hstrict => exact hstrict.2

/-- A value that is not `null` is that of an expression that is set. -/
theorem Agrees.strict_of_ne {e : Expression} {w : JsVal} {v : Value ℤ} (h : Agrees semantic e w v)
    (hne : v ≠ .null) : Strict w v := by
  cases h with
  | inl hunset => exact absurd hunset.2.2 hne
  | inr hstrict => exact hstrict.2

theorem not_unset_of_unparen {e : Expression} (h : ∀ symbol, e.unparen ≠ .identifier symbol) :
    ¬Unset semantic e := by
  intro hunset
  obtain ⟨symbol, hsymbol⟩ := hunset.exists_identifier
  exact h symbol hsymbol

theorem text_propertyKey (hparsed : ∀ s, parsed (jsString s) = s) {key : Key}
    (hkey : key.WellFormed) : key.text = jsString (propertyKeyToString parsed key) := by
  cases key with
  | name s shorthand => rfl
  | number n => rfl
  | string s computed =>
    obtain ⟨text, rfl⟩ := hkey
    rw [propertyKeyToString, hparsed, Key.text]

theorem jsonMembers_of_map {members : List (JsString × JsVal)} :
    ∀ {fields : List (String × Value ℤ)},
      members.map (fun m => (m.1, jsonOf m.2)) =
        fields.map (fun f => (jsString f.1, some (ofValue f.2))) →
      jsonMembers members = ofFields fields := by
  induction members with
  | nil =>
    intro fields h
    cases fields with
    | nil => rfl
    | cons f fields => cases h
  | cons m members ih =>
    intro fields h
    cases fields with
    | nil => cases h
    | cons f fields =>
      rw [List.map_cons, List.map_cons, List.cons.injEq, Prod.mk.injEq] at h
      obtain ⟨⟨hkey, hjson⟩, hrest⟩ := h
      obtain ⟨k, w⟩ := m
      obtain ⟨k', v⟩ := f
      simp only at hkey hjson
      rw [jsonMembers, hjson, ofFields, hkey]
      exact congrArg _ (ih hrest)

/-- Members that follow their static values, one by one. -/
theorem evaluateMembers_of {left : ℕ} (hparsed : ∀ s, parsed (jsString s) = s)
    {members : List (Key × Expression)} :
    ∀ {fields : List (String × Value ℤ)},
      (∀ m ∈ members, Follows c parsed semantic env left m.2) →
      (∀ m ∈ members, m.1.setsPrototype = false ∧ m.1.WellFormed ∧ ¬Unset semantic m.2) →
      (members.mapM fun m => (evalStaticFrom parsed semantic left m.2).map
        (propertyKeyToString parsed m.1, ·)) = some fields →
      ∃ values, evaluateMembers c env members = some values ∧
        values.map (fun m => (m.1, jsonOf m.2)) =
          fields.map (fun f => (jsString f.1, some (ofValue f.2))) := by
  induction members with
  | nil =>
    intro fields _ _ hfields
    cases hfields
    exact ⟨[], rfl, rfl⟩
  | cons m members ih =>
    intro fields hfollows hfine hfields
    obtain ⟨field, rest, hfield, hrest, rfl⟩ := mapM_cons_eq_some hfields
    obtain ⟨v, hv, rfl⟩ := Option.map_eq_some_iff.mp hfield
    obtain ⟨key, e⟩ := m
    obtain ⟨hproto, hkey, hset⟩ := hfine _ List.mem_cons_self
    obtain ⟨w, hw, hagrees⟩ := hfollows _ List.mem_cons_self v hv
    obtain ⟨values, hvalues, hmap⟩ := ih (fun m hm => hfollows m (List.mem_cons_of_mem _ hm))
      (fun m hm => hfine m (List.mem_cons_of_mem _ hm)) hrest
    refine ⟨(key.text, w) :: values, ?_, ?_⟩
    · rw [evaluateMembers, hw, hvalues]
      simp only [Option.bind_some, Option.map_some]
      rw [if_neg (by simpa using hproto)]
    · rw [List.map_cons, List.map_cons, hmap, (hagrees.strict hset).json,
        text_propertyKey hparsed hkey]

theorem evaluateItems_of {left : ℕ} {items : List (Option Expression)} :
    ∀ {values : List (Value ℤ)},
      (∀ e, some e ∈ items → Follows c parsed semantic env left e) →
      items.mapM (elementValue (evalStaticFrom parsed semantic left)) = some values →
      ∃ ws, evaluateItems c env items = some ws ∧ jsonItems ws = ofItems values := by
  induction items with
  | nil =>
    intro values _ hvalues
    cases hvalues
    exact ⟨[], rfl, rfl⟩
  | cons item items ih =>
    intro values hfollows hvalues
    obtain ⟨v, rest, hv, hrest, rfl⟩ := mapM_cons_eq_some hvalues
    obtain ⟨ws, hws, hjson⟩ := ih (fun e he => hfollows e (List.mem_cons_of_mem _ he)) hrest
    cases item with
    | none =>
      cases hv
      refine ⟨none :: ws, ?_, ?_⟩
      · rw [evaluateItems, hws]
        rfl
      · rw [jsonItems, hjson]
        rfl
    | some e =>
      obtain ⟨w, hw, hagrees⟩ := hfollows e List.mem_cons_self v hv
      refine ⟨some w :: ws, ?_, ?_⟩
      · rw [evaluateItems, hw, hws]
        rfl
      · rw [jsonItems, hjson, ofItems]
        cases hagrees with
        | inl hunset =>
          rw [hunset.2.1, hunset.2.2]
          rfl
        | inr hstrict =>
          rw [hstrict.2.json]
          rfl

theorem evaluateParts_of {left : ℕ} (hparsed : ∀ s, parsed (jsString s) = s)
    {parts : List (Expression × JsString)} :
    ∀ {texts : List String},
      (∀ p ∈ parts, Follows c parsed semantic env left p.1) →
      (∀ p ∈ parts, WellFormed p.2 ∧ ¬Unset semantic p.1) →
      (parts.mapM fun part => (evalStaticFrom parsed semantic left part.1).bind fun v =>
        (interpolate v).map (· ++ parsed part.2)) = some texts →
      evaluateParts c env parts = some (jsString (String.join texts)) := by
  induction parts with
  | nil =>
    intro texts _ _ htexts
    cases htexts
    rfl
  | cons p parts ih =>
    intro texts hfollows hfine htexts
    obtain ⟨text, rest, htext, hrest, rfl⟩ := mapM_cons_eq_some htexts
    obtain ⟨v, hv, htext⟩ := Option.bind_eq_some_iff.mp htext
    obtain ⟨interpolated, hinterpolated, rfl⟩ := Option.map_eq_some_iff.mp htext
    obtain ⟨e, s⟩ := p
    obtain ⟨⟨behind, hbehind⟩, hset⟩ := hfine _ List.mem_cons_self
    simp only at hbehind
    obtain ⟨w, hw, hagrees⟩ := hfollows _ List.mem_cons_self v hv
    have htail := ih (fun p hp => hfollows p (List.mem_cons_of_mem _ hp))
      (fun p hp => hfine p (List.mem_cons_of_mem _ hp)) hrest
    rw [evaluateParts, hw, Option.bind_some,
      interpolatedText_of_strict (hagrees.strict hset) hinterpolated, Option.bind_some, htail,
      Option.map_some, hbehind, hparsed, concat_jsString, concat_jsString, String.join_cons,
      String.append_assoc]

/-- Where the variables are bound to what they resolve to, the static value is the value. -/
theorem follows_of_known (hparsed : ∀ s, parsed (jsString s) = s) (left : ℕ) :
    ∀ e, (∀ symbol, Reads semantic (.identifier symbol) e → Known parsed semantic env symbol) →
      (∀ e', Reads semantic e' e → Fine semantic run e') →
      Follows c parsed semantic env left e := by
  induction left with
  | zero =>
    intro e _ _ v hv
    cases hv
  | succ left ih =>
    intro e hknown hfine v hv
    rw [evalStaticFrom] at hv
    rw [← evaluate_unparen e]
    have hself : Fine semantic run e.unparen := hfine _ (Reads.of_unparen .refl)
    -- what the parts of the expression need is among what it needs itself
    have hpart : ∀ e', Reads semantic e' e.unparen → Follows c parsed semantic env left e' := by
      intro e' he'
      have hreads : Reads semantic e' e := he'.of_unparen
      exact ih e' (fun symbol hs => hknown symbol (hreads.trans hs))
        (fun e'' he'' => hfine e'' (hreads.trans he''))
    have hknown' : ∀ symbol, e.unparen = .identifier symbol → Known parsed semantic env symbol := by
      intro symbol hs
      apply hknown
      apply Reads.of_unparen
      rw [hs]
      exact .refl
    have hset : (∀ symbol, e.unparen ≠ .identifier symbol) → ¬Unset semantic e :=
      not_unset_of_unparen
    have hparen := unparen_ne_paren e
    have hunset := @unset_unparen_iff semantic e
    revert hv hself hpart hknown' hset hparen hunset
    cases e.unparen with
    | string s =>
      intro hv hself _ _ hset _ _
      obtain ⟨text, rfl⟩ := hself
      cases hv
      rw [hparsed]
      exact ⟨_, rfl, .inr ⟨hset (by simp), Strict.string_iff.mpr rfl⟩⟩
    | number n =>
      intro hv _ _ _ hset _ _
      cases hv
      exact ⟨_, rfl, .inr ⟨hset (by simp), Strict.number_iff.mpr rfl⟩⟩
    | bool b =>
      intro hv _ _ _ hset _ _
      cases hv
      exact ⟨_, rfl, .inr ⟨hset (by simp), Strict.bool_iff.mpr rfl⟩⟩
    | null =>
      intro hv _ _ _ hset _ _
      cases hv
      exact ⟨_, rfl, .inr ⟨hset (by simp), Strict.null_iff.mpr rfl⟩⟩
    | identifier symbol =>
      intro hv _ _ hknown' _ _ hunset
      obtain ⟨w, hw, hagrees⟩ := hknown' symbol rfl left v hv
      refine ⟨w, hw, ?_⟩
      unfold Agrees at hagrees ⊢
      rwa [hunset] at hagrees
    | object members =>
      intro hv hself hpart _ hset _ _
      obtain ⟨fields, hfields, rfl⟩ := Option.map_eq_some_iff.mp hv
      obtain ⟨values, hvalues, hmap⟩ := evaluateMembers_of hparsed
        (fun m hm => hpart m.2 (.member hm .refl)) hself hfields
      refine ⟨.object (assignAll [] values), by rw [evaluate, hvalues]; rfl,
        .inr ⟨hset (by simp), ?_, by simp⟩⟩
      have hjson : (assignAll [] values).map (fun m => (m.1, jsonOf m.2)) =
          (assignAll [] fields).map (fun f => (jsString f.1, some (ofValue f.2))) := by
        calc (assignAll [] values).map (fun m => (m.1, jsonOf m.2))
            = assignAll [] (values.map fun m => (m.1, jsonOf m.2)) :=
              (assignAll_map Function.injective_id jsonOf values []).symm
          _ = assignAll [] (fields.map fun f => (jsString f.1, some (ofValue f.2))) := by rw [hmap]
          _ = (assignAll [] fields).map (fun f => (jsString f.1, some (ofValue f.2))) :=
              assignAll_map jsString_injective (fun v => some (ofValue v)) fields []
      rw [jsonOf, jsonMembers_of_map hjson]
      rfl
    | array items =>
      intro hv _ hpart _ hset _ _
      obtain ⟨values, hvalues, rfl⟩ := Option.map_eq_some_iff.mp hv
      obtain ⟨ws, hws, hjson⟩ := evaluateItems_of (fun e he => hpart e (.item he .refl)) hvalues
      refine ⟨.array ws, by rw [evaluate, hws]; rfl, .inr ⟨hset (by simp), ?_, by simp⟩⟩
      rw [jsonOf, hjson]
      rfl
    | template head parts =>
      intro hv hself hpart _ hset _ _
      obtain ⟨texts, htexts, rfl⟩ := Option.map_eq_some_iff.mp hv
      obtain ⟨⟨text, rfl⟩, hparts⟩ := hself
      have htail : evaluateParts c env parts = some (jsString (String.join texts)) :=
        evaluateParts_of hparsed (fun p hp => hpart p.1 (.part hp .refl)) hparts htexts
      refine ⟨.string (jsString (text ++ String.join texts)), ?_,
        .inr ⟨hset (by simp), Strict.string_iff.mpr (by rw [hparsed])⟩⟩
      rw [evaluate, htail, Option.map_some, concat_jsString]
    | add l r =>
      intro hv _ hpart _ hset _ _
      obtain ⟨x, hx, hv⟩ := Option.bind_eq_some_iff.mp hv
      obtain ⟨y, hy, hv⟩ := Option.bind_eq_some_iff.mp hv
      obtain ⟨w, hw, hwx⟩ := hpart l (.left .refl) x hx
      obtain ⟨w', hw', hwy⟩ := hpart r (.right .refl) y hy
      have hxne : x ≠ .null := by
        rintro rfl
        cases hv
      have hyne : y ≠ .null := by
        rintro rfl
        cases x <;> cases hv
      obtain ⟨z, hz, hstrict⟩ :=
        addValues_of_strict (c := c) (hwx.strict_of_ne hxne) (hwy.strict_of_ne hyne) hv
      refine ⟨z, ?_, .inr ⟨hset (by simp), hstrict⟩⟩
      rw [evaluate, hw, hw']
      exact hz
    | negate argument =>
      intro hv _ hpart _ hset _ _
      obtain ⟨x, hx, hv⟩ := Option.bind_eq_some_iff.mp hv
      obtain ⟨w, hw, hwx⟩ := hpart argument (.negate .refl) x hx
      cases x with
      | number n =>
        cases hv
        obtain rfl := Strict.number_iff.mp (hwx.strict_of_ne (by simp))
        refine ⟨.number (-n), ?_, .inr ⟨hset (by simp), Strict.number_iff.mpr rfl⟩⟩
        rw [evaluate, hw]
        rfl
      | null => cases hv
      | bool b => cases hv
      | string s => cases hv
      | array items => cases hv
      | object fields => cases hv
    | paren inner =>
      intro _ _ _ _ _ hparen _
      exact absurd rfl (hparen inner)

end Expressions

/-! ### Runs of the declarators -/

section Runs

theorem bindAll_of_not_mem {symbols : List ℕ} {symbol : ℕ} (h : symbol ∉ symbols) :
    ∀ (env : Bindings) (values : List JsVal), bindAll env symbols values symbol = env symbol := by
  induction symbols with
  | nil =>
    intro env values
    cases values <;> rfl
  | cons s symbols ih =>
    intro env values
    rw [List.mem_cons, not_or] at h
    cases values with
    | nil => rfl
    | cons v values =>
      rw [bindAll, ih h.2, Function.update_of_ne h.1]

theorem Target.assign_of_not_mem {target : Target} {symbol : ℕ} (h : symbol ∉ target.symbols)
    {env env' : Bindings} {v : JsVal} (hassign : target.assign env v = some env') :
    env' symbol = env symbol := by
  cases target with
  | name s =>
    cases hassign
    exact Function.update_of_ne (by simpa [Target.symbols] using h) _ _
  | pattern symbols bind =>
    obtain ⟨values, _, rfl⟩ := Option.map_eq_some_iff.mp hassign
    exact bindAll_of_not_mem h env values

/-- A declarator leaves the other symbols alone. -/
theorem Declarator.run_of_not_mem {d : Declarator} {symbol : ℕ} (h : symbol ∉ d.target.symbols)
    {env env' : Bindings} (hrun : d.run c env = some env') : env' symbol = env symbol := by
  unfold Declarator.run at hrun
  cases hinit : d.init with
  | missing =>
    rw [hinit] at hrun
    by_cases hvar : d.isVar
    · simp only [hvar, if_true] at hrun
      rw [Option.some.inj hrun]
    · simp only [hvar, Bool.false_eq_true, if_false] at hrun
      exact Target.assign_of_not_mem h hrun
  | expression e =>
    rw [hinit] at hrun
    obtain ⟨v, _, hassign⟩ := Option.bind_eq_some_iff.mp hrun
    exact Target.assign_of_not_mem h hassign
  | loopItem item =>
    rw [hinit] at hrun
    exact Target.assign_of_not_mem h hrun

theorem Declarator.run_missing {d : Declarator} (hvar : d.isVar = true) (hinit : d.init = .missing)
    (env : Bindings) : d.run c env = some env := by
  unfold Declarator.run
  rw [hinit]
  exact if_pos hvar

theorem mem_of_symbolDeclaration {symbol : ℕ} {d : Declarator}
    (h : semantic.symbolDeclaration symbol = some d) :
    d ∈ semantic.declarators ∧ symbol ∈ d.target.symbols := by
  have hfound := List.find?_some h
  exact ⟨List.mem_of_find?_eq_some h, by simpa using hfound⟩

/-- What holds between two declarators of a run, for the symbols an expression goes through: those
declared so far are bound to what they resolve to, and those without a value are `undefined`. -/
structure Bound (parsed : JsString → String) (semantic : Semantic) (run : List Declarator)
    (e : Expression) (before : List Declarator) (env : Bindings) : Prop where
  known : ∀ symbol d, Reads semantic (.identifier symbol) e → Binds semantic run symbol d →
    d ∈ before → Known parsed semantic env symbol
  unset : ∀ symbol d, Reads semantic (.identifier symbol) e → Binds semantic run symbol d →
    d.isVar = true → d.init = .missing → env symbol = some .undefined

theorem bound_hoisted (parsed : JsString → String) (semantic : Semantic) (run : List Declarator)
    (e : Expression) : Bound parsed semantic run e [] (hoisted semantic.declarators) := by
  constructor
  · intro symbol d _ _ hmem
    cases hmem
  · intro symbol d _ hbinds hvar _
    obtain ⟨hmem, hsymbol⟩ := mem_of_symbolDeclaration hbinds.declaration
    apply if_pos
    apply List.any_eq_true.mpr
    exact ⟨d, hmem, by simpa [hvar] using hsymbol⟩

theorem known_of_eq {symbol : ℕ} {env env' : Bindings} (h : Known parsed semantic env symbol)
    (heq : env' symbol = env symbol) : Known parsed semantic env' symbol := by
  intro left v hv
  rw [heq]
  exact h left v hv

/-- A symbol that stays `undefined` resolves to `null`. -/
theorem known_of_missing {symbol : ℕ} {d : Declarator}
    (hdecl : semantic.symbolDeclaration symbol = some d) (hinit : d.init = .missing)
    (hundefined : env symbol = some .undefined) : Known parsed semantic env symbol := by
  intro left v hv
  refine ⟨.undefined, hundefined, .inl ⟨.missing hdecl hinit, rfl, ?_⟩⟩
  unfold resolveIdentifier at hv
  cases hmutated : semantic.symbolIsMutated symbol with
  | true =>
    rw [hmutated] at hv
    cases hv
  | false =>
    simp only [hmutated, Bool.false_eq_true, if_false, hdecl, hinit] at hv
    exact (Option.some.inj hv).symm

/-- A symbol that gets the value of its initialiser resolves to the static value of it. -/
theorem known_of_expression {symbol : ℕ} {d : Declarator} {init : Expression} {w : JsVal}
    (hdecl : semantic.symbolDeclaration symbol = some d) (hinit : d.init = .expression init)
    (hfollows : ∀ left, Follows c parsed semantic env left init)
    (hvalue : evaluate c env init = some w) {env' : Bindings} (hbound : env' symbol = some w) :
    Known parsed semantic env' symbol := by
  intro left v hv
  refine ⟨w, hbound, ?_⟩
  unfold resolveIdentifier at hv
  cases hmutated : semantic.symbolIsMutated symbol with
  | true =>
    rw [hmutated] at hv
    cases hv
  | false =>
    simp only [hmutated, Bool.false_eq_true, if_false, hdecl, hinit] at hv
    by_cases haggregate : init.isAggregate && semantic.isObjectMutatedInAst symbol
    · rw [if_pos haggregate] at hv
      cases hv
    · rw [if_neg haggregate] at hv
      obtain ⟨w', hw', hagrees⟩ := hfollows left v hv
      obtain rfl : w = w' := Option.some.inj (hvalue.symm.trans hw')
      have hunset : Unset semantic (.identifier symbol) ↔ Unset semantic init := by
        constructor
        · intro h
          cases h with
          | missing hdecl' hinit' =>
            obtain rfl := Option.some.inj (hdecl.symm.trans hdecl')
            rw [hinit] at hinit'
            cases hinit'
          | through hdecl' hinit' h =>
            obtain rfl := Option.some.inj (hdecl.symm.trans hdecl')
            rw [hinit] at hinit'
            cases hinit'
            exact h
        · exact .through hdecl hinit
      unfold Agrees at hagrees ⊢
      rwa [hunset]

/-- One declarator keeps what is bound, and binds its own symbol. -/
theorem Bound.step {e : Expression} {before after : List Declarator} {d : Declarator}
    {env env' : Bindings} (hparsed : ∀ s, parsed (jsString s) = s)
    (hfine : ∀ e', Reads semantic e' e → Fine semantic run e')
    (hrun : run = before ++ d :: after) (hmem : d ∈ semantic.declarators)
    (h : Bound parsed semantic run e before env) (hstep : d.run c env = some env') :
    Bound parsed semantic run e (before ++ [d]) env' := by
  -- a symbol that is not bound by the declarator, or bound by one that does nothing, is kept
  have hkept : ∀ symbol d', Binds semantic run symbol d' →
      d ≠ d' ∨ d.isVar = true ∧ d.init = .missing → env' symbol = env symbol := by
    intro symbol d' hbinds hother
    by_cases hsymbol : symbol ∈ d.target.symbols
    · have hnothing : d.isVar = true ∧ d.init = .missing := by
        cases hbinds.once d hmem hsymbol with
        | inl hsame => exact hother.resolve_left fun hne => hne hsame
        | inr hmissing => exact hmissing
      rw [Declarator.run_missing hnothing.1 hnothing.2] at hstep
      rw [Option.some.inj hstep]
    · exact Declarator.run_of_not_mem hsymbol hstep
  constructor
  · intro symbol d' hreads hbinds hin
    by_cases hsame : d = d'
    · subst hsame
      have hdecl := hbinds.declaration
      cases hinit : d.init with
      | loopItem item => exact absurd hinit (hbinds.noLoop item)
      | missing =>
        apply known_of_missing hdecl hinit
        by_cases hvar : d.isVar
        · rw [hkept symbol d hbinds (.inr ⟨hvar, hinit⟩)]
          exact h.unset symbol d hreads hbinds hvar hinit
        · unfold Declarator.run at hstep
          rw [hinit, hbinds.simple] at hstep
          simp only [hvar, Bool.false_eq_true, if_false, Target.assign, Option.some.injEq] at hstep
          rw [← hstep, Function.update_self]
      | expression init =>
        unfold Declarator.run at hstep
        rw [hinit, hbinds.simple] at hstep
        obtain ⟨w, hw, hassign⟩ := Option.bind_eq_some_iff.mp hstep
        have hinside : ∀ e', Reads semantic e' init → Reads semantic e' e := fun e' he' =>
          hreads.trans (.through hdecl hinit he')
        refine known_of_expression hdecl hinit (fun left => ?_) hw ?_
        · apply follows_of_known hparsed left init
          · intro s hs
            obtain ⟨d'', hbinds''⟩ := hfine _ (hinside _ hs)
            obtain ⟨d₁, hdecl₁, hbefore⟩ := hbinds.ordered before after init hrun hinit s hs
            obtain rfl := Option.some.inj (hbinds''.declaration.symm.trans hdecl₁)
            exact h.known s d'' (hinside _ hs) hbinds'' hbefore
          · exact fun e' he' => hfine e' (hinside e' he')
        · rw [← Option.some.inj hassign, Function.update_self]
    · have hbefore : d' ∈ before := by
        cases List.mem_append.mp hin with
        | inl hbefore => exact hbefore
        | inr hlast => exact absurd (List.mem_singleton.mp hlast).symm hsame
      exact known_of_eq (h.known symbol d' hreads hbinds hbefore)
        (hkept symbol d' hbinds (.inl hsame))
  · intro symbol d' hreads hbinds hvar hinit
    have hold := h.unset symbol d' hreads hbinds hvar hinit
    rw [← hold]
    by_cases hsame : d = d'
    · subst hsame
      exact hkept symbol d hbinds (.inr ⟨hvar, hinit⟩)
    · exact hkept symbol d' hbinds (.inl hsame)

theorem Bound.of_runAll {e : Expression} (hparsed : ∀ s, parsed (jsString s) = s)
    (hfine : ∀ e', Reads semantic e' e → Fine semantic run e')
    (hmem : ∀ d ∈ run, d ∈ semantic.declarators) {after : List Declarator} :
    ∀ {before : List Declarator} {env env' : Bindings}, run = before ++ after →
      Bound parsed semantic run e before env → runAll c env after = some env' →
      Bound parsed semantic run e run env' := by
  induction after with
  | nil =>
    intro before env env' hrun h hall
    rw [List.append_nil] at hrun
    rw [← hrun] at h
    cases hall
    exact h
  | cons d after ih =>
    intro before env env' hrun h hall
    unfold runAll at hall
    rw [List.foldlM_cons] at hall
    obtain ⟨env₁, hstep, hrest⟩ := Option.bind_eq_some_iff.mp hall
    have hd : d ∈ run := by
      rw [hrun]
      exact List.mem_append_right _ List.mem_cons_self
    apply @ih (before ++ [d]) env₁ env' _ (h.step hparsed hfine hrun (hmem d hd) hstep) hrest
    rw [hrun, List.append_assoc, List.singleton_append]

end Runs

/-- After the declarators have run, an expression that is clean has the static value it is given. -/
theorem evalStatic_agrees {e : Expression} {v : Value ℤ} (hclean : Clean semantic run e)
    (hmem : ∀ d ∈ run, d ∈ semantic.declarators) (hparsed : ∀ s, parsed (jsString s) = s)
    (hrun : runAll c (hoisted semantic.declarators) run = some env)
    (hstatic : evalStatic parsed semantic e = some v) :
    ∃ w, evaluate c env e = some w ∧ jsonOf w = some (ofValue v) := by
  have hbound : Bound parsed semantic run e run env :=
    Bound.of_runAll hparsed hclean.fine hmem (List.nil_append run).symm
      (bound_hoisted parsed semantic run e) hrun
  have hknown : ∀ symbol, Reads semantic (.identifier symbol) e →
      Known parsed semantic env symbol := by
    intro symbol hs
    obtain ⟨d, hbinds⟩ := hclean.fine _ hs
    exact hbound.known symbol d hs hbinds hbinds.ran
  obtain ⟨w, hw, hagrees⟩ := follows_of_known hparsed 17 e hknown hclean.fine v hstatic
  exact ⟨w, hw, (hagrees.strict hclean.defined).json⟩

/-- The text of a string without halves of surrogate pairs. -/
def scalarText (s : JsString) : String :=
  String.ofList (s.filterMap fun
    | .scalar ch => some ch
    | .surrogate _ => none)

theorem scalarText_jsString (s : String) : scalarText (jsString s) = s := by
  have hfilter : ∀ chars : List Char, (chars.map JsChar.scalar).filterMap (fun
      | .scalar ch => some ch
      | .surrogate _ => none) = chars := by
    intro chars
    induction chars with
    | nil => rfl
    | cons ch chars ih => simp [ih]
  unfold scalarText jsString
  rw [hfilter, String.ofList_toList]

/-- A program in which no coercion is needed that is not spelled out. -/
def noCoercions : Coercions := ⟨fun _ _ => none, fun _ => none, fun _ => none⟩

/-- `const msg = "Hello";` -/
def greeting : Declarator := ⟨false, .name 0, .expression (.string (jsString "Hello"))⟩

/-- A program of one declaration to which nothing is ever assigned. -/
def declaring (d : Declarator) : Semantic := ⟨[d], fun _ => false, fun _ => false⟩

theorem clean_greeting : Clean (declaring greeting) [greeting]
    (.object [(.name "message" false, .identifier 0)]) := by
  have hbinds : Binds (declaring greeting) [greeting] 0 greeting := by
    constructor
    · rfl
    · rfl
    · intro item h
      cases h
    · intro d hd _
      exact .inl (List.mem_singleton.mp hd)
    · exact List.mem_cons_self
    · intro before after init hrun hinit s hs
      cases hinit
      cases hs
  have hunset : ¬Unset (declaring greeting) (.identifier 0) := by
    intro h
    cases h with
    | missing hdecl hinit =>
      cases hdecl
      cases hinit
    | through hdecl hinit h =>
      cases hdecl
      cases hinit
      cases h
  constructor
  · intro h
    cases h
  · intro e' h
    cases h with
    | refl =>
      intro m hm
      obtain rfl := List.mem_singleton.mp hm
      exact ⟨by decide, trivial, hunset⟩
    | member hm h =>
      obtain rfl := List.mem_singleton.mp hm
      cases h with
      | refl => exact ⟨greeting, hbinds⟩
      | through hdecl hinit h =>
        cases hdecl
        cases hinit
        cases h with
        | refl => exact ⟨"Hello", rfl⟩

theorem evalStatic_agrees_greeting :
    ∃ w, evaluate noCoercions
        (Function.update (hoisted [greeting]) 0 (some (.string (jsString "Hello"))))
        (.object [(.name "message" false, .identifier 0)]) = some w ∧
      jsonOf w = some (ofValue (.object [("message", .string "Hello")])) := by
  have hstatic : evalStatic scalarText (declaring greeting)
      (.object [(.name "message" false, .identifier 0)]) =
        some (.object [("message", .string "Hello")]) := by
    simp [evalStatic, evalStaticFrom, scalarText_jsString, resolveIdentifier, declaring, greeting,
      Semantic.symbolDeclaration, Target.symbols, Expression.unparen, Expression.isAggregate,
      propertyKeyToString, assignAll, assign]
  exact evalStatic_agrees clean_greeting (fun _ h => h) scalarText_jsString rfl hstatic

/-- `var x;` in a template: the static text is `null`, and the text of the program is
`undefined`. -/
theorem evalStatic_unset :
    evalStatic scalarText (declaring ⟨true, .name 0, .missing⟩)
        (.template [] [(.identifier 0, [])]) = some (.string "null") ∧
      ((runAll noCoercions (hoisted [⟨true, .name 0, .missing⟩])
        [⟨true, .name 0, .missing⟩]).bind fun env =>
          evaluate noCoercions env (.template [] [(.identifier 0, [])])) =
            some (.string (jsString "undefined")) ∧
      jsonOf (.string (jsString "undefined")) ≠ some (ofValue (.string "null")) := by
  have hstatic : evalStatic scalarText (declaring ⟨true, .name 0, .missing⟩)
      (.template [] [(.identifier 0, [])]) = some (.string "null") := by
    simp [evalStatic, evalStaticFrom, Expression.unparen, resolveIdentifier, declaring,
      Semantic.symbolDeclaration, Target.symbols, interpolate, scalarText]
  have hvalue : ((runAll noCoercions (hoisted [⟨true, .name 0, .missing⟩])
      [⟨true, .name 0, .missing⟩]).bind fun env =>
        evaluate noCoercions env (.template [] [(.identifier 0, [])])) =
          some (.string (jsString "undefined")) := by
    simp [runAll, Declarator.run, evaluate, evaluateParts, hoisted, Target.symbols,
      interpolatedText, concat]
  have hdiffer : jsString "undefined" ≠ jsString "null" :=
    fun h => absurd (jsString_injective h) (by decide)
  refine ⟨hstatic, hvalue, ?_⟩
  simpa [jsonOf, ofValue] using hdiffer

end FrameworkBenchmarks.TitanPl.FastPath
