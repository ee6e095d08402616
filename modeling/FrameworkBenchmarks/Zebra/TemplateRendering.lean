import FrameworkBenchmarks.Zebra.TemplateEngine

/-!
# The meaning of a template

A tree has a rendering, in document order. What the compiled tree writes is described by a marked
text: a mark stands where the text is cut because what follows is encoded by itself.
-/

namespace FrameworkBenchmarks.Zebra

open Common

section Meaning

variable {T : Type}

/-- An attribute follows a space. -/
def XmlAttr.render (item : T) : XmlAttr T → List UInt16
  | .keyValue key value => units " " ++ key ++ units "=" ++ value
  | .bindAttr fn => units " " ++ (fn item).1 ++ units "=" ++ (fn item).2

/-- The digits and the sign of a number are ASCII characters. -/
def intText (v : Int32) : List UInt16 := (writeInt v).map fun b => b.toUInt16

mutual

/-- The rendering of a tree. -/
def Template.render : {T : Type} → Template T → T → List UInt16
  | _, .parentNode name attrs children, item =>
    units "<" ++ name ++ attrs.flatMap (XmlAttr.render item) ++ units ">" ++ children.render item ++
      (units "</" ++ name ++ units ">")
  | _, .voidNode name attrs, item =>
    units "<" ++ name ++ attrs.flatMap (XmlAttr.render item) ++ units " />"
  | _, .encodedText txt, _ => htmlEncode txt
  | _, .rawText txt, _ => txt
  | _, .bindStr fn, item => htmlEncode (fn item)
  | _, .bindInt fn, item => intText (fn item)
  | _, .bindIf predicate trueTemplate falseTemplate, item =>
    if predicate item then trueTemplate.render item else falseTemplate.render item
  | _, .bindFor enumFn template, item => (enumFn item).flatMap fun x => template.render x

def Templates.render : {T : Type} → Templates T → T → List UInt16
  | _, .nil, _ => []
  | _, .cons child children, item => child.render item ++ children.render item

end

mutual

/-- The number of attributes that are rendered. -/
def Template.attributes : {T : Type} → Template T → T → ℕ
  | _, .parentNode _ attrs children, item => attrs.length + children.attributes item
  | _, .voidNode _ attrs, _ => attrs.length
  | _, .encodedText _, _ | _, .rawText _, _ | _, .bindStr _, _ | _, .bindInt _, _ => 0
  | _, .bindIf predicate trueTemplate falseTemplate, item =>
    if predicate item then trueTemplate.attributes item else falseTemplate.attributes item
  | _, .bindFor enumFn template, item => ((enumFn item).map fun x => template.attributes x).sum

def Templates.attributes : {T : Type} → Templates T → T → ℕ
  | _, .nil, _ => 0
  | _, .cons child children, item => child.attributes item + children.attributes item

end

/-- A text that is written unit by unit. -/
def unitwise (s : List UInt16) : List (Option UInt16) := s.flatMap fun c => [some c, none]

/-- An attribute as it is compiled. -/
def XmlAttr.marked (item : T) : XmlAttr T → List (Option UInt16)
  | .keyValue key value => (key ++ units "=" ++ value).map some
  | .bindAttr fn => none :: unitwise ((fn item).1 ++ units "=" ++ (fn item).2)

mutual

/-- The text of a compiled tree, cut around each node that depends on the model. -/
def Template.marked : {T : Type} → Template T → T → List (Option UInt16)
  | _, .parentNode name attrs children, item =>
    (units "<" ++ name).map some ++ attrs.flatMap (XmlAttr.marked item) ++ (units ">").map some ++
      children.marked item ++ (units "</" ++ name ++ units ">").map some
  | _, .voidNode name attrs, item =>
    (units "<" ++ name).map some ++ attrs.flatMap (XmlAttr.marked item) ++ (units " />").map some
  | _, .encodedText txt, _ => (htmlEncode txt).map some
  | _, .rawText txt, _ => txt.map some
  | _, .bindStr fn, item => none :: unitwise (htmlEncode (fn item))
  | _, .bindInt fn, item => none :: unitwise (intText (fn item))
  | _, .bindIf predicate trueTemplate falseTemplate, item =>
    none :: ((if predicate item then trueTemplate.marked item else falseTemplate.marked item) ++
      [none])
  | _, .bindFor enumFn template, item =>
    none :: (enumFn item).flatMap fun x => template.marked x ++ [none]

def Templates.marked : {T : Type} → Templates T → T → List (Option UInt16)
  | _, .nil, _ => []
  | _, .cons child children, item => child.marked item ++ children.marked item

end

end Meaning

section Written

variable {T : Type} {b b' b'' : Builder T} {item : T} {m m' : List (Option UInt16)}

/-- A compiled part writes a marked text, whatever follows. -/
def Writes (bytes : List UInt8) (m : List (Option UInt16)) : Prop :=
  ∀ rest, encodeRuns [] (m ++ rest) = bytes ++ encodeRuns [] rest

theorem writes_nil : Writes [] [] := fun _ => rfl

theorem Writes.append {bytes bytes' : List UInt8} (h : Writes bytes m) (h' : Writes bytes' m') :
    Writes (bytes ++ bytes') (m ++ m') := by
  intro rest
  rw [List.append_assoc, h, h', List.append_assoc]

/-- A mark at the end lets nothing run on. -/
theorem writes_append_none (m : List (Option UInt16)) : Writes (encodeRuns [] m) (m ++ [none]) := by
  intro rest
  rw [List.append_assoc]
  exact encodeRuns_append_none [] m rest

theorem writes_unitwise (s : List UInt16) : Writes (streamWrite s) (unitwise s) := by
  induction s with
  | nil => exact writes_nil
  | cons c s ih =>
    have hfirst : Writes (streamWrite [c]) [some c, none] := by
      have hnone := writes_append_none [some c]
      have hencode : encodeRuns [] [some c] = streamWrite [c] := by
        rw [streamWrite_eq]
        rfl
      rwa [hencode] at hnone
    have hboth := hfirst.append ih
    rwa [← streamWrite_append] at hboth

theorem writes_flatMap {U : Type} {f : U → List UInt8} {g : U → List (Option UInt16)}
    (h : ∀ x, Writes (f x) (g x)) (xs : List U) : Writes (xs.flatMap f) (xs.flatMap g) := by
  induction xs with
  | nil => exact writes_nil
  | cons x xs ih => exact (h x).append ih

/-- What the nodes of a builder write. -/
def Builder.written (b : Builder T) (item : T) : List UInt8 := processNodes item b.acc.reverse

/-- From one builder to the next a marked text is compiled. -/
def Compiles (item : T) (b : Builder T) (m : List (Option UInt16)) (b' : Builder T) : Prop :=
  ∀ rest, b'.written item ++ encodeRuns b'.sb rest = b.written item ++ encodeRuns b.sb (m ++ rest)

theorem Compiles.refl (b : Builder T) : Compiles item b [] b := fun _ => rfl

theorem Compiles.trans (h : Compiles item b m b') (h' : Compiles item b' m' b'') :
    Compiles item b (m ++ m') b'' := by
  intro rest
  rw [h', h, List.append_assoc]

theorem compiles_append (b : Builder T) (s : List UInt16) :
    Compiles item b (s.map some) (b.append s) := by
  intro rest
  rw [encodeRuns_map_some]
  rfl

theorem processNodes_append (item : T) (nodes nodes' : List (CompiledNode T)) :
    processNodes item (nodes ++ nodes') = processNodes item nodes ++ processNodes item nodes' := by
  induction nodes with
  | nil => rfl
  | cons node nodes ih => rw [List.cons_append, processNodes, ih, processNodes, List.append_assoc]

/-- The builder is empty after a flush, and its text is in the last node. -/
theorem writeFlush_eq (b : Builder T) (item : T) :
    b.writeFlush.sb = [] ∧ b.writeFlush.written item = b.written item ++ encodeUtf8 b.sb := by
  rw [Builder.writeFlush]
  split
  · refine ⟨rfl, ?_⟩
    rw [Builder.written, List.reverse_cons, processNodes_append]
    simp [processNodes, processNode, Builder.written]
  · rename_i hempty
    have hnil : b.sb = [] := List.eq_nil_of_length_eq_zero (by omega)
    rw [hnil]
    exact ⟨rfl, (List.append_nil _).symm⟩

/-- A node that depends on the model is cut off from what precedes it. -/
theorem compiles_push (b : Builder T) {node : CompiledNode T}
    (h : Writes (processNode item node) m) : Compiles item b (none :: m) (b.push node) := by
  intro rest
  obtain ⟨hsb, hwritten⟩ := writeFlush_eq b item
  have hpush : (b.push node).written item = b.writeFlush.written item ++ processNode item node := by
    rw [Builder.push, Builder.written, List.reverse_cons, processNodes_append, ← Builder.written]
    simp [processNodes]
  have hempty : (b.push node).sb = [] := hsb
  rw [hempty, hpush, hwritten, List.cons_append, encodeRuns_none, h, List.append_assoc,
    List.append_assoc]

theorem compiles_attrs (b : Builder T) (attrs : List (XmlAttr T)) :
    Compiles item b (attrs.flatMap (XmlAttr.marked item)) (attrs.foldl Builder.attr b) := by
  induction attrs generalizing b with
  | nil => exact .refl b
  | cons attr attrs ih =>
    rw [List.flatMap_cons, List.foldl_cons]
    refine Compiles.trans ?_ (ih (b.attr attr))
    cases attr with
    | keyValue key value => exact compiles_append b _
    | bindAttr fn =>
      apply compiles_push
      rw [processNode, ← streamWrite_append, ← streamWrite_append]
      exact writes_unitwise _

/-- A finished tree writes its marked text behind the prefix. -/
theorem processNodes_compile {raw : XmlNode T} (pre : Option (List UInt16))
    (h : Compiles item ⟨pre.getD [], []⟩ m (Builder.go raw ⟨pre.getD [], []⟩)) :
    processNodes item (compile raw pre) = encodeRuns (pre.getD []) m := by
  have hend := h []
  obtain ⟨-, hwritten⟩ := writeFlush_eq (Builder.go raw ⟨pre.getD [], []⟩) item
  rw [encodeRuns_nil, List.append_nil, ← hwritten] at hend
  exact hend

end Written

section Compiled

/-- A number is a text of ASCII characters. -/
theorem streamWrite_intText (v : Int32) : streamWrite (intText v) = writeInt v := by
  have hbyte : ∀ b ∈ writeInt v, streamWrite [b.toUInt16] = [b] := by
    intro b hb
    have hlt := UInt8.lt_iff_toNat_lt.mp (writeInt_lt v b hb)
    have hascii : b.toUInt16 < 128 := by
      rw [UInt16.lt_iff_toNat_lt, UInt8.toNat_toUInt16]
      exact hlt
    rw [streamWrite, List.flatMap_singleton, if_pos hascii, UInt8.toUInt8_toUInt16]
  rw [intText]
  generalize writeInt v = bytes at hbyte
  induction bytes with
  | nil => rfl
  | cons b bytes ih =>
    have hfirst := hbyte b List.mem_cons_self
    have hrest := ih fun b' hb' => hbyte b' (List.mem_cons_of_mem b hb')
    rw [List.map_cons, ← List.singleton_append, streamWrite_append, hfirst, hrest]
    rfl

mutual

/-- A tree compiles to its marked text. -/
theorem Template.compiles_build : {T : Type} → (t : Template T) → (item : T) → (b : Builder T) →
    Compiles item b (t.marked item) (b.go t.build)
  | _, .parentNode name attrs children, item, b => by
    have hname : Compiles item b _ _ := compiles_append b (units "<" ++ name)
    have hopen := hname.trans (compiles_attrs _ attrs)
    have hchildren := (hopen.trans (compiles_append _ (units ">"))).trans
      (children.compiles_build item _)
    exact hchildren.trans (compiles_append _ (units "</" ++ name ++ units ">"))
  | _, .voidNode name attrs, item, b => by
    have hname : Compiles item b _ _ := compiles_append b (units "<" ++ name)
    have hopen := hname.trans (compiles_attrs _ attrs)
    exact hopen.trans (compiles_append _ (units " />"))
  | _, .encodedText txt, _, b => compiles_append b (htmlEncode txt)
  | _, .rawText txt, _, b => compiles_append b txt
  | _, .bindStr fn, item, b => compiles_push b (writes_unitwise (htmlEncode (fn item)))
  | _, .bindInt fn, item, b => by
    have hwrites := writes_unitwise (intText (fn item))
    rw [streamWrite_intText] at hwrites
    exact compiles_push b hwrites
  | _, .bindIf predicate trueTemplate falseTemplate, item, b => by
    apply compiles_push
    rw [processNode]
    by_cases hpredicate : predicate item
    · rw [if_pos hpredicate, if_pos hpredicate,
        processNodes_compile none (trueTemplate.compiles_build item _)]
      exact writes_append_none _
    · rw [if_neg hpredicate, if_neg hpredicate,
        processNodes_compile none (falseTemplate.compiles_build item _)]
      exact writes_append_none _
  | _, .bindFor enumFn template, item, b => by
    apply compiles_push
    rw [processNode]
    apply writes_flatMap
    intro x
    rw [processNodes_compile none (template.compiles_build x _)]
    exact writes_append_none _

theorem Templates.compiles_build : {T : Type} → (ts : Templates T) → (item : T) → (b : Builder T) →
    Compiles item b (ts.marked item) (b.goAll ts.build)
  | _, .nil, _, b => .refl b
  | _, .cons child children, item, b =>
    (child.compiles_build item b).trans (children.compiles_build item _)

end

end Compiled

section Spaces

variable {T : Type} {n n' : ℕ} {full full' part part' : List UInt16}

/-- A part of a text lacks a number of spaces and nothing else. -/
structure LacksSpaces (n : ℕ) (full part : List UInt16) : Prop where
  count : full.count 32 = part.count 32 + n
  same : n = 0 → part = full

theorem LacksSpaces.refl (full : List UInt16) : LacksSpaces 0 full full := ⟨rfl, fun _ => rfl⟩

theorem LacksSpaces.append (h : LacksSpaces n full part) (h' : LacksSpaces n' full' part') :
    LacksSpaces (n + n') (full ++ full') (part ++ part') := by
  constructor
  · rw [List.count_append, List.count_append, h.count, h'.count]
    omega
  · intro hzero
    rw [h.same (by omega), h'.same (by omega)]

theorem LacksSpaces.flatMap {U : Type} {count : U → ℕ} {f g : U → List UInt16}
    (h : ∀ x, LacksSpaces (count x) (f x) (g x)) (xs : List U) :
    LacksSpaces (xs.map count).sum (xs.flatMap f) (xs.flatMap g) := by
  induction xs with
  | nil => exact .refl []
  | cons x xs ih => exact (h x).append ih

theorem reduceOption_map_some (s : List UInt16) : (s.map some).reduceOption = s := by
  rw [List.reduceOption, List.filterMap_map]
  exact List.filterMap_some

theorem reduceOption_flatMap {U : Type} (xs : List U) (g : U → List (Option UInt16)) :
    (xs.flatMap g).reduceOption = xs.flatMap fun x => (g x).reduceOption := by
  induction xs with
  | nil => rfl
  | cons x xs ih => rw [List.flatMap_cons, List.reduceOption_append, ih, List.flatMap_cons]

theorem reduceOption_unitwise (s : List UInt16) : (unitwise s).reduceOption = s := by
  rw [unitwise, reduceOption_flatMap]
  exact List.flatMap_singleton' s

/-- Each attribute lacks its space. -/
theorem lacksSpaces_attrs (item : T) (attrs : List (XmlAttr T)) :
    LacksSpaces attrs.length (attrs.flatMap (XmlAttr.render item))
      (attrs.flatMap (XmlAttr.marked item)).reduceOption := by
  have hattr : ∀ attr : XmlAttr T,
      LacksSpaces 1 (attr.render item) (attr.marked item).reduceOption := by
    intro attr
    have hspace : attr.render item = units " " ++ (attr.marked item).reduceOption := by
      cases attr with
      | keyValue key value =>
        rw [XmlAttr.render, XmlAttr.marked, reduceOption_map_some]
        simp only [List.append_assoc]
      | bindAttr fn =>
        rw [XmlAttr.render, XmlAttr.marked, List.reduceOption_cons_of_none, reduceOption_unitwise]
        simp only [List.append_assoc]
    constructor
    · rw [hspace, List.count_append]
      exact Nat.add_comm _ _
    · intro hone
      exact absurd hone Nat.one_ne_zero
  have hlength : (attrs.map fun _ => 1).sum = attrs.length := by simp
  have hall := LacksSpaces.flatMap hattr attrs
  rwa [hlength, ← reduceOption_flatMap] at hall

mutual

/-- The compiled text lacks the spaces of the attributes. -/
theorem Template.lacksSpaces : {T : Type} → (t : Template T) → (item : T) →
    LacksSpaces (t.attributes item) (t.render item) (t.marked item).reduceOption
  | _, .parentNode name attrs children, item => by
    have hopen := (LacksSpaces.refl (units "<" ++ name)).append (lacksSpaces_attrs item attrs)
    have hchildren := (hopen.append (.refl (units ">"))).append (children.lacksSpaces item)
    have hall := hchildren.append (.refl (units "</" ++ name ++ units ">"))
    rw [Nat.zero_add] at hall
    simp only [Template.marked, List.reduceOption_append, reduceOption_map_some]
    exact hall
  | _, .voidNode name attrs, item => by
    have hopen := (LacksSpaces.refl (units "<" ++ name)).append (lacksSpaces_attrs item attrs)
    have hall := hopen.append (.refl (units " />"))
    rw [Nat.zero_add] at hall
    simp only [Template.marked, List.reduceOption_append, reduceOption_map_some]
    exact hall
  | _, .encodedText txt, _ => by
    rw [Template.marked, reduceOption_map_some]
    exact .refl _
  | _, .rawText txt, _ => by
    rw [Template.marked, reduceOption_map_some]
    exact .refl _
  | _, .bindStr fn, _ => by
    rw [Template.marked, List.reduceOption_cons_of_none, reduceOption_unitwise]
    exact .refl _
  | _, .bindInt fn, _ => by
    rw [Template.marked, List.reduceOption_cons_of_none, reduceOption_unitwise]
    exact .refl _
  | _, .bindIf predicate trueTemplate falseTemplate, item => by
    rw [Template.marked, Template.attributes, Template.render, List.reduceOption_cons_of_none,
      List.reduceOption_append, List.reduceOption_singleton, Option.toList_none, List.append_nil]
    split
    · exact trueTemplate.lacksSpaces item
    · exact falseTemplate.lacksSpaces item
  | _, .bindFor enumFn template, item => by
    rw [Template.marked, Template.attributes, Template.render, List.reduceOption_cons_of_none,
      reduceOption_flatMap]
    apply LacksSpaces.flatMap
    intro x
    rw [List.reduceOption_append, List.reduceOption_singleton, Option.toList_none, List.append_nil]
    exact template.lacksSpaces x

theorem Templates.lacksSpaces : {T : Type} → (ts : Templates T) → (item : T) →
    LacksSpaces (ts.attributes item) (ts.render item) (ts.marked item).reduceOption
  | _, .nil, _ => .refl []
  | _, .cons child children, item => by
    rw [Templates.marked, List.reduceOption_append]
    exact (child.lacksSpaces item).append (children.lacksSpaces item)

end

end Spaces

/-- A compiled tree writes the rendering of the tree exactly if no attribute is rendered and no
surrogate pair of the text is cut around a node that depends on the model. -/
theorem processNodes_compile_eq_iff {T : Type} (t : Template T) (pre : Option (List UInt16))
    (item : T) :
    processNodes item (compile t.build pre) = encodeUtf8 (pre.getD [] ++ t.render item) ↔
      t.attributes item = 0 ∧ Unsplit (runsFrom (pre.getD []) (t.marked item)) := by
  have hlacks := (LacksSpaces.refl (pre.getD [])).append (t.lacksSpaces item)
  rw [Nat.zero_add] at hlacks
  rw [processNodes_compile pre (t.compiles_build item _), ← encodeRuns_eq_iff]
  constructor
  · intro heq
    have hcount := congrArg (List.count (32 : UInt16).toUInt8) heq
    rw [encodeRuns, count_flatMap_encodeUtf8 (by decide), flatten_runsFrom,
      count_encodeUtf8 (by decide), hlacks.count] at hcount
    have hzero : t.attributes item = 0 := by omega
    rw [← hlacks.same hzero] at heq
    exact ⟨hzero, heq⟩
  · rintro ⟨hzero, heq⟩
    rw [heq, hlacks.same hzero]

/-- An attribute, and the two halves of a pair around an empty bound string. -/
theorem processNodes_compile_void :
    processNodes () (compile (Template.voidNode (units "br")
        [.keyValue (units "id") (units "1")]).build none) = encodeUtf8 (units "<brid=1 />") ∧
      encodeUtf8 (units "<brid=1 />") ≠ encodeUtf8 ((Template.voidNode (units "br")
        [.keyValue (units "id") (units "1")]).render ()) ∧
      processNodes () (compile (Template.parentNode (units "p") [] (.cons (.rawText [0xD83D])
        (.cons (.bindStr fun _ => []) (.cons (.rawText [0xDE00]) .nil)))).build none) ≠
          encodeUtf8 (units "<p>" ++ [0xD83D, 0xDE00] ++ units "</p>") := by
  decide +kernel

end FrameworkBenchmarks.Zebra
