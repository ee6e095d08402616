import FrameworkBenchmarks.Zebra.TemplateStream
import FrameworkBenchmarks.Zebra.TextOutput

/-!
# The template engine

`compile` turns a tree into a sequence of nodes: static text is collected in a string builder, which
is flushed in front of each node that depends on the model. A node that writes to the stream is
modelled by the bytes it writes.
-/

namespace FrameworkBenchmarks.Zebra

open Common

inductive CompiledNode (T : Type) where
  | cText (v : List UInt8)
  | cAttr (fn : T → List UInt16 × List UInt16)
  | cBindStr (fn : T → List UInt16)
  | cBindInt (fn : T → Int32)
  | cBindIf (pred : T → Bool) (trueFns falseFns : List (CompiledNode T))
  | cBindFor (fn : T → List UInt8)

inductive XmlAttr (T : Type) where
  | keyValue (key value : List UInt16)
  | bindAttr (fn : T → List UInt16 × List UInt16)

inductive XmlNode (T : Type) where
  | parentNode (name : List UInt16) (attrs : List (XmlAttr T)) (children : List (XmlNode T))
  | voidNode (name : List UInt16) (attrs : List (XmlAttr T))
  | encodedText (txt : List UInt16)
  | rawText (txt : List UInt16)
  | bindStr (fn : T → List UInt16)
  | bindInt (fn : T → Int32)
  | bindIf (p : T → Bool) (t f : List (CompiledNode T))
  | bindFor (fn : T → List UInt8)

section HtmlEncode

/-- A numeric character reference. -/
def charReference (n : ℕ) : List UInt16 := units "&#" ++ units (toString n) ++ units ";"

/-- `WebUtility.HtmlEncode` of a unit that is no half of a pair. -/
def htmlEncodeChar (c : UInt16) : List UInt16 :=
  if c = 60 then units "&lt;"
  else if c = 62 then units "&gt;"
  else if c = 34 then units "&quot;"
  else if c = 39 then units "&#39;"
  else if c = 38 then units "&amp;"
  else if 160 ≤ c ∧ c < 256 then charReference c.toNat
  else if IsHigh c ∨ IsLow c then [0xFFFD]
  else [c]

/-- `WebUtility.HtmlEncode` -/
def htmlEncode : List UInt16 → List UInt16
  | [] => []
  | [c] => htmlEncodeChar c
  | c :: d :: s =>
    if IsHigh c ∧ IsLow d then charReference (pairValue c d).toNat ++ htmlEncode s
    else htmlEncodeChar c ++ htmlEncode (d :: s)

end HtmlEncode

section Compile

variable {T : Type}

/-- The string builder, and the compiled nodes in reverse order. -/
structure Builder (T : Type) where
  sb : List UInt16
  acc : List (CompiledNode T)

namespace Builder

/-- `sb.Append` -/
def append (b : Builder T) (s : List UInt16) : Builder T := { b with sb := b.sb ++ s }

/-- `writeFlush` -/
def writeFlush (b : Builder T) : Builder T :=
  if b.sb.length > 0 then ⟨[], .cText (encodeUtf8 b.sb) :: b.acc⟩ else b

/-- A node is put behind the text before it. -/
def push (b : Builder T) (node : CompiledNode T) : Builder T :=
  { b.writeFlush with acc := node :: b.writeFlush.acc }

/-- The loop over the attributes. -/
def attr (b : Builder T) : XmlAttr T → Builder T
  | .keyValue key value => b.append (key ++ units "=" ++ value)
  | .bindAttr fn => b.push (.cAttr fn)

mutual

/-- The function `go` of `compile`. -/
def go : XmlNode T → Builder T → Builder T
  | .parentNode name attrs children, b =>
    let b := attrs.foldl attr (b.append (units "<" ++ name))
    (goAll children (b.append (units ">"))).append (units "</" ++ name ++ units ">")
  | .voidNode name attrs, b =>
    (attrs.foldl attr (b.append (units "<" ++ name))).append (units " />")
  | .encodedText txt, b => b.append (htmlEncode txt)
  | .rawText txt, b => b.append txt
  | .bindStr fn, b => b.push (.cBindStr fn)
  | .bindInt fn, b => b.push (.cBindInt fn)
  | .bindIf p t f, b => b.push (.cBindIf p t f)
  | .bindFor fn, b => b.push (.cBindFor fn)

/-- The loop over the children. -/
def goAll : List (XmlNode T) → Builder T → Builder T
  | [], b => b
  | child :: children, b => goAll children (go child b)

end

end Builder

/-- `compile` -/
def compile (raw : XmlNode T) (pre : Option (List UInt16)) : List (CompiledNode T) :=
  (Builder.go raw ⟨pre.getD [], []⟩).writeFlush.acc.reverse

mutual

/-- What a node writes. -/
def processNode (item : T) : CompiledNode T → List UInt8
  | .cText v => v
  | .cBindStr fn => streamWrite (htmlEncode (fn item))
  | .cBindInt fn => writeInt (fn item)
  | .cAttr fn => streamWrite (fn item).1 ++ streamWrite (units "=") ++ streamWrite (fn item).2
  | .cBindIf pred trueFns falseFns =>
    if pred item then processNodes item trueFns else processNodes item falseFns
  | .cBindFor fn => fn item

/-- `processNodes` -/
def processNodes (item : T) : List (CompiledNode T) → List UInt8
  | [] => []
  | node :: nodes => processNode item node ++ processNodes item nodes

end

/-- `compileDoc` -/
def compileDoc (raw : XmlNode T) : List (CompiledNode T) :=
  compile raw (some (units "<!DOCTYPE html>"))

/-- `bindFor` -/
def bindFor {U : Type} (enumFn : T → List U) (template : XmlNode U) : XmlNode T :=
  let compiledNodes := compile template none
  .bindFor fun model => (enumFn model).flatMap fun item => processNodes item compiledNodes

/-- `bindIf` -/
def bindIf (predicate : T → Bool) (trueTemplate falseTemplate : XmlNode T) : XmlNode T :=
  .bindIf predicate (compile trueTemplate none) (compile falseTemplate none)

end Compile

mutual

/-- How a tree is built. -/
inductive Template : Type → Type 1 where
  | parentNode {T : Type} (name : List UInt16) (attrs : List (XmlAttr T)) (children : Templates T) :
    Template T
  | voidNode {T : Type} (name : List UInt16) (attrs : List (XmlAttr T)) : Template T
  | encodedText {T : Type} (txt : List UInt16) : Template T
  | rawText {T : Type} (txt : List UInt16) : Template T
  | bindStr {T : Type} (fn : T → List UInt16) : Template T
  | bindInt {T : Type} (fn : T → Int32) : Template T
  | bindIf {T : Type} (predicate : T → Bool) (trueTemplate falseTemplate : Template T) : Template T
  | bindFor {T U : Type} (enumFn : T → List U) (template : Template U) : Template T

/-- The children of a node. -/
inductive Templates : Type → Type 1 where
  | nil {T : Type} : Templates T
  | cons {T : Type} (child : Template T) (children : Templates T) : Templates T

end

mutual

/-- The tree. -/
def Template.build : {T : Type} → Template T → XmlNode T
  | _, .parentNode name attrs children => .parentNode name attrs children.build
  | _, .voidNode name attrs => .voidNode name attrs
  | _, .encodedText txt => .encodedText txt
  | _, .rawText txt => .rawText txt
  | _, .bindStr fn => .bindStr fn
  | _, .bindInt fn => .bindInt fn
  | _, .bindIf predicate trueTemplate falseTemplate =>
    Zebra.bindIf predicate trueTemplate.build falseTemplate.build
  | _, .bindFor enumFn template => Zebra.bindFor enumFn template.build

def Templates.build : {T : Type} → Templates T → List (XmlNode T)
  | _, .nil => []
  | _, .cons child children => child.build :: children.build

end

end FrameworkBenchmarks.Zebra
