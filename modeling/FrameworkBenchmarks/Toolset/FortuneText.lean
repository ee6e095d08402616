import FrameworkBenchmarks.Toolset.FortuneParser

/-!
# Rendered text of a page

A page shows a sequence of tags and characters. The parser reads another one: it drops numeric references
it does not list and blank pieces of data, and takes the text `&lt;` for the character it would denote.
Its body is the escaped spelling of that sequence, from which the sequence can be read back.
-/

namespace FrameworkBenchmarks.Toolset

/-! ### What a page shows -/

inductive Item where
  | tag (text : Text)
  | char (c : Char)
  deriving DecidableEq

/-- The characters HTML's references denote. -/
structure References where
  named : Text → Text
  numeric : ℕ → Char
  named_lt : named "lt".toList = ['<']
  named_gt : named "gt".toList = ['>']
  named_quot : named "quot".toList = ['"']
  named_apos : named "apos".toList = ['\'']
  named_mdash : named "mdash".toList = ['—']
  numeric_ascii : ∀ n, 0 < n → n < 128 → numeric n = Char.ofNat n

def digit (c : Char) : ℕ := if '0' ≤ c ∧ c ≤ '9' then c.toNat - 48 else c.toNat - 87

def number (base : ℕ) (digits : Text) : ℕ := digits.foldl (fun n c => base * n + digit c) 0

/-- A hexadecimal number after an `x`, else a decimal one. -/
def valueOf : Text → ℕ
  | 'x' :: digits => number 16 digits
  | digits => number 10 digits

/-- The number in a reference. -/
def charrefValue (name : Text) : ℕ := valueOf (lower name)

def ignoredNames : List Text :=
  ["meta".toList, "link".toList, "script".toList, "thead".toList, "tbody".toList]

def Token.isIgnored : Token → Bool
  | .startTag tag => tag.text ∈ ignoredNames
  | .endTag tag => tag.text ∈ ignoredNames
  | _ => false

/-- Whether a script is open after the token. -/
def Token.inScript (inScript : Bool) : Token → Bool
  | .startTag tag => tag.text = "script".toList || inScript
  | .endTag tag => inScript && tag.text ≠ "script".toList
  | _ => inScript

/-- The tokens outside of scripts, without the ignored tags. -/
def visible (inScript : Bool) : List Token → List Token
  | [] => []
  | t :: ts =>
    if t.inScript inScript || t.isIgnored then visible (t.inScript inScript) ts
    else t :: visible (t.inScript inScript) ts

/-- The tag of a token, or the characters it denotes. -/
def Token.shows (refs : References) : Token → List Item
  | .decl d => [.tag ('!' :: lower d.text)]
  | .charref name => [.char (refs.numeric (charrefValue name))]
  | .entityref name => (refs.named name.text).map .char
  | .startTag tag => [.tag tag.text]
  | .data d => d.map .char
  | .endTag tag => [.tag ('/' :: tag.text)]

def shown (refs : References) (tokens : List Token) : List Item :=
  (visible false tokens).flatMap (Token.shows refs)

/-- A text between two tags, unless it is whitespace. -/
def textItems (text : Text) : List Item := if text.all isSpace then [] else text.map .char

/-- Without the texts that are only whitespace; the text up to here is given. -/
def normaliseFrom (text : Text) : List Item → List Item
  | [] => textItems text
  | .tag t :: items => textItems text ++ .tag t :: normaliseFrom [] items
  | .char c :: items => normaliseFrom (text ++ [c]) items

def normalise (items : List Item) : List Item := normaliseFrom [] items

/-! ### What the parser reads -/

/-- The numeric references `handle_charref` lists. -/
def IsListed (name : Text) : Prop := ∃ row ∈ charrefs, lower name ∈ row.1

instance (name : Text) : Decidable (IsListed name) := by unfold IsListed; infer_instance

/-- Like `Token.shows`, without unlisted numeric references and blank data. -/
def Token.reads (refs : References) : Token → List Item
  | .charref name => if IsListed name then [.char (refs.numeric (charrefValue name))] else []
  | .data d => if strip d ≠ [] then d.map .char else []
  | t => t.shows refs

def reading (refs : References) (tokens : List Token) : List Item :=
  (visible false tokens).flatMap (Token.reads refs)

/-- The references in the spelling of a valid page, after their ampersand. -/
def spellings : List (Text × Char) :=
  [("lt;".toList, '<'), ("gt;".toList, '>'), ("quot;".toList, '"'), ("apos;".toList, '\'')]

/-- No `<` in data, and no named references but those of the spellings and `mdash`. -/
def Token.Plain : Token → Prop
  | .entityref name => name.text = "mdash".toList ∨ ∃ row ∈ spellings, name.text ++ [';'] = row.1
  | .data d => '<' ∉ d
  | _ => True

def Plain (tokens : List Token) : Prop := ∀ t ∈ visible false tokens, t.Plain

/-- Takes the texts of references for the characters they denote, after skipping some items. -/
def collapseFrom : ℕ → List Item → List Item
  | _, [] => []
  | skip + 1, _ :: items => collapseFrom skip items
  | 0, item :: items =>
    match spellings.find? fun row => item = .char '&' && (row.1.map Item.char).isPrefixOf items with
    | some row => .char row.2 :: collapseFrom row.1.length items
    | none => item :: collapseFrom 0 items

def collapse (items : List Item) : List Item := collapseFrom 0 items

/-! ### Spelling -/

def escapeChar (c : Char) : Text :=
  match spellings.find? fun row => row.2 = c with
  | some row => '&' :: row.1
  | none => [c]

/-- The line ends the parser adds. -/
def newline (tag : Text) : Text :=
  if lower tag ∈ ["table".toList, "html".toList, "/tr".toList, "/head".toList] then ['\n'] else []

def Item.escape : Item → Text
  | .tag t => '<' :: t ++ '>' :: newline t
  | .char c => escapeChar c

def escape (items : List Item) : Text := items.flatMap Item.escape

/-- Reads tags, and characters spelled directly or by a named reference, after skipping some characters;
`after` is the number of characters that belong to a tag behind it. -/
def lexFrom (after : Text → ℕ) : ℕ → Text → List Item
  | _, [] => []
  | skip + 1, _ :: s => lexFrom after skip s
  | 0, c :: s =>
    if c = '<' then
      let t := s.takeWhile (· ≠ '>')
      .tag t :: lexFrom after (t.length + 1 + after t) s
    else
      match spellings.find? fun row => c = '&' && row.1.isPrefixOf s with
      | some row => .char row.2 :: lexFrom after row.1.length s
      | none => .char c :: lexFrom after 0 s

/-- What the valid page shows. -/
def validItems : List Item := normalise (lexFrom (fun _ => 0) 0 validFortune)

end FrameworkBenchmarks.Toolset
