import Mathlib
import FrameworkBenchmarks.Toolset.DiffSelection

/-!
# The fortune page parser

`FortuneHTMLParser` gets the tokens of a page from Python's HTML parser, appends a normalised spelling of
each to its body, and compares the joined body with the text of a valid page.

Tokens the class does not handle, attributes and the difference printed for an invalid page are left out.
-/

namespace FrameworkBenchmarks.Toolset

/-- `str.lower` on ASCII letters. Tag names and character references have no others, and no other
letter of a declaration becomes one of `doctype html`. -/
def lower (s : Text) : Text := s.map Char.toLower

/-! ### Tokens -/

/-- A tag name starts with a letter and does not close its tag. -/
structure TagName where
  text : Text
  letter : text.head?.any Char.isAlpha = true
  closed : '>' ∉ text

/-- The text of a declaration does not close it. -/
structure Declaration where
  text : Text
  closed : '>' ∉ text

/-- The name in a named character reference. -/
structure EntityName where
  text : Text
  wellFormed : ∀ c ∈ text, c.isAlphanum = true ∨ c = '-' ∨ c = '.'

/-- A call of the HTML parser. -/
inductive Token where
  | decl (d : Declaration)
  | charref (name : Text)
  | entityref (name : EntityName)
  | startTag (tag : TagName)
  | data (d : Text)
  | endTag (tag : TagName)

/-! ### Parser -/

structure FortuneParser where
  ignoreContent : Bool := false
  body : List Text := []

def scriptTag : Text := "<script>".toList

def scriptEndTag : Text := "</script>".toList

/-- `IGNORED_TAGS` -/
def ignoredTags : List Text :=
  ["<meta>".toList, "</meta>".toList, "<link>".toList, "</link>".toList, scriptTag, scriptEndTag,
    "<thead>".toList, "</thead>".toList, "<tbody>".toList, "</tbody>".toList]

/-- The value of `ignore_content` after an item. -/
def ignores (ignoring : Bool) (item : Text) : Bool :=
  item = scriptTag || (ignoring && item ≠ scriptEndTag)

def FortuneParser.append (p : FortuneParser) (item : Text) : FortuneParser :=
  let ignoring := ignores p.ignoreContent item
  { ignoreContent := ignoring
    body := if ignoring || item ∈ ignoredTags then p.body else p.body ++ [item] }

/-- The spellings that `handle_charref` compares with, and what it appends for them. -/
def charrefs : List (List Text × Text) :=
  [(["34".toList, "034".toList, "x22".toList], "&quot;".toList),
    (["39".toList, "039".toList, "x27".toList], "&apos;".toList),
    (["43".toList, "043".toList, "x2b".toList], "+".toList),
    (["62".toList, "062".toList, "x3e".toList], "&gt;".toList),
    (["60".toList, "060".toList, "x3c".toList], "&lt;".toList),
    (["47".toList, "047".toList, "x2f".toList], "/".toList),
    (["40".toList, "040".toList, "x28".toList], "(".toList),
    (["41".toList, "041".toList, "x29".toList], ")".toList)]

def FortuneParser.handleDecl (p : FortuneParser) (decl : Text) : FortuneParser :=
  p.append ("<!".toList ++ lower decl ++ ">".toList)

/-- The source writes the rows of the table one after the other. -/
def FortuneParser.handleCharref (p : FortuneParser) (name : Text) : FortuneParser :=
  charrefs.foldl (fun p row => if lower name ∈ row.1 then p.append row.2 else p) p

def FortuneParser.handleEntityref (p : FortuneParser) (name : Text) : FortuneParser :=
  if name = "mdash".toList then p.append "—".toList
  else p.append ("&".toList ++ name ++ ";".toList)

def FortuneParser.handleStarttag (p : FortuneParser) (tag : Text) : FortuneParser :=
  let p := p.append ("<".toList ++ tag ++ ">".toList)
  if lower tag = "table".toList ∨ lower tag = "html".toList then p.append "\n".toList else p

/-- `data.replace` -/
def replace (c : Char) (spelling data : Text) : Text :=
  data.flatMap fun d => if d = c then spelling else [d]

def FortuneParser.handleData (p : FortuneParser) (data : Text) : FortuneParser :=
  if strip data ≠ [] then
    let data := replace '\'' "&apos;".toList data
    let data := replace '"' "&quot;".toList data
    let data := replace '>' "&gt;".toList data
    p.append data
  else p

def FortuneParser.handleEndtag (p : FortuneParser) (tag : Text) : FortuneParser :=
  let p := p.append ("</".toList ++ tag ++ ">".toList)
  if lower tag = "tr".toList ∨ lower tag = "head".toList then p.append "\n".toList else p

def FortuneParser.handle (p : FortuneParser) : Token → FortuneParser
  | .decl d => p.handleDecl d.text
  | .charref name => p.handleCharref name
  | .entityref name => p.handleEntityref name.text
  | .startTag tag => p.handleStarttag tag.text
  | .data d => p.handleData d
  | .endTag tag => p.handleEndtag tag.text

def FortuneParser.feed (p : FortuneParser) (tokens : List Token) : FortuneParser :=
  tokens.foldl FortuneParser.handle p

/-- `valid_fortune` -/
def validFortune : Text := [
  "<!doctype html><html>\n",
  "<head><title>Fortunes</title></head>\n",
  "<body><table>\n",
  "<tr><th>id</th><th>message</th></tr>\n",
  "<tr><td>11</td><td>&lt;script&gt;alert(&quot;This should not be displayed in a browser alert box.&quot;);&lt;/script&gt;</td></tr>\n",
  "<tr><td>4</td><td>A bad random number generator: 1, 1, 1, 1, 1, 4.33e+67, 1, 1, 1</td></tr>\n",
  "<tr><td>5</td><td>A computer program does what you tell it to do, not what you want it to do.</td></tr>\n",
  "<tr><td>2</td><td>A computer scientist is someone who fixes things that aren&apos;t broken.</td></tr>\n",
  "<tr><td>8</td><td>A list is only as strong as its weakest link. — Donald Knuth</td></tr>\n",
  "<tr><td>0</td><td>Additional fortune added at request time.</td></tr>\n",
  "<tr><td>3</td><td>After enough decimal places, nobody gives a damn.</td></tr>\n",
  "<tr><td>7</td><td>Any program that runs right is obsolete.</td></tr>\n",
  "<tr><td>10</td><td>Computers make very fast, very accurate mistakes.</td></tr>\n",
  "<tr><td>6</td><td>Emacs is a nice operating system, but I prefer UNIX. — Tom Christaensen</td></tr>\n",
  "<tr><td>9</td><td>Feature: A bug with seniority.</td></tr>\n",
  "<tr><td>1</td><td>fortune: No such file or directory</td></tr>\n",
  "<tr><td>12</td><td>フレームワークのベンチマーク</td></tr>\n",
  "</table></body></html>"].flatMap String.toList

/-- Whether the page is valid, the first part of the result. -/
def FortuneParser.isValidFortune (p : FortuneParser) : Bool := validFortune = p.body.flatten

end FrameworkBenchmarks.Toolset
