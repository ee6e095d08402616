import FrameworkBenchmarks.Toolset.FortuneSpelling

/-!
# Acceptance of a page

The body of the parser is the escaped spelling of what the parser reads, so it accepts a page exactly when
it reads the valid one. That decides what the page shows unless a valid page is spelled in a way the parser
does not read, or reading makes an invalid page valid.
-/

namespace FrameworkBenchmarks.Toolset

/-! ### Items appended -/

/-- The item appended for data. -/
def escapeData (d : Text) : Text :=
  replace '>' "&gt;".toList (replace '"' "&quot;".toList (replace '\'' "&apos;".toList d))

/-- The items appended for a token. -/
def Token.pieces : Token → List Text
  | .decl d => ["<!".toList ++ lower d.text ++ ">".toList]
  | .charref name => (charrefs.filter fun row => lower name ∈ row.1).map Prod.snd
  | .entityref name =>
    if name.text = "mdash".toList then ["—".toList] else ["&".toList ++ name.text ++ ";".toList]
  | .startTag tag => ("<".toList ++ tag.text ++ ">".toList) ::
    if lower tag.text = "table".toList ∨ lower tag.text = "html".toList then ["\n".toList] else []
  | .data d => if strip d ≠ [] then [escapeData d] else []
  | .endTag tag => ("</".toList ++ tag.text ++ ">".toList) ::
    if lower tag.text = "tr".toList ∨ lower tag.text = "head".toList then ["\n".toList] else []

theorem foldl_charrefs (rows : List (List Text × Text)) (val : Text) (p : FortuneParser) :
    rows.foldl (fun p row => if val ∈ row.1 then p.append row.2 else p) p =
      ((rows.filter fun row => val ∈ row.1).map Prod.snd).foldl FortuneParser.append p := by
  induction rows generalizing p with
  | nil => rfl
  | cons row rows ih =>
    rw [List.foldl_cons, ih]
    by_cases h : val ∈ row.1 <;> simp [h]

theorem FortuneParser.handle_eq (p : FortuneParser) (t : Token) :
    p.handle t = t.pieces.foldl FortuneParser.append p := by
  cases t with
  | decl d => rfl
  | charref name => exact foldl_charrefs charrefs (lower name) p
  | entityref name =>
    simp only [FortuneParser.handle, FortuneParser.handleEntityref, Token.pieces]
    split <;> rfl
  | startTag tag =>
    simp only [FortuneParser.handle, FortuneParser.handleStarttag, Token.pieces, List.foldl_cons]
    split <;> rfl
  | data d =>
    simp only [FortuneParser.handle, FortuneParser.handleData, Token.pieces]
    split <;> rfl
  | endTag tag =>
    simp only [FortuneParser.handle, FortuneParser.handleEndtag, Token.pieces, List.foldl_cons]
    split <;> rfl

/-! ### Ignored content -/

/-- Only tags are ignored. -/
theorem not_mem_ignoredTags {item : Text} (h : '>' ∉ item) : item ∉ ignoredTags := by
  have hcloses : ∀ tag ∈ ignoredTags, '>' ∈ tag := by decide
  exact fun hmem => h (hcloses item hmem)

/-- Any other item is appended unless a script is open. -/
theorem FortuneParser.append_kept (p : FortuneParser) {item : Text} (h : item ∉ ignoredTags) :
    p.append item = ⟨p.ignoreContent, p.body ++ if p.ignoreContent then [] else [item]⟩ := by
  have hscript : item ≠ scriptTag := by
    rintro rfl
    exact h (by decide)
  have hend : item ≠ scriptEndTag := by
    rintro rfl
    exact h (by decide)
  cases hignore : p.ignoreContent <;> simp [FortuneParser.append, ignores, hscript, hend, h, hignore]

theorem FortuneParser.foldl_append_kept (pieces : List Text) (p : FortuneParser)
    (h : ∀ item ∈ pieces, item ∉ ignoredTags) :
    pieces.foldl FortuneParser.append p =
      ⟨p.ignoreContent, p.body ++ if p.ignoreContent then [] else pieces⟩ := by
  induction pieces generalizing p with
  | nil => simp
  | cons item pieces ih =>
    rw [List.foldl_cons, p.append_kept (h item List.mem_cons_self),
      ih _ (fun item' hitem' => h item' (List.mem_cons_of_mem _ hitem'))]
    cases p.ignoreContent <;> simp

theorem scriptTag_eq : scriptTag = "<".toList ++ "script".toList ++ ">".toList := by decide

theorem scriptEndTag_eq : scriptEndTag = "</".toList ++ "script".toList ++ ">".toList := by decide

theorem tagItem_inj {t u : Text} :
    "<".toList ++ t ++ ">".toList = "<".toList ++ u ++ ">".toList ↔ t = u := by
  simp

theorem endTagItem_inj {t u : Text} :
    "</".toList ++ t ++ ">".toList = "</".toList ++ u ++ ">".toList ↔ t = u := by
  simp

theorem TagName.ne_slash (tag : TagName) (u : Text) : tag.text ≠ '/' :: u := by
  intro h
  have hletter := tag.letter
  rw [h, List.head?_cons, Option.any_some] at hletter
  exact absurd hletter (by decide)

/-- A start tag is not an end tag. -/
theorem TagName.start_ne_end (tag : TagName) (u : Text) :
    "<".toList ++ tag.text ++ ">".toList ≠ "</".toList ++ u ++ ">".toList := by
  intro h
  have htext : tag.text ++ ['>'] = ('/' :: u) ++ ['>'] := by simpa using h
  exact tag.ne_slash u (List.append_cancel_right htext)

theorem mem_ignoredTags {item : Text} : item ∈ ignoredTags ↔
    ∃ name ∈ ignoredNames, item = "<".toList ++ name ++ ">".toList ∨
      item = "</".toList ++ name ++ ">".toList := by
  have h : ignoredTags = ignoredNames.flatMap fun name =>
      ["<".toList ++ name ++ ">".toList, "</".toList ++ name ++ ">".toList] := by decide
  rw [h, List.mem_flatMap]
  simp

theorem ignoredNames_ne_slash : ∀ name ∈ ignoredNames, name.head? ≠ some '/' := by decide

theorem TagName.start_mem_ignoredTags (tag : TagName) :
    "<".toList ++ tag.text ++ ">".toList ∈ ignoredTags ↔ tag.text ∈ ignoredNames := by
  rw [mem_ignoredTags]
  constructor
  · rintro ⟨name, hname, heq | heq⟩
    · rwa [tagItem_inj.mp heq]
    · exact absurd heq (tag.start_ne_end name)
  · intro h
    exact ⟨tag.text, h, .inl rfl⟩

theorem TagName.end_mem_ignoredTags (tag : TagName) :
    "</".toList ++ tag.text ++ ">".toList ∈ ignoredTags ↔ tag.text ∈ ignoredNames := by
  rw [mem_ignoredTags]
  constructor
  · rintro ⟨name, hname, heq | heq⟩
    · have htext : ('/' :: tag.text) ++ ['>'] = name ++ ['>'] := by simpa using heq
      have hslash := congrArg List.head? (List.append_cancel_right htext)
      exact absurd hslash.symm (ignoredNames_ne_slash name hname)
    · rwa [endTagItem_inj.mp heq]
  · intro h
    exact ⟨tag.text, h, .inr rfl⟩

/-- The tags that end a line are not ignored. -/
theorem lower_ignoredNames : ∀ name ∈ ignoredNames, lower name ≠ "table".toList ∧
    lower name ≠ "html".toList ∧ lower name ≠ "tr".toList ∧ lower name ≠ "head".toList := by decide

/-- The first item of a tag, then the line end. -/
theorem FortuneParser.append_tag (p : FortuneParser) {item : Text} {ignoring ignored : Bool}
    {lineEnd : Prop} [Decidable lineEnd] (hignoring : ignores p.ignoreContent item = ignoring)
    (hignored : item ∈ ignoredTags ↔ ignored = true) (hend : lineEnd → ignored = false) :
    (item :: if lineEnd then ["\n".toList] else []).foldl FortuneParser.append p =
      ⟨ignoring, p.body ++ if ignoring || ignored then [] else
        item :: if lineEnd then ["\n".toList] else []⟩ := by
  have hitem : p.append item =
      ⟨ignoring, if ignoring || ignored then p.body else p.body ++ [item]⟩ := by
    unfold FortuneParser.append
    cases ignored <;> simp_all
  have hkept : ∀ text ∈ (if lineEnd then ["\n".toList] else []), text ∉ ignoredTags := by
    intro text htext
    apply not_mem_ignoredTags
    split at htext <;> simp_all
  rw [List.foldl_cons, hitem, FortuneParser.foldl_append_kept _ _ hkept]
  cases ignoring with
  | true => simp
  | false =>
    by_cases hline : lineEnd
    · simp [hline, hend hline]
    · cases ignored <;> simp [hline]

theorem not_mem_replace {c d : Char} {spelling data : Text} (hspelling : d ∉ spelling)
    (hdata : c = d ∨ d ∉ data) : d ∉ replace c spelling data := by
  unfold replace
  intro h
  obtain ⟨e, he, hd⟩ := List.mem_flatMap.mp h
  split at hd
  · exact hspelling hd
  · rename_i hne
    rw [List.mem_singleton] at hd
    subst hd
    obtain rfl | hdata := hdata
    · exact hne rfl
    · exact hdata he

theorem not_mem_charref (name : Text) : ∀ item ∈ (Token.charref name).pieces, '>' ∉ item := by
  have hcharrefs : ∀ row ∈ charrefs, '>' ∉ row.2 := by decide
  intro item hitem
  obtain ⟨row, hrow, rfl⟩ := List.mem_map.mp hitem
  exact hcharrefs row (List.mem_of_mem_filter hrow)

theorem EntityName.not_mem (name : EntityName) {c : Char}
    (hc : ¬(c.isAlphanum = true ∨ c = '-' ∨ c = '.')) : c ∉ name.text :=
  fun h => hc (name.wellFormed c h)

theorem not_mem_entityref (name : EntityName) : ∀ item ∈ (Token.entityref name).pieces, '>' ∉ item := by
  have hname : '>' ∉ name.text := name.not_mem (by decide)
  intro item hitem
  simp only [Token.pieces] at hitem
  split at hitem <;> simp_all

theorem not_mem_data (d : Text) : ∀ item ∈ (Token.data d).pieces, '>' ∉ item := by
  intro item hitem
  simp only [Token.pieces] at hitem
  split at hitem
  · rw [List.mem_singleton] at hitem
    subst hitem
    exact not_mem_replace (by decide) (.inl rfl)
  · exact absurd hitem List.not_mem_nil

theorem not_mem_ignoredTags_decl (d : Declaration) :
    ∀ item ∈ (Token.decl d).pieces, item ∉ ignoredTags := by
  intro item hitem
  rw [Token.pieces, List.mem_singleton] at hitem
  subst hitem
  intro h
  have hsecond : ∀ tag ∈ ignoredTags, tag[1]? ≠ some '!' := by decide
  exact hsecond _ h rfl

/-- What one token does. -/
theorem FortuneParser.handle_spec (p : FortuneParser) (t : Token) :
    p.handle t = ⟨t.inScript p.ignoreContent, p.body ++
      if t.inScript p.ignoreContent || t.isIgnored then [] else t.pieces⟩ := by
  rw [p.handle_eq]
  cases t with
  | startTag tag =>
    apply p.append_tag
    · have hscript : "<".toList ++ tag.text ++ ">".toList = scriptTag ↔ tag.text = "script".toList := by
        rw [scriptTag_eq, tagItem_inj]
      have hend : "<".toList ++ tag.text ++ ">".toList ≠ scriptEndTag := by
        rw [scriptEndTag_eq]
        exact tag.start_ne_end _
      simp only [ignores, hscript, hend, ne_eq, not_false_eq_true, decide_true, Bool.and_true,
        Token.inScript]
    · simp only [tag.start_mem_ignoredTags, Token.isIgnored, decide_eq_true_eq]
    · intro hline
      simp only [Token.isIgnored, decide_eq_false_iff_not]
      intro hmem
      have := lower_ignoredNames _ hmem
      tauto
  | endTag tag =>
    apply p.append_tag
    · have hscript : "</".toList ++ tag.text ++ ">".toList = scriptEndTag ↔
          tag.text = "script".toList := by
        rw [scriptEndTag_eq, endTagItem_inj]
      have hstart : "</".toList ++ tag.text ++ ">".toList ≠ scriptTag := by
        intro h
        have hsecond : scriptTag[1]? = some '/' := congrArg (·[1]?) h.symm
        exact absurd hsecond (by decide)
      simp only [ignores, hscript, hstart, ne_eq, decide_false, Bool.false_or, Token.inScript]
    · simp only [tag.end_mem_ignoredTags, Token.isIgnored, decide_eq_true_eq]
    · intro hline
      simp only [Token.isIgnored, decide_eq_false_iff_not]
      intro hmem
      have := lower_ignoredNames _ hmem
      tauto
  | decl d =>
    rw [p.foldl_append_kept _ (not_mem_ignoredTags_decl d)]
    simp only [Token.inScript, Token.isIgnored, Bool.or_false]
  | charref name =>
    rw [p.foldl_append_kept _ fun item hitem => not_mem_ignoredTags (not_mem_charref name item hitem)]
    simp only [Token.inScript, Token.isIgnored, Bool.or_false]
  | entityref name =>
    rw [p.foldl_append_kept _ fun item hitem => not_mem_ignoredTags (not_mem_entityref name item hitem)]
    simp only [Token.inScript, Token.isIgnored, Bool.or_false]
  | data d =>
    rw [p.foldl_append_kept _ fun item hitem => not_mem_ignoredTags (not_mem_data d item hitem)]
    simp only [Token.inScript, Token.isIgnored, Bool.or_false]

theorem FortuneParser.feed_body (tokens : List Token) (p : FortuneParser) :
    (p.feed tokens).body = p.body ++ (visible p.ignoreContent tokens).flatMap Token.pieces := by
  induction tokens generalizing p with
  | nil => exact (List.append_nil _).symm
  | cons t ts ih =>
    have hfeed : p.feed (t :: ts) = (p.handle t).feed ts := rfl
    rw [hfeed, ih, p.handle_spec, visible]
    cases t.inScript p.ignoreContent || t.isIgnored <;> simp

/-! ### The body as a spelling -/

theorem eq_of_toLower_eq {c d : Char} (hd : d.isLower = false) (h : c.toLower = d) : c = d := by
  unfold Char.toLower at h
  split at h
  · rename_i hupper
    subst h
    have hlow : 65 ≤ c.val.toNat := UInt32.le_iff_toNat_le.mp hupper.1
    have hhigh : c.val.toNat ≤ 90 := UInt32.le_iff_toNat_le.mp hupper.2
    have hval : (c.val + ('a'.val - 'A'.val)).toNat = c.val.toNat + 32 := by
      have : (('a'.val - 'A'.val : UInt32)).toNat = 32 := by decide
      rw [UInt32.toNat_add, this]
      omega
    have hge : 'a'.val ≤ c.val + ('a'.val - 'A'.val) := by
      rw [UInt32.le_iff_toNat_le, hval]
      have : 'a'.val.toNat = 97 := by decide
      omega
    have hle : c.val + ('a'.val - 'A'.val) ≤ 'z'.val := by
      rw [UInt32.le_iff_toNat_le, hval]
      have : 'z'.val.toNat = 122 := by decide
      omega
    rw [Char.isLower, decide_eq_true hge, decide_eq_true hle] at hd
    exact absurd hd (by decide)
  · exact h

theorem mem_lower {c : Char} {d : Text} (hc : c.isLower = false) (h : c ∈ lower d) : c ∈ d := by
  obtain ⟨e, he, heq⟩ := List.mem_map.mp h
  rwa [← eq_of_toLower_eq hc heq]

theorem TagName.lower_ne_slash (tag : TagName) (u : Text) : lower tag.text ≠ '/' :: u := by
  intro h
  have hletter := tag.letter
  cases htext : tag.text with
  | nil =>
    rw [htext] at hletter
    exact absurd hletter (by decide)
  | cons c rest =>
    rw [htext, lower, List.map_cons, List.cons.injEq] at h
    rw [htext, eq_of_toLower_eq (by decide) h.1, List.head?_cons, Option.any_some] at hletter
    exact absurd hletter (by decide)

theorem replace_append (c : Char) (spelling s s' : Text) :
    replace c spelling (s ++ s') = replace c spelling s ++ replace c spelling s' := List.flatMap_append

theorem replace_cons_of_ne {c d : Char} (h : d ≠ c) (spelling s : Text) :
    replace c spelling (d :: s) = d :: replace c spelling s := by
  rw [replace, List.flatMap_cons, if_neg h]
  rfl

theorem escapeData_append (s s' : Text) : escapeData (s ++ s') = escapeData s ++ escapeData s' := by
  simp only [escapeData, replace_append]

/-- Data escapes its characters, except `<`. -/
theorem escapeData_cons (c : Char) (s : Text) :
    escapeData (c :: s) = (if c = '<' then ['<'] else escapeChar c) ++ escapeData s := by
  have hcons : c :: s = [c] ++ s := rfl
  rw [hcons, escapeData_append]
  congr 1
  by_cases hgt : c = '>'
  · subst hgt
    decide
  by_cases hquot : c = '"'
  · subst hquot
    decide
  by_cases hapos : c = '\''
  · subst hapos
    decide
  have hkept : escapeData [c] = [c] := by
    rw [escapeData, replace_cons_of_ne hapos, replace_cons_of_ne hquot, replace_cons_of_ne hgt]
    rfl
  rw [hkept]
  split
  · rename_i hlt
    rw [hlt]
  · rename_i hlt
    obtain ⟨row, hrow, heq, -⟩ | ⟨-, hc⟩ := escapeChar_cases c
    · simp only [spellings, List.mem_cons, List.not_mem_nil, or_false] at hrow
      rcases hrow with rfl | rfl | rfl | rfl
      exacts [absurd heq.symm hlt, absurd heq.symm hgt, absurd heq.symm hquot, absurd heq.symm hapos]
    · exact hc.symm

theorem escapeData_eq {d : Text} (h : '<' ∉ d) : escapeData d = escape (d.map Item.char) := by
  induction d with
  | nil => rfl
  | cons c d ih =>
    rw [List.mem_cons, not_or] at h
    rw [escapeData_cons, if_neg (Ne.symm h.1), ih h.2]
    rfl

theorem charrefs_listed : ∀ row ∈ charrefs, ∀ val ∈ row.1, 0 < valueOf val ∧ valueOf val < 128 ∧
    (charrefs.filter fun row => val ∈ row.1).map Prod.snd = [escapeChar (Char.ofNat (valueOf val))] := by
  decide +kernel

theorem references_spelled (refs : References) : ∀ row ∈ spellings, ∀ name : Text,
    name ++ [';'] = row.1 → name ≠ "mdash".toList ∧ refs.named name = [row.2] := by
  intro row hrow name hname
  simp only [spellings, List.mem_cons, List.not_mem_nil, or_false] at hrow
  have hcancel (s : Text) (h : name ++ [';'] = s ++ [';']) : name = s := List.append_cancel_right h
  rcases hrow with rfl | rfl | rfl | rfl
  · rw [hcancel "lt".toList hname, refs.named_lt]
    decide
  · rw [hcancel "gt".toList hname, refs.named_gt]
    decide
  · rw [hcancel "quot".toList hname, refs.named_quot]
    decide
  · rw [hcancel "apos".toList hname, refs.named_apos]
    decide

theorem escapeChar_of_mem : ∀ row ∈ spellings, escapeChar row.2 = '&' :: row.1 := by decide

/-- The pieces appended for a token are the escaped spelling of what the parser reads. -/
theorem Token.flatten_pieces (refs : References) {t : Token} (h : t.Plain) :
    t.pieces.flatten = escape (t.reads refs) := by
  cases t with
  | decl d =>
    have hline : newline ('!' :: lower d.text) = [] := by
      simp [newline, lower]
    simp [Token.pieces, Token.reads, Token.shows, Item.escape, hline]
  | charref name =>
    by_cases hlisted : IsListed name
    · obtain ⟨row, hrow, hval⟩ := hlisted
      obtain ⟨hpos, hascii, hitems⟩ := charrefs_listed row hrow _ hval
      simp only [Token.pieces, Token.reads, hitems, if_pos (show IsListed name from ⟨row, hrow, hval⟩)]
      rw [charrefValue, refs.numeric_ascii _ hpos hascii]
      simp [Item.escape]
    · have hfilter : (charrefs.filter fun row => lower name ∈ row.1) = [] := by
        apply List.filter_eq_nil_iff.mpr
        intro row hrow hval
        exact hlisted ⟨row, hrow, of_decide_eq_true hval⟩
      simp [Token.pieces, Token.reads, hfilter, hlisted]
  | entityref name =>
    simp only [Token.pieces, Token.reads, Token.shows]
    obtain hmdash | ⟨row, hrow, hname⟩ := h
    · rw [if_pos hmdash, hmdash, refs.named_mdash]
      decide
    · obtain ⟨hne, hnamed⟩ := references_spelled refs row hrow _ hname
      rw [if_neg hne, hnamed]
      simp [Item.escape, escapeChar_of_mem row hrow, ← hname]
  | startTag tag =>
    have hslash := tag.lower_ne_slash
    have hline : newline tag.text = if lower tag.text = "table".toList ∨ lower tag.text = "html".toList
        then ['\n'] else [] := by
      simp [newline, hslash]
    simp only [Token.pieces, Token.reads, Token.shows, escape_cons, Item.escape, hline]
    split <;> simp
  | data d =>
    simp only [Token.pieces, Token.reads]
    by_cases hblank : strip d = []
    · simp [hblank]
    · rw [if_pos hblank, if_pos hblank, List.flatten_singleton, escapeData_eq h]
  | endTag tag =>
    have hline : newline ('/' :: tag.text) = if lower tag.text = "tr".toList ∨
        lower tag.text = "head".toList then ['\n'] else [] := by
      apply if_congr _ rfl rfl
      simp [lower]
    simp only [Token.pieces, Token.reads, Token.shows, escape_cons, Item.escape, hline]
    split <;> simp

theorem flatten_pieces_visible (refs : References) {tokens : List Token}
    (h : ∀ t ∈ tokens, t.Plain) :
    (tokens.flatMap Token.pieces).flatten = escape (tokens.flatMap (Token.reads refs)) := by
  induction tokens with
  | nil => rfl
  | cons t ts ih =>
    rw [List.flatMap_cons, List.flatMap_cons, List.flatten_append, escape_append,
      t.flatten_pieces refs (h t List.mem_cons_self),
      ih (fun t' ht' => h t' (List.mem_cons_of_mem _ ht'))]

/-! ### Pages that are not plain -/

/-- In the spelling of the valid page every ampersand starts one of the references and every `<` a tag.
Read back, it is what the page shows. -/
theorem validFortune_spelling :
    (∀ rest ∈ validFortune.tails, rest.head? = some '&' →
      ∃ row ∈ spellings, row.1.isPrefixOf rest.tail = true) ∧
    (∀ rest ∈ validFortune.tails, rest.head? = some '<' →
      '>' ∈ rest.tail ∧ '<' ∉ rest.tail.takeWhile (· ≠ '>')) ∧
    lexFrom lineEnd 0 validFortune = validItems ∧ escape validItems = validFortune ∧
    .char '&' ∉ validItems := by
  unfold validItems validFortune
  simp only [List.flatMap_cons, List.flatMap_nil]
  -- the rows as lists of characters, so that the kernel does not decode them
  repeat rw [String.toList_ofList]
  decide +kernel

/-- Before a tag is closed, one is opened. -/
def Unclosed (s : Text) : Prop := '>' ∈ s → '<' ∈ s.takeWhile (· ≠ '>')

theorem Unclosed.append {s s' : Text} (h : '>' ∉ s) (hs' : Unclosed s') : Unclosed (s ++ s') := by
  intro hmem
  have hall : ∀ c ∈ s, decide (c ≠ '>') = true := fun c hc => decide_eq_true fun heq => h (heq ▸ hc)
  rw [List.takeWhile_append_of_pos hall]
  exact List.mem_append_right _ (hs' ((List.mem_append.mp hmem).resolve_left h))

theorem unclosed_cons (s : Text) : Unclosed ('<' :: s) := by
  intro _
  rw [List.takeWhile_cons_of_pos (by decide)]
  exact List.mem_cons_self

theorem not_mem_flatten {pieces : List Text} (h : ∀ item ∈ pieces, '>' ∉ item) : '>' ∉ pieces.flatten := by
  intro hmem
  obtain ⟨item, hitem, hc⟩ := List.mem_flatten.mp hmem
  exact h item hitem hc

theorem Unclosed.pieces (t : Token) {s : Text} (hs : Unclosed s) : Unclosed (t.pieces.flatten ++ s) := by
  cases t with
  | decl d => exact unclosed_cons _
  | charref name => exact hs.append (not_mem_flatten (not_mem_charref name))
  | entityref name => exact hs.append (not_mem_flatten (not_mem_entityref name))
  | startTag tag => exact unclosed_cons _
  | data d => exact hs.append (not_mem_flatten (not_mem_data d))
  | endTag tag => exact unclosed_cons _

theorem unclosed_flatten_pieces (tokens : List Token) : Unclosed (tokens.flatMap Token.pieces).flatten := by
  induction tokens with
  | nil => exact fun h => absurd h List.not_mem_nil
  | cons t ts ih =>
    rw [List.flatMap_cons, List.flatten_append]
    exact ih.pieces t

theorem takeWhile_append_cons {c : Char} {s : Text} (h : c ∉ s) (s' : Text) :
    (s ++ c :: s').takeWhile (· ≠ c) = s := by
  have hall : ∀ d ∈ s, decide (d ≠ c) = true := fun d hd => decide_eq_true fun heq => h (heq ▸ hd)
  rw [List.takeWhile_append_of_pos hall, List.takeWhile_cons_of_neg (by simp), List.append_nil]

/-- A `<` in data opens no tag. -/
theorem not_mem_data_of_valid {before d after : Text} (hafter : Unclosed after)
    (h : before ++ ((Token.data d).pieces.flatten ++ after) = validFortune) : '<' ∉ d := by
  intro hmem
  have hblank : strip d ≠ [] := fun hstrip => absurd (strip_eq_nil_iff.mp hstrip _ hmem) (by decide)
  obtain ⟨d₁, d₂, rfl⟩ := List.append_of_mem hmem
  rw [Token.pieces, if_pos hblank, List.flatten_singleton, escapeData_append, escapeData_cons,
    if_pos rfl, List.append_assoc, ← List.append_assoc] at h
  have hsuffix : '<' :: (escapeData d₂ ++ after) <:+ validFortune := ⟨_, h⟩
  have hrest : '>' ∉ escapeData d₂ := not_mem_replace (by decide) (.inl rfl)
  obtain ⟨hclosed, hopened⟩ := validFortune_spelling.2.1 _ ((List.mem_tails _ _).mpr hsuffix) rfl
  exact hopened (hafter.append hrest hclosed)

/-- The name in a reference ends with the reference. -/
theorem name_of_valid {before after : Text} {name : EntityName}
    (h : before ++ ('&' :: (name.text ++ ';' :: after)) = validFortune) :
    ∃ row ∈ spellings, name.text ++ [';'] = row.1 := by
  have hsuffix : '&' :: (name.text ++ ';' :: after) <:+ validFortune := ⟨before, h⟩
  obtain ⟨row, hrow, hprefix⟩ :=
    validFortune_spelling.1 _ ((List.mem_tails _ _).mpr hsuffix) rfl
  have hends : ∀ row ∈ spellings, row.1 = row.1.dropLast ++ [';'] ∧ ';' ∉ row.1.dropLast := by decide
  obtain ⟨hs, hsemicolon⟩ := hends row hrow
  generalize row.1.dropLast = s at hs hsemicolon
  obtain ⟨rest, hrest⟩ := List.isPrefixOf_iff_prefix.mp hprefix
  have heq : s ++ ';' :: rest = name.text ++ ';' :: after := by
    rw [List.tail_cons, hs] at hrest
    rw [← hrest]
    simp
  have htake := congrArg (List.takeWhile (· ≠ ';')) heq
  rw [takeWhile_append_cons hsemicolon, takeWhile_append_cons (name.not_mem (by decide))] at htake
  exact ⟨row, hrow, by rw [hs, htake]⟩

theorem plain_of_valid {tokens : List Token}
    (h : (tokens.flatMap Token.pieces).flatten = validFortune) : ∀ t ∈ tokens, t.Plain := by
  intro t ht
  obtain ⟨before, after, rfl⟩ := List.append_of_mem ht
  rw [List.flatMap_append, List.flatMap_cons, List.flatten_append, List.flatten_append] at h
  cases t with
  | data d => exact not_mem_data_of_valid (unclosed_flatten_pieces after) h
  | entityref name =>
    by_cases hmdash : name.text = "mdash".toList
    · exact .inl hmdash
    · rw [Token.pieces, if_neg hmdash, List.flatten_singleton, List.append_assoc, List.append_assoc] at h
      exact .inr (name_of_valid h)
  | _ => trivial

/-! ### Acceptance -/

variable {refs : References} {tokens : List Token}

theorem lexFrom_validFortune : lexFrom lineEnd 0 validFortune = validItems :=
  validFortune_spelling.2.2.1

theorem escape_validItems : escape validItems = validFortune := validFortune_spelling.2.2.2.1

theorem ampersand_not_mem_validItems : Item.char '&' ∉ validItems := validFortune_spelling.2.2.2.2

theorem closed_reading (refs : References) (tokens : List Token) : Closed (reading refs tokens) := by
  have hlower (d : Declaration) : '>' ∉ lower d.text := fun h => d.closed (mem_lower (by decide) h)
  intro t ht
  obtain ⟨token, -, hmem⟩ := List.mem_flatMap.mp ht
  cases token with
  | decl d =>
    obtain rfl : t = '!' :: lower d.text := by simpa [Token.reads, Token.shows] using hmem
    simpa using hlower d
  | charref name =>
    simp only [Token.reads] at hmem
    split at hmem <;> simp at hmem
  | entityref name => simp [Token.reads, Token.shows] at hmem
  | startTag tag =>
    obtain rfl : t = tag.text := by simpa [Token.reads, Token.shows] using hmem
    exact tag.closed
  | data d =>
    simp only [Token.reads] at hmem
    split at hmem <;> simp at hmem
  | endTag tag =>
    obtain rfl : t = '/' :: tag.text := by simpa [Token.reads, Token.shows] using hmem
    simpa using tag.closed

/-- The page is accepted exactly when the parser reads the valid one. -/
theorem isValidFortune_iff (refs : References) (tokens : List Token) :
    (({} : FortuneParser).feed tokens).isValidFortune = true ↔
      Plain tokens ∧ collapse (reading refs tokens) = validItems := by
  rw [FortuneParser.isValidFortune, decide_eq_true_iff, FortuneParser.feed_body, List.nil_append]
  constructor
  · intro h
    have hplain : Plain tokens := plain_of_valid h.symm
    refine ⟨hplain, ?_⟩
    rw [← lexFrom_escape (closed_reading refs tokens), reading, ← flatten_pieces_visible refs hplain, ← h,
      lexFrom_validFortune]
  · rintro ⟨hplain, h⟩
    rw [flatten_pieces_visible refs hplain, ← reading, ← escape_collapse, h, escape_validItems]

/-! ### Normalisation -/

/-- A character that is not whitespace stays. -/
theorem mem_normaliseFrom {c : Char} (hc : isSpace c = false) {items : List Item} {text : Text}
    (h : c ∈ text ∨ .char c ∈ items) : .char c ∈ normaliseFrom text items := by
  have htext (s : Text) (hs : c ∈ s) : .char c ∈ textItems s := by
    have hall : s.all isSpace = false := List.all_eq_false.mpr ⟨c, hs, by simp [hc]⟩
    rw [textItems, hall]
    exact List.mem_map_of_mem hs
  induction items generalizing text with
  | nil => exact htext text (h.resolve_right List.not_mem_nil)
  | cons item items ih =>
    cases item with
    | tag t =>
      obtain h | h := h
      · exact List.mem_append_left _ (htext text h)
      · have hmem : .char c ∈ items := by simpa using h
        exact List.mem_append_right _ (List.mem_cons_of_mem _ (ih (.inr hmem)))
    | char d =>
      apply ih
      simp only [List.mem_append, List.mem_singleton]
      obtain h | h := h
      · exact .inl (.inl h)
      · obtain heq | hmem := List.mem_cons.mp h
        · exact .inl (.inr (by simpa using heq))
        · exact .inr hmem

/-- The parser reads nothing that the page does not show. -/
theorem mem_shown {item : Item} (h : item ∈ reading refs tokens) : item ∈ shown refs tokens := by
  obtain ⟨t, ht, hitem⟩ := List.mem_flatMap.mp h
  refine List.mem_flatMap.mpr ⟨t, ht, ?_⟩
  cases t with
  | charref name =>
    simp only [Token.reads] at hitem
    split at hitem
    · exact hitem
    · exact absurd hitem List.not_mem_nil
  | data d =>
    simp only [Token.reads] at hitem
    split at hitem
    · exact hitem
    · exact absurd hitem List.not_mem_nil
  | _ => exact hitem

theorem collapse_eq_self {items : List Item} (h : .char '&' ∉ items) : collapse items = items := by
  induction items with
  | nil => rfl
  | cons item items ih =>
    have hne : item ≠ .char '&' := fun heq => h (heq ▸ List.mem_cons_self)
    rw [collapse_cons, referenceAt_eq_none hne, ih fun hmem => h (List.mem_cons_of_mem _ hmem)]

/-! ### The condition -/

/-- The page shows what the valid page shows. -/
def ShowsValid (refs : References) (tokens : List Token) : Prop :=
  normalise (shown refs tokens) = validItems

/-- Without unlisted numeric references and blank data, and with the text of references taken for the
characters they would denote, the page is the valid one. -/
def ReadsValid (refs : References) (tokens : List Token) : Prop :=
  Plain tokens ∧ collapse (reading refs tokens) = validItems

/-- The spelling is one the parser reads: no `<` or `&` in data, only its own named references, and
dropping unlisted numeric references and blank data drops just the texts that are only whitespace. -/
structure Faithful (refs : References) (tokens : List Token) : Prop where
  plain : Plain tokens
  ampersand : .char '&' ∉ reading refs tokens
  reads : reading refs tokens = normalise (shown refs tokens)

theorem Faithful.readsValid_iff (h : Faithful refs tokens) :
    ReadsValid refs tokens ↔ ShowsValid refs tokens := by
  rw [ReadsValid, ShowsValid, collapse_eq_self h.ampersand, h.reads]
  exact and_iff_right h.plain

/-- A page that shows the valid texts and reads as valid is spelled faithfully. -/
theorem ReadsValid.faithful (hreads : ReadsValid refs tokens) (hshows : ShowsValid refs tokens) :
    Faithful refs tokens := by
  have hampersand : .char '&' ∉ reading refs tokens := by
    intro hmem
    have hnormal : .char '&' ∈ normalise (shown refs tokens) :=
      mem_normaliseFrom (by decide) (.inr (mem_shown hmem))
    exact ampersand_not_mem_validItems (hshows ▸ hnormal)
  exact ⟨hreads.1, hampersand, by rw [hshows, ← hreads.2, collapse_eq_self hampersand]⟩

/-- The token of a tag in the valid page. -/
def tagToken (tag : Text) : List Token :=
  match tag with
  | '!' :: d => if h : '>' ∉ d then [.decl ⟨d, h⟩] else []
  | '/' :: name =>
    if h : name.head?.any Char.isAlpha = true ∧ '>' ∉ name then [.endTag ⟨name, h.1, h.2⟩] else []
  | name => if h : name.head?.any Char.isAlpha = true ∧ '>' ∉ name then [.startTag ⟨name, h.1, h.2⟩] else []

def ltName : EntityName where
  text := "lt".toList
  wellFormed c hc := .inl (List.all_eq_true.mp (show "lt".toList.all Char.isAlphanum = true by decide) c hc)

/-- A plain spelling, with a reference for each `<`; the data up to here is given. -/
def plainTokens (d : Text) : List Item → List Token
  | [] => [.data d]
  | .tag t :: items => .data d :: tagToken t ++ plainTokens [] items
  | .char c :: items =>
    if c = '<' then .data d :: .entityref ltName :: plainTokens [] items
    else plainTokens (d ++ [c]) items

/-- The valid page with `&#126;` in front. -/
def tildePage : List Token := .charref "126".toList :: plainTokens [] validItems

theorem tildePage_read : (({} : FortuneParser).feed tildePage).isValidFortune = true ∧
    Item.char '~' ∉ validItems := by
  unfold FortuneParser.isValidFortune tildePage validItems validFortune
  simp only [List.flatMap_cons, List.flatMap_nil]
  repeat rw [String.toList_ofList]
  decide +kernel

theorem charref_shown (refs : References) (name : Text) (tokens : List Token) :
    .char (refs.numeric (charrefValue name)) ∈ shown refs (.charref name :: tokens) := by
  have hvisible : visible false (.charref name :: tokens) = .charref name :: visible false tokens := rfl
  rw [shown, hvisible, List.flatMap_cons]
  exact List.mem_append_left _ List.mem_cons_self

end FrameworkBenchmarks.Toolset
