import FrameworkBenchmarks.Toolset.FortuneText
import Mathlib.Data.List.Find

/-!
# Reading a spelling back

The escaped spelling of a sequence reads as the sequence itself, except that the text of a reference reads
as the character it denotes.
-/

namespace FrameworkBenchmarks.Toolset

/-- The tags of a sequence do not close early. -/
def Closed (items : List Item) : Prop := ∀ t, .tag t ∈ items → '>' ∉ t

theorem Closed.tail {item : Item} {items : List Item} (h : Closed (item :: items)) : Closed items :=
  fun t ht => h t (List.mem_cons_of_mem _ ht)

theorem Closed.drop {items : List Item} (h : Closed items) (k : ℕ) : Closed (items.drop k) :=
  fun t ht => h t (List.mem_of_mem_drop ht)

@[simp] theorem escape_nil : escape [] = [] := rfl

@[simp] theorem escape_cons (item : Item) (items : List Item) :
    escape (item :: items) = item.escape ++ escape items := rfl

theorem escape_append (items items' : List Item) :
    escape (items ++ items') = escape items ++ escape items' := List.flatMap_append

/-! ### Single characters -/

/-- A character with a spelling of its own, or one that stands for itself. -/
theorem escapeChar_cases (c : Char) :
    (∃ row ∈ spellings, row.2 = c ∧ escapeChar c = '&' :: row.1) ∨
      (∀ row ∈ spellings, row.2 ≠ c) ∧ escapeChar c = [c] := by
  unfold escapeChar
  cases h : spellings.find? fun row => row.2 = c with
  | some row =>
    have hrow := List.find?_some h
    exact .inl ⟨row, List.mem_of_find?_eq_some h, of_decide_eq_true hrow, rfl⟩
  | none =>
    refine .inr ⟨?_, rfl⟩
    intro row hrow heq
    exact absurd (decide_eq_true heq) (List.find?_eq_none.mp h row hrow)

/-- A character in the text of a reference stands for itself. -/
def Ordinary (c : Char) : Prop := c ≠ '&' ∧ c ≠ '<' ∧ ∀ row ∈ spellings, row.2 ≠ c

instance (c : Char) : Decidable (Ordinary c) := by unfold Ordinary; infer_instance

theorem escapeChar_ordinary {c : Char} (h : Ordinary c) : escapeChar c = [c] := by
  obtain ⟨row, hrow, heq, -⟩ | ⟨-, hc⟩ := escapeChar_cases c
  · exact absurd heq (h.2.2 row hrow)
  · exact hc

theorem ordinary_of_mem_spellings (row : Text × Char) (hrow : row ∈ spellings) :
    ∀ c ∈ row.1, Ordinary c := by
  have hall : ∀ row ∈ spellings, row.1.all (fun c => Ordinary c) = true := by decide
  intro c hc
  exact of_decide_eq_true (List.all_eq_true.mp (hall row hrow) c hc)

theorem escape_map_char {text : Text} (h : ∀ c ∈ text, Ordinary c) :
    escape (text.map Item.char) = text := by
  induction text with
  | nil => rfl
  | cons c text ih =>
    rw [List.map_cons, escape_cons, ih (fun d hd => h d (List.mem_cons_of_mem _ hd)), Item.escape,
      escapeChar_ordinary (h c List.mem_cons_self), List.singleton_append]

/-- The text of a reference starts the spelling exactly where its characters start the sequence. -/
theorem isPrefixOf_escape {text : Text} (h : ∀ c ∈ text, Ordinary c) (items : List Item) :
    text.isPrefixOf (escape items) = (text.map Item.char).isPrefixOf items := by
  induction text generalizing items with
  | nil => rfl
  | cons c text ih =>
    have hc := h c List.mem_cons_self
    cases items with
    | nil => rfl
    | cons item items =>
      cases item with
      | tag t =>
        have hne : (c == '<') = false := beq_eq_false_iff_ne.mpr hc.2.1
        have hne' : (Item.char c == Item.tag t) = false := beq_eq_false_iff_ne.mpr (by simp)
        simp [Item.escape, List.isPrefixOf, hne, hne']
      | char d =>
        obtain ⟨row, hrow, heq, hd⟩ | ⟨-, hd⟩ := escapeChar_cases d
        · have hne : (c == '&') = false := beq_eq_false_iff_ne.mpr hc.1
          have hcd : c ≠ d := fun hcd => hc.2.2 row hrow (heq.trans hcd.symm)
          have hne' : (Item.char c == Item.char d) = false := beq_eq_false_iff_ne.mpr (by simp [hcd])
          simp [Item.escape, hd, List.isPrefixOf, hne, hne']
        · have ih := ih (fun e he => h e (List.mem_cons_of_mem _ he)) items
          have heq : (Item.char c == Item.char d) = (c == d) := by
            rw [Bool.eq_iff_iff]
            simp
          simp [Item.escape, hd, List.isPrefixOf, ih, heq]

/-! ### Skipping -/

theorem collapseFrom_eq_drop (skip : ℕ) (items : List Item) :
    collapseFrom skip items = collapse (items.drop skip) := by
  induction skip generalizing items with
  | zero => rfl
  | succ skip ih =>
    cases items with
    | nil => rfl
    | cons item items => exact ih items

theorem lexFrom_eq_drop (after : Text → ℕ) (skip : ℕ) (s : Text) :
    lexFrom after skip s = lexFrom after 0 (s.drop skip) := by
  induction skip generalizing s with
  | zero => rfl
  | succ skip ih =>
    cases s with
    | nil => rfl
    | cons c s => exact ih s

/-! ### Reading back -/

/-- The reference at the start of a sequence. -/
def referenceAt (item : Item) (items : List Item) : Option (Text × Char) :=
  spellings.find? fun row => item = .char '&' && (row.1.map Item.char).isPrefixOf items

theorem collapse_cons (item : Item) (items : List Item) :
    collapse (item :: items) =
      match referenceAt item items with
      | some row => .char row.2 :: collapse (items.drop row.1.length)
      | none => item :: collapse items := by
  rw [collapse, collapseFrom]
  change (match referenceAt item items with
    | some row => Item.char row.2 :: collapseFrom row.1.length items
    | none => item :: collapseFrom 0 items) = _
  cases referenceAt item items with
  | none => rfl
  | some row => simp only [collapseFrom_eq_drop]

/-- A reference in the sequence is its ampersand, its characters and what follows. -/
theorem referenceAt_eq_some {item : Item} {items : List Item} {row : Text × Char}
    (h : referenceAt item items = some row) :
    row ∈ spellings ∧ item = .char '&' ∧
      items = row.1.map Item.char ++ items.drop row.1.length := by
  have hrow := List.find?_some h
  obtain ⟨hitem, hprefix⟩ := (Bool.and_eq_true _ _).mp hrow
  obtain ⟨rest, hrest⟩ := List.isPrefixOf_iff_prefix.mp hprefix
  refine ⟨List.mem_of_find?_eq_some h, of_decide_eq_true hitem, ?_⟩
  rw [← hrest, List.drop_left' (List.length_map _)]

/-- What follows a sequence of items in its spelling is looked at through the items. -/
theorem find?_escape (c : Char) (items : List Item) :
    (spellings.find? fun row => c = '&' && row.1.isPrefixOf (escape items)) =
      referenceAt (.char c) items := by
  unfold referenceAt
  apply List.find?_congr
  intro row hrow
  rw [isPrefixOf_escape (ordinary_of_mem_spellings row hrow)]
  simp

theorem find?_spelling : ∀ row ∈ spellings, ∀ s : Text,
    (spellings.find? fun other => other.1.isPrefixOf (row.1 ++ s)) = some row := by
  intro row hrow s
  simp only [spellings, List.mem_cons, List.not_mem_nil, or_false] at hrow
  rcases hrow with rfl | rfl | rfl | rfl <;> rfl

theorem escape_collapse (items : List Item) : escape (collapse items) = escape items := by
  induction h : items.length using Nat.strong_induction_on generalizing items with
  | _ n ih =>
    subst h
    cases items with
    | nil => rfl
    | cons item items =>
      rw [collapse_cons]
      cases href : referenceAt item items with
      | none =>
        simp only
        rw [escape_cons, escape_cons, ih items.length (by simp) items rfl]
      | some row =>
        obtain ⟨hrow, rfl, hitems⟩ := referenceAt_eq_some href
        have hlength : (items.drop row.1.length).length < (Item.char '&' :: items).length := by
          rw [List.length_drop, List.length_cons]
          omega
        have hchar : escapeChar row.2 = '&' :: row.1 := by
          clear ih hlength hitems href
          revert row
          decide
        simp only
        rw [escape_cons, escape_cons, ih _ hlength _ rfl]
        conv_rhs => rw [hitems]
        rw [escape_append, escape_map_char (ordinary_of_mem_spellings row hrow)]
        simp [Item.escape, hchar, show escapeChar '&' = ['&'] from rfl]

/-- The characters behind a tag that belong to it. -/
abbrev lineEnd (t : Text) : ℕ := (newline t).length

theorem lexFrom_tag {t : Text} (ht : '>' ∉ t) (s : Text) :
    lexFrom lineEnd 0 ((Item.tag t).escape ++ s) = .tag t :: lexFrom lineEnd 0 s := by
  have hspelling : (Item.tag t).escape ++ s = '<' :: (t ++ '>' :: (newline t ++ s)) := by
    simp [Item.escape]
  have htake : (t ++ '>' :: (newline t ++ s)).takeWhile (· ≠ '>') = t := by
    have hall : ∀ c ∈ t, decide (c ≠ '>') = true := by
      intro c hc
      exact decide_eq_true fun h => ht (h ▸ hc)
    rw [List.takeWhile_append_of_pos hall]
    simp
  have hdrop : (t ++ '>' :: (newline t ++ s)).drop (t.length + 1 + lineEnd t) = s := by
    rw [Nat.add_assoc, ← List.drop_drop, List.drop_left, Nat.add_comm, List.drop_succ_cons,
      List.drop_left]
  rw [hspelling, lexFrom, if_pos rfl]
  simp only [htake]
  rw [lexFrom_eq_drop, hdrop]

theorem lexFrom_spelling {row : Text × Char} (hrow : row ∈ spellings) (after : Text → ℕ) (s : Text) :
    lexFrom after 0 ('&' :: (row.1 ++ s)) = .char row.2 :: lexFrom after 0 s := by
  have hfind : (spellings.find? fun other =>
      '&' = '&' && other.1.isPrefixOf (row.1 ++ s)) = some row := by
    simpa using find?_spelling row hrow s
  rw [lexFrom, if_neg (by decide), hfind]
  simp only
  rw [lexFrom_eq_drop, List.drop_left]

/-- No reference starts at a tag or at a character with a spelling of its own. -/
theorem referenceAt_eq_none {item : Item} (h : item ≠ .char '&') (items : List Item) :
    referenceAt item items = none := by
  apply List.find?_eq_none.mpr
  intro row _
  simp [h]

/-- Reading the spelling back, with the line ends the parser adds. -/
theorem lexFrom_escape {items : List Item} (hclosed : Closed items) :
    lexFrom lineEnd 0 (escape items) = collapse items := by
  induction h : items.length using Nat.strong_induction_on generalizing items with
  | _ n ih =>
    subst h
    cases items with
    | nil => rfl
    | cons item items =>
      have ihtail := ih items.length (by simp) hclosed.tail rfl
      rw [collapse_cons]
      cases item with
      | tag t =>
        rw [referenceAt_eq_none (by simp), escape_cons, lexFrom_tag (hclosed t List.mem_cons_self), ihtail]
      | char c =>
        obtain ⟨row, hrow, rfl, hc⟩ | ⟨hother, hc⟩ := escapeChar_cases c
        · -- A character with a spelling of its own is read from it.
          have hne : Item.char row.2 ≠ .char '&' := by
            clear ih ihtail hclosed hc
            revert row
            decide
          rw [referenceAt_eq_none hne, escape_cons, Item.escape, hc, List.cons_append,
            lexFrom_spelling hrow, ihtail]
        · -- Any other character stands for itself, unless it is the ampersand of a reference.
          have hlt : c ≠ '<' := fun h => hother ("lt;".toList, '<') (by decide) h.symm
          rw [escape_cons, Item.escape, hc, List.singleton_append, lexFrom, if_neg hlt, find?_escape]
          cases href : referenceAt (.char c) items with
          | none =>
            simp only
            rw [ihtail]
          | some row =>
            obtain ⟨hrow, -, hitems⟩ := referenceAt_eq_some href
            have hlength : (items.drop row.1.length).length < (Item.char c :: items).length := by
              rw [List.length_drop, List.length_cons]
              omega
            have hdrop : (escape items).drop row.1.length = escape (items.drop row.1.length) := by
              conv_lhs => rw [hitems]
              rw [escape_append, escape_map_char (ordinary_of_mem_spellings row hrow), List.drop_left]
            simp only
            rw [lexFrom_eq_drop, hdrop, ih _ hlength (hclosed.tail.drop _) rfl]

end FrameworkBenchmarks.Toolset
