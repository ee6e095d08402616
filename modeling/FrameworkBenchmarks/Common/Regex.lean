import Mathlib.Data.List.Infix

/-!
# A backtracking regular expression matcher

The ways to match an expression at a place of a text are listed in the order in which a backtracking
matcher tries them, and a search takes the first way at the first place that has one. Only the
constructs that are used are here: literal texts, `.+`, `.`, `^` in multi-line mode, negative lookahead,
sequence, alternative and one group.
-/

namespace FrameworkBenchmarks.Common

inductive Regex
  | text (s : List Char)
  /-- `.+`, greedy; the dot does not match a line feed. -/
  | anyPlus
  /-- `.` -/
  | anyOne
  /-- `^` in multi-line mode. -/
  | lineStart
  /-- `(?!r)` -/
  | notAhead (r : Regex)
  | seq (a b : Regex)
  | alt (a b : Regex)
  /-- `(r)` -/
  | group (r : Regex)
  deriving DecidableEq, Repr

namespace Regex

/-- A way to match: what is consumed, what follows, and what the group has captured. -/
structure Way where
  consumed : List Char
  rest : List Char
  captured : List Char := []
  deriving DecidableEq, Repr

/-- Whether a line starts behind what has been consumed. -/
def startAfter (start : Bool) (consumed : List Char) : Bool :=
  match consumed.getLast? with
  | none => start
  | some c => c == '\n'

/-- The ways of `.+`, the longest first. -/
def plusWays : List Char → List (List Char × List Char)
  | [] => []
  | c :: rest =>
    if c = '\n' then [] else (plusWays rest).map (fun w => (c :: w.1, w.2)) ++ [([c], rest)]

/-- The ways to match at a place, in the order in which they are tried. -/
def ways : Regex → Bool → List Char → List Way
  | .text s, _, input => if s.isPrefixOf input then [⟨s, input.drop s.length, []⟩] else []
  | .anyPlus, _, input => (plusWays input).map fun w => ⟨w.1, w.2, []⟩
  | .anyOne, _, input =>
    match input with
    | [] => []
    | c :: rest => if c = '\n' then [] else [⟨[c], rest, []⟩]
  | .lineStart, start, input => if start then [⟨[], input, []⟩] else []
  | .notAhead r, start, input => if (ways r start input).isEmpty then [⟨[], input, []⟩] else []
  | .seq a b, start, input =>
    (ways a start input).flatMap fun w =>
      (ways b (startAfter start w.consumed) w.rest).map fun v =>
        ⟨w.consumed ++ v.consumed, v.rest, w.captured ++ v.captured⟩
  | .alt a b, start, input => ways a start input ++ ways b start input
  | .group r, start, input => (ways r start input).map fun w => { w with captured := w.consumed }

/-- The first way at the first place. -/
def search (r : Regex) (start : Bool) : List Char → Option Way
  | [] => (ways r start []).head?
  | c :: rest =>
    match ways r start (c :: rest) with
    | w :: _ => some w
    | [] => search r (c == '\n') rest

variable {r : Regex}

/-! ### Searches -/

theorem search_cons_of_ne_nil {start : Bool} {c : Char} {rest : List Char}
    (h : ways r start (c :: rest) ≠ []) :
    search r start (c :: rest) = (ways r start (c :: rest)).head? := by
  rw [search]
  cases hways : ways r start (c :: rest) with
  | nil => exact absurd hways h
  | cons w ws => rfl

theorem search_cons_of_nil {start : Bool} {c : Char} {rest : List Char}
    (h : ways r start (c :: rest) = []) :
    search r start (c :: rest) = search r (c == '\n') rest := by
  rw [search, h]

/-- A search for an expression that does not look at the start of a line finds the first place that
has a way. -/
theorem search_eq_some_iff (hplace : ∀ b input, ways r b input = ways r true input) (start : Bool)
    (input : List Char) (w : Way) :
    search r start input = some w ↔ ∃ before after, input = before ++ after ∧
      (ways r true after).head? = some w ∧
      ∀ before' after', input = before' ++ after' → before'.length < before.length →
        ways r true after' = [] := by
  induction input generalizing start with
  | nil =>
    rw [search, hplace]
    constructor
    · intro h
      exact ⟨[], [], rfl, h, fun before' _ _ hlt => absurd hlt (Nat.not_lt_zero _)⟩
    · rintro ⟨before, after, hsplit, hhead, -⟩
      obtain ⟨rfl, rfl⟩ := List.append_eq_nil_iff.mp hsplit.symm
      exact hhead
  | cons c rest ih =>
    by_cases hways : ways r start (c :: rest) = []
    · rw [search_cons_of_nil hways, ih]
      rw [hplace] at hways
      constructor
      · rintro ⟨before, after, rfl, hhead, hfirst⟩
        refine ⟨c :: before, after, rfl, hhead, ?_⟩
        intro before' after' hsplit hlt
        cases before' with
        | nil =>
          rw [List.nil_append] at hsplit
          exact hsplit ▸ hways
        | cons d before' =>
          obtain ⟨-, hrest⟩ := List.cons.inj hsplit
          exact hfirst before' after' hrest (Nat.lt_of_succ_lt_succ hlt)
      · rintro ⟨before, after, hsplit, hhead, hfirst⟩
        cases before with
        | nil =>
          rw [List.nil_append] at hsplit
          rw [← hsplit, hways] at hhead
          cases hhead
        | cons d before =>
          obtain ⟨rfl, hrest⟩ := List.cons.inj hsplit
          refine ⟨before, after, hrest, hhead, ?_⟩
          intro before' after' hsplit' hlt
          exact hfirst (c :: before') after' (by rw [hsplit', List.cons_append])
            (Nat.succ_lt_succ hlt)
    · rw [search_cons_of_ne_nil hways, hplace]
      rw [hplace] at hways
      constructor
      · intro h
        exact ⟨[], c :: rest, rfl, h, fun before' _ _ hlt => absurd hlt (Nat.not_lt_zero _)⟩
      · rintro ⟨before, after, hsplit, hhead, hfirst⟩
        cases before with
        | nil => exact hsplit ▸ hhead
        | cons d before =>
          exact absurd (hfirst [] (c :: rest) rfl (Nat.succ_pos _)) hways

/-- Such a search succeeds exactly if some place has a way. -/
theorem search_isSome_iff (hplace : ∀ b input, ways r b input = ways r true input) (start : Bool)
    (input : List Char) : (search r start input).isSome ↔
      ∃ before after, input = before ++ after ∧ ways r true after ≠ [] := by
  induction input generalizing start with
  | nil =>
    rw [search, hplace, List.isSome_head?]
    constructor
    · intro h
      exact ⟨[], [], rfl, by simpa using h⟩
    · rintro ⟨before, after, hsplit, hways⟩
      obtain ⟨rfl, rfl⟩ := List.append_eq_nil_iff.mp hsplit.symm
      simpa using hways
  | cons c rest ih =>
    by_cases hways : ways r start (c :: rest) = []
    · rw [search_cons_of_nil hways, ih]
      rw [hplace] at hways
      constructor
      · rintro ⟨before, after, rfl, h⟩
        exact ⟨c :: before, after, rfl, h⟩
      · rintro ⟨before, after, hsplit, h⟩
        cases before with
        | nil =>
          rw [List.nil_append] at hsplit
          exact absurd (hsplit ▸ hways) h
        | cons d before => exact ⟨before, after, (List.cons.inj hsplit).2, h⟩
    · rw [search_cons_of_ne_nil hways, List.isSome_head?]
      rw [hplace] at hways
      exact iff_of_true (by rw [hplace]; simpa using hways) ⟨[], c :: rest, rfl, hways⟩

/-- A literal text is found exactly if it is contained. -/
theorem search_text_isSome_iff (s : List Char) (start : Bool) (input : List Char) :
    (search (.text s) start input).isSome ↔ s <:+: input := by
  rw [search_isSome_iff (fun _ _ => rfl)]
  constructor
  · rintro ⟨before, after, rfl, hways⟩
    have hpre : s.isPrefixOf after = true := by
      by_contra hno
      exact hways (by rw [ways, if_neg hno])
    obtain ⟨rest, rfl⟩ := List.isPrefixOf_iff_prefix.mp hpre
    exact ⟨before, rest, by rw [List.append_assoc]⟩
  · rintro ⟨before, rest, rfl⟩
    refine ⟨before, s ++ rest, List.append_assoc .., ?_⟩
    rw [ways, if_pos (List.isPrefixOf_iff_prefix.mpr (List.prefix_append s rest))]
    exact List.cons_ne_nil _ _

/-! ### Where there is no way -/

theorem ways_text_eq_nil_iff (s : List Char) (start : Bool) (input : List Char) :
    ways (.text s) start input = [] ↔ ¬s <+: input := by
  rw [ways, ← List.isPrefixOf_iff_prefix]
  by_cases h : s.isPrefixOf input <;> simp [h]

theorem ways_alt_eq_nil_iff (a b : Regex) (start : Bool) (input : List Char) :
    ways (.alt a b) start input = [] ↔ ways a start input = [] ∧ ways b start input = [] := by
  rw [ways, List.append_eq_nil_iff]

theorem ways_notAhead_eq_nil_iff (start : Bool) (input : List Char) :
    ways (.notAhead r) start input = [] ↔ ways r start input ≠ [] := by
  rw [ways]
  cases h : ways r start input <;> simp

theorem ways_lineStart_seq_eq_nil_iff (input : List Char) :
    ways (.seq .lineStart r) true input = [] ↔ ways r true input = [] := by
  simp [ways, startAfter]

theorem ways_text_seq_eq_nil_iff (s : List Char) (start : Bool) (input : List Char) :
    ways (.seq (.text s) r) start input = [] ↔
      ∀ rest, input = s ++ rest → ways r (startAfter start s) rest = [] := by
  by_cases h : s <+: input
  · obtain ⟨rest, rfl⟩ := h
    have hpre : s.isPrefixOf (s ++ rest) = true :=
      List.isPrefixOf_iff_prefix.mpr (List.prefix_append s rest)
    simp [ways]
  · have hpre : ¬s.isPrefixOf input = true := fun hpre => h (List.isPrefixOf_iff_prefix.mp hpre)
    refine iff_of_true (by simp [ways, hpre]) ?_
    rintro rest rfl
    exact absurd (List.prefix_append s rest) h

theorem ways_anyOne_seq_eq_nil_iff (start : Bool) (input : List Char) :
    ways (.seq .anyOne r) start input = [] ↔
      ∀ c rest, input = c :: rest → c ≠ '\n' → ways r false rest = [] := by
  cases input with
  | nil => simp [ways]
  | cons c rest =>
    by_cases hc : c = '\n'
    · simp [ways, hc]
    · have hstart : startAfter start [c] = false := by simpa [startAfter] using hc
      simp [ways, hc, hstart]

/-! ### Line by line -/

/-- An expression that matches at the start of a line only, and looks at nothing but that line. -/
structure Anchored (r : Regex) : Prop where
  inside : ∀ input, ways r false input = []
  local_ : ∀ line input, '\n' ∉ line →
    (ways r true (line ++ '\n' :: input) = [] ↔ ways r true line = [])

/-- Behind the start of a line nothing is found before the next one. -/
theorem Anchored.search_rest (h : Anchored r) (line input : List Char) (hline : '\n' ∉ line) :
    search r false (line ++ '\n' :: input) = search r true input := by
  induction line with
  | nil => exact search_cons_of_nil (h.inside _)
  | cons c line ih =>
    have hne : (c == '\n') = false := by
      have : c ≠ '\n' := fun hc => hline (hc ▸ List.mem_cons_self ..)
      simpa using this
    rw [List.cons_append, search_cons_of_nil (h.inside _), hne]
    exact ih fun hmem => hline (List.mem_cons_of_mem _ hmem)

theorem Anchored.search_last (h : Anchored r) (line : List Char) (hline : '\n' ∉ line) :
    search r false line = none := by
  induction line with
  | nil =>
    rw [search, h.inside]
    rfl
  | cons c line ih =>
    have hne : (c == '\n') = false := by
      have : c ≠ '\n' := fun hc => hline (hc ▸ List.mem_cons_self ..)
      simpa using this
    rw [search_cons_of_nil (h.inside _), hne]
    exact ih fun hmem => hline (List.mem_cons_of_mem _ hmem)

/-- A search among lines succeeds exactly if one of them has a way. -/
theorem Anchored.search_lines (h : Anchored r) (lines : List (List Char))
    (hlines : ∀ line ∈ lines, line ≠ [] ∧ '\n' ∉ line) (hempty : ways r true [] = []) :
    (search r true (['\n'].intercalate lines)).isSome ↔
      ∃ line ∈ lines, ways r true line ≠ [] := by
  induction lines with
  | nil => simp [search, hempty]
  | cons line lines ih =>
    obtain ⟨hne, hline⟩ := hlines line (List.mem_cons_self ..)
    have ih := ih fun l hl => hlines l (List.mem_cons_of_mem _ hl)
    rw [List.exists_mem_cons_iff]
    obtain ⟨c, line, rfl⟩ := List.exists_cons_of_ne_nil hne
    have hchar : (c == '\n') = false := by
      have : c ≠ '\n' := fun hc => hline (hc ▸ List.mem_cons_self ..)
      simpa using this
    have hrest : '\n' ∉ line := fun hmem => hline (List.mem_cons_of_mem _ hmem)
    cases lines with
    | nil =>
      rw [List.intercalate_singleton]
      by_cases hways : ways r true (c :: line) = []
      · rw [search_cons_of_nil hways, hchar, h.search_last line hrest]
        simp [hways]
      · rw [search_cons_of_ne_nil hways, List.isSome_head?]
        simp [hways]
    | cons next lines =>
      have hjoin : ['\n'].intercalate ((c :: line) :: next :: lines) =
          (c :: line) ++ '\n' :: ['\n'].intercalate (next :: lines) := by
        simp [List.intercalate]
      rw [hjoin]
      have hlocal := h.local_ (c :: line) (['\n'].intercalate (next :: lines)) hline
      by_cases hways : ways r true (c :: line) = []
      · rw [List.cons_append] at hlocal ⊢
        rw [search_cons_of_nil (hlocal.mpr hways), hchar, h.search_rest line _ hrest, ih]
        simp [hways]
      · have hways' := mt hlocal.mp hways
        rw [List.cons_append] at hways' ⊢
        rw [search_cons_of_ne_nil hways', List.isSome_head?]
        simp [hways, hways']

/-! ### The greedy dot -/

variable {close : Char} {key : List Char}

theorem mem_plusWays (input p q : List Char) :
    (p, q) ∈ plusWays input ↔ input = p ++ q ∧ p ≠ [] ∧ '\n' ∉ p := by
  induction input generalizing p with
  | nil =>
    refine iff_of_false List.not_mem_nil ?_
    rintro ⟨hsplit, hne, -⟩
    exact hne (List.append_eq_nil_iff.mp hsplit.symm).1
  | cons c tail ih =>
    by_cases hc : c = '\n'
    · refine iff_of_false (by simp [plusWays, hc]) ?_
      rintro ⟨hsplit, hne, hline⟩
      obtain ⟨d, p, rfl⟩ := List.exists_cons_of_ne_nil hne
      obtain ⟨rfl, -⟩ := List.cons.inj hsplit
      exact hline (hc ▸ List.mem_cons_self ..)
    · rw [plusWays, if_neg hc, List.mem_append, List.mem_singleton, List.mem_map]
      constructor
      · rintro (⟨⟨p', q'⟩, hmem, heq⟩ | heq)
        · obtain ⟨rfl, rfl⟩ := Prod.mk.inj heq
          obtain ⟨hsplit, hne, hline⟩ := (ih p').mp hmem
          refine ⟨by rw [hsplit, List.cons_append], List.cons_ne_nil _ _, ?_⟩
          rw [List.mem_cons, not_or]
          exact ⟨Ne.symm hc, hline⟩
        · obtain ⟨rfl, rfl⟩ := Prod.mk.inj heq
          exact ⟨rfl, List.cons_ne_nil _ _, by simpa using Ne.symm hc⟩
      · rintro ⟨hsplit, hne, hline⟩
        obtain ⟨d, p, rfl⟩ := List.exists_cons_of_ne_nil hne
        obtain ⟨rfl, htail⟩ := List.cons.inj hsplit
        cases p with
        | nil => exact .inr (by rw [htail]; rfl)
        | cons e p =>
          refine .inl ⟨(e :: p, q), (ih (e :: p)).mpr ⟨htail, List.cons_ne_nil _ _, ?_⟩, rfl⟩
          exact fun h => hline (List.mem_cons_of_mem _ h)

/-- The character does not occur again before the next line. -/
def NotInLine (close : Char) (rest : List Char) : Prop :=
  ∀ front back, rest = front ++ close :: back → '\n' ∈ front

/-- The first way of `.+` in front of a closing character takes as much of the line as it can. -/
theorem find?_plusWays_eq_some_iff (hclose : close ≠ '\n') (input p q : List Char) :
    (plusWays input).find? (fun w => [close].isPrefixOf w.2) = some (p, q) ↔
      input = p ++ q ∧ p ≠ [] ∧ '\n' ∉ p ∧ ∃ rest, q = close :: rest ∧ NotInLine close rest := by
  induction input generalizing p q with
  | nil =>
    refine iff_of_false (by simp [plusWays]) ?_
    rintro ⟨hsplit, hne, -⟩
    exact hne (List.append_eq_nil_iff.mp hsplit.symm).1
  | cons c tail ih =>
    by_cases hc : c = '\n'
    · refine iff_of_false (by simp [plusWays, hc]) ?_
      rintro ⟨hsplit, hne, hline, -⟩
      obtain ⟨d, p, rfl⟩ := List.exists_cons_of_ne_nil hne
      obtain ⟨rfl, -⟩ := List.cons.inj hsplit
      exact hline (hc ▸ List.mem_cons_self ..)
    · have hstep : (plusWays (c :: tail)).find? (fun w => [close].isPrefixOf w.2) =
          (((plusWays tail).find? fun w => [close].isPrefixOf w.2).map fun w => (c :: w.1, w.2)).or
            (if [close].isPrefixOf tail then some ([c], tail) else none) := by
        rw [plusWays, if_neg hc, List.find?_append, List.find?_map]
        congr 1
        by_cases htail : [close].isPrefixOf tail
        · simp [htail]
        · simp [htail]
      rw [hstep]
      cases hfind : (plusWays tail).find? (fun w => [close].isPrefixOf w.2) with
      | some w =>
        obtain ⟨hsplit, hne, hline, rest, hq, hlast⟩ := (ih w.1 w.2).mp hfind
        rw [Option.map_some, Option.some_or, Option.some.injEq, Prod.mk.injEq]
        constructor
        · rintro ⟨rfl, rfl⟩
          refine ⟨by rw [hsplit, List.cons_append], List.cons_ne_nil _ _, ?_, rest, hq, hlast⟩
          rw [List.mem_cons, not_or]
          exact ⟨Ne.symm hc, hline⟩
        · rintro ⟨hsplit', hne', hline', rest', rfl, hlast'⟩
          obtain ⟨d, p, rfl⟩ := List.exists_cons_of_ne_nil hne'
          obtain ⟨rfl, htail⟩ := List.cons.inj hsplit'
          have hp : p ≠ [] := by
            -- A single character would leave the closing character of the longer way behind it.
            rintro rfl
            obtain ⟨e, p', hp'⟩ := List.exists_cons_of_ne_nil hne
            rw [hp', hq] at hsplit
            rw [hsplit] at htail
            obtain ⟨rfl, hrest'⟩ := List.cons.inj htail
            have hin := hlast' p' rest hrest'.symm
            exact hline (hp' ▸ List.mem_cons_of_mem _ hin)
          have hsame := (ih p (close :: rest')).mpr ⟨htail, hp,
            fun h => hline' (List.mem_cons_of_mem _ h), rest', rfl, hlast'⟩
          rw [hfind, Option.some.injEq] at hsame
          exact ⟨by rw [hsame], by rw [hsame]⟩
      | none =>
        rw [Option.map_none, Option.none_or]
        have hnone : ∀ p rest, tail = p ++ close :: rest → p ≠ [] → '\n' ∈ p := by
          intro p rest hsplit hne
          by_contra hline
          have hno := List.find?_eq_none.mp hfind (p, close :: rest)
            ((mem_plusWays tail p _).mpr ⟨hsplit, hne, hline⟩)
          simp at hno
        constructor
        · intro h
          by_cases htail : [close].isPrefixOf tail
          · rw [if_pos htail] at h
            obtain ⟨rfl, rfl⟩ : [c] = p ∧ tail = q := by simpa using h
            obtain ⟨rest, rfl⟩ := List.isPrefixOf_iff_prefix.mp htail
            refine ⟨rfl, List.cons_ne_nil _ _, by simpa using Ne.symm hc, rest, rfl, ?_⟩
            intro front back hsplit
            have hin := hnone (close :: front) back (by rw [hsplit]; rfl) (List.cons_ne_nil _ _)
            exact List.mem_of_ne_of_mem (Ne.symm hclose) hin
          · rw [if_neg htail] at h
            cases h
        · rintro ⟨hsplit, hne, hline, rest, rfl, -⟩
          obtain ⟨d, p, rfl⟩ := List.exists_cons_of_ne_nil hne
          obtain ⟨rfl, htail⟩ := List.cons.inj hsplit
          obtain rfl : p = [] := by
            by_contra hp
            exact hline (List.mem_cons_of_mem _ (hnone p rest htail hp))
          obtain rfl : tail = close :: rest := htail
          rw [if_pos (by simp)]

/-! ### A bracketed text -/

/-- `key`, an inner expression and a closing character. -/
def bracketed (key : List Char) (inner : Regex) (close : Char) : Regex :=
  .seq (.text key) (.seq inner (.text [close]))

/-- The ways of a bracketed `.+`. -/
theorem ways_bracketed_append (start : Bool) (input : List Char) :
    ways (bracketed key (.group .anyPlus) close) start (key ++ input) =
      ((plusWays input).filter fun w => [close].isPrefixOf w.2).map fun w =>
        ⟨key ++ (w.1 ++ [close]), w.2.drop 1, w.1⟩ := by
  have hkey : key.isPrefixOf (key ++ input) = true :=
    List.isPrefixOf_iff_prefix.mpr (List.prefix_append key input)
  simp only [bracketed, ways, if_pos hkey, List.drop_left, List.flatMap_cons, List.flatMap_nil,
    List.append_nil, List.map_map, List.flatMap_map]
  induction plusWays input with
  | nil => rfl
  | cons w ws ih =>
    rw [List.flatMap_cons, List.map_append, ih, List.filter_cons]
    by_cases hclose : [close].isPrefixOf w.2
    · simp [hclose]
    · simp [hclose]

theorem ways_bracketed_of_differs (inner : Regex) (start : Bool) {input : List Char}
    (h : ¬key <+: input) : ways (bracketed key inner close) start input = [] := by
  have hkey : ¬key.isPrefixOf input = true := fun hpre => h (List.isPrefixOf_iff_prefix.mp hpre)
  simp [bracketed, ways, hkey]

/-- A group changes what is captured and not whether there is a way. -/
theorem ways_bracketed_group_eq_nil_iff (inner : Regex) (start : Bool) (input : List Char) :
    ways (bracketed key (.group inner) close) start input = [] ↔
      ways (bracketed key inner close) start input = [] := by
  simp [bracketed, ways, List.flatMap_eq_nil_iff]

/-- There is a way exactly if the closing character follows in the line, behind something. -/
theorem ways_bracketed_ne_nil_iff (input : List Char) :
    ways (bracketed key (.group .anyPlus) close) true input ≠ [] ↔
      ∃ args rest, input = key ++ args ++ close :: rest ∧ args ≠ [] ∧ '\n' ∉ args := by
  by_cases hkey : key <+: input
  · obtain ⟨input, rfl⟩ := hkey
    rw [ways_bracketed_append, ne_eq, List.map_eq_nil_iff, List.filter_eq_nil_iff]
    push Not
    constructor
    · rintro ⟨⟨p, q⟩, hmem, hclose⟩
      obtain ⟨rfl, hne, hline⟩ := (mem_plusWays input p q).mp hmem
      obtain ⟨rest, rfl⟩ := List.isPrefixOf_iff_prefix.mp hclose
      exact ⟨p, rest, by simp, hne, hline⟩
    · rintro ⟨args, rest, hsplit, hne, hline⟩
      rw [List.append_assoc] at hsplit
      obtain rfl := List.append_cancel_left hsplit
      exact ⟨(args, close :: rest), (mem_plusWays _ args _).mpr ⟨rfl, hne, hline⟩, by simp⟩
  · refine iff_of_false (not_not.mpr (ways_bracketed_of_differs _ _ hkey)) ?_
    rintro ⟨args, rest, rfl, -⟩
    exact hkey ⟨args ++ close :: rest, (List.append_assoc ..).symm⟩

/-- The first way captures the line up to its last closing character. -/
theorem head?_ways_bracketed (hclose : close ≠ '\n') (input args : List Char) :
    (∃ w, (ways (bracketed key (.group .anyPlus) close) true input).head? = some w ∧
      w.captured = args) ↔
      ∃ rest, input = key ++ args ++ close :: rest ∧ args ≠ [] ∧ '\n' ∉ args ∧
        NotInLine close rest := by
  by_cases hkey : key <+: input
  · obtain ⟨input, rfl⟩ := hkey
    rw [ways_bracketed_append]
    simp only [List.head?_map, List.head?_filter, Option.map_eq_some_iff]
    constructor
    · rintro ⟨w, ⟨⟨p, q⟩, hfind, rfl⟩, rfl⟩
      obtain ⟨rfl, hne, hline, rest, rfl, hlast⟩ :=
        (find?_plusWays_eq_some_iff hclose input p q).mp hfind
      exact ⟨rest, by simp, hne, hline, hlast⟩
    · rintro ⟨rest, hsplit, hne, hline, hlast⟩
      rw [List.append_assoc] at hsplit
      obtain rfl := List.append_cancel_left hsplit
      have hfind := (find?_plusWays_eq_some_iff hclose _ args (close :: rest)).mpr
        ⟨rfl, hne, hline, rest, rfl, hlast⟩
      exact ⟨_, ⟨_, hfind, rfl⟩, rfl⟩
  · rw [ways_bracketed_of_differs _ _ hkey]
    refine iff_of_false (by simp) ?_
    rintro ⟨rest, rfl, -⟩
    exact hkey ⟨args ++ close :: rest, (List.append_assoc ..).symm⟩

end Regex

end FrameworkBenchmarks.Common
