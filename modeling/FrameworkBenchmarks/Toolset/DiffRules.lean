import FrameworkBenchmarks.Toolset.DiffSelection

/-!
# The documented selection rules

The rules give each bracketed command its own closing bracket, all commands their effect, and a changed
path only its own directories. The script reads the first command up to the last bracket of its line,
looks for a directory anywhere in the list of changes, and takes the directories to be ignored from an
older list. It selects by the rules exactly where these readings make no difference.
-/

namespace FrameworkBenchmarks.Toolset

open FrameworkBenchmarks.Common

variable {testDirs : List Text} {paths : List ChangedPath} {msg : Text}

/-! ### Rules -/

/-- A command in the message: its arguments end at its own closing bracket, in the same line. -/
def CommandIn (name : String) (msg args : Text) : Prop :=
  ∃ before after, msg = before ++ (commandKey name ++ args ++ ']' :: after) ∧ args ≠ [] ∧
    '\n' ∉ args ∧ ']' ∉ args.tail

/-- A command names the test. -/
def Named (name : String) (msg test : Text) : Prop :=
  ∃ args, CommandIn name msg args ∧ test ∈ words args

/-- A command names the language of the test. -/
def NamedLang (name : String) (msg test : Text) : Prop :=
  ∃ args, CommandIn name msg args ∧ ∃ lang ∈ words args, lang ++ ['/'] <+: test

/-- `[ci run-all]` -/
def RunAll (msg : Text) : Prop := "[ci run-all]".toList <:+: msg

/-- A file of the core toolset. -/
def CorePath (path : Text) : Prop :=
  "toolset/".toList <+: path ∧ ¬"toolset/continuous/".toList <+: path ∧
      ¬"toolset/github_actions/".toList <+: path ∧ ¬"toolset/scaffolding/".toList <+: path ∨
    "tfb".toList <+: path ∨ "Dockerfile".toList <+: path ∨ ".github/workflows/".toList <+: path

/-- A file of the test has changed. -/
def Touched (paths : List ChangedPath) (test : Text) : Prop :=
  ∃ path ∈ paths, "frameworks/".toList ++ test ++ "/".toList <+: path.text

/-- Without an exclusive command, a test is selected by a change or by a command. -/
def SelectedByChange (paths : List ChangedPath) (msg test : Text) : Prop :=
  (∃ path ∈ paths, CorePath path.text) ∨ Touched paths test ∨ Named "fw" msg test ∨
    NamedLang "lang" msg test

open scoped Classical in
/-- What applies to a test: `[ci run-all]`, else the tests or the languages of an exclusive command, else
the changes. -/
def ByCommand (msg : Text) (names langs changes : Prop) : Prop :=
  if RunAll msg then True
  else if ∃ args, CommandIn "fw-only" msg args then names
  else if ∃ args, CommandIn "lang-only" msg args then langs
  else changes

/-- The tests to run by the rules. -/
def SelectedByRules (testDirs : List Text) (paths : List ChangedPath) (msg test : Text) : Prop :=
  test ∈ testDirs ∧ ByCommand msg (Named "fw-only" msg test) (NamedLang "lang-only" msg test)
    (SelectedByChange paths msg test)

/-! ### Readings -/

/-- What the script reads as the arguments of a command: the first place where a bracket follows in the
line, up to the last bracket of that line. -/
def ReadArgs (name : String) (msg args : Text) : Prop :=
  ∃ before after, msg = before ++ (commandKey name ++ args ++ ']' :: after) ∧ args ≠ [] ∧
    '\n' ∉ args ∧ Regex.NotInLine ']' after ∧
    ∀ before' args' after', msg = before' ++ (commandKey name ++ args' ++ ']' :: after') →
      args' ≠ [] → '\n' ∉ args' → before.length ≤ before'.length

def ReadName (name : String) (msg test : Text) : Prop :=
  ∃ args, ReadArgs name msg args ∧ test ∈ words args

def ReadLang (name : String) (msg test : Text) : Prop :=
  ∃ args, ReadArgs name msg args ∧ ∃ lang ∈ words args, lang ++ ['/'] <+: test

/-- A file that the script takes for one of the core toolset. -/
def ReadCore (path : Text) : Prop :=
  "toolset/".toList <+: path ∧ ¬"toolset/travis/".toList <+: path ∧
      ¬"toolset/continuous/".toList <+: path ∧ ¬"toolset/scaffolding/".toList <+: path ∨
    "tfb".toList <+: path ∨ "Dockerfile".toList <+: path ∨
    ∃ c, c ≠ '\n' ∧ c :: "github/workflows/".toList <+: path

/-- The directory of the test is contained in the list of changes. -/
def Mentioned (paths : List ChangedPath) (test : Text) : Prop :=
  "frameworks/".toList ++ test ++ "/".toList <:+: cleanOutput (paths.map ChangedPath.text)

def ReadByChange (paths : List ChangedPath) (msg test : Text) : Prop :=
  (∃ path ∈ paths, ReadCore path.text) ∨ Mentioned paths test ∨ ReadName "fw" msg test ∨
    ReadLang "lang" msg test

/-! ### The condition -/

/-- A change or command that selects the test and that the script does not see as such. -/
def Overlooked (paths : List ChangedPath) (msg test : Text) : Prop :=
  (∃ path ∈ paths, "toolset/travis/".toList <+: path.text) ∨
    (Named "fw" msg test ∧ ¬ReadName "fw" msg test) ∨
    (NamedLang "lang" msg test ∧ ¬ReadLang "lang" msg test)

/-- A change or command that does not select the test and that the script takes for one that does. -/
def Mistaken (paths : List ChangedPath) (msg test : Text) : Prop :=
  (∃ path ∈ paths, "toolset/github_actions/".toList <+: path.text) ∨
    (∃ path ∈ paths, ∃ c, c ≠ '.' ∧ c :: "github/workflows/".toList <+: path.text) ∨
    (Mentioned paths test ∧ ¬Touched paths test) ∨
    (ReadName "fw" msg test ∧ ¬Named "fw" msg test) ∨
    (ReadLang "lang" msg test ∧ ¬NamedLang "lang" msg test)

/-- Nothing is read otherwise than meant with an effect on a test. -/
def ReadAsMeant (testDirs : List Text) (paths : List ChangedPath) (msg : Text) : Prop :=
  ByCommand msg
    (∀ test ∈ testDirs, ReadName "fw-only" msg test ↔ Named "fw-only" msg test)
    (∀ test ∈ testDirs, ReadLang "lang-only" msg test ↔ NamedLang "lang-only" msg test)
    (∀ test ∈ testDirs, (Overlooked paths msg test → ReadByChange paths msg test) ∧
      (Mistaken paths msg test → SelectedByChange paths msg test))

/-! ### Commands -/

/-- The script finds a command exactly if there is one. -/
theorem hasCommand_iff (name : String) (msg : Text) :
    hasCommand name msg = true ↔ ∃ args, CommandIn name msg args := by
  rw [hasCommand, commandRegex, Regex.search_isSome_iff (fun _ _ => rfl)]
  constructor
  · rintro ⟨before, after, rfl, hways⟩
    rw [ne_eq, ← Regex.ways_bracketed_group_eq_nil_iff, ← ne_eq,
      Regex.ways_bracketed_ne_nil_iff] at hways
    obtain ⟨args, rest, rfl, hne, hline⟩ := hways
    obtain ⟨c, tail, rfl⟩ := List.exists_cons_of_ne_nil hne
    by_cases hmem : ']' ∈ tail
    · -- The command ends at the first bracket behind its first character.
      obtain ⟨front, back, rfl, hfirst⟩ := List.eq_append_cons_of_mem hmem
      refine ⟨c :: front, before, back ++ ']' :: rest, by simp, List.cons_ne_nil _ _, ?_, hfirst⟩
      rw [← List.cons_append] at hline
      exact fun h => hline (List.mem_append_left _ h)
    · exact ⟨c :: tail, before, rest, rfl, hne, hline, hmem⟩
  · rintro ⟨args, before, after, rfl, hne, hline, -⟩
    refine ⟨before, _, rfl, ?_⟩
    rw [ne_eq, ← Regex.ways_bracketed_group_eq_nil_iff, ← ne_eq, Regex.ways_bracketed_ne_nil_iff]
    exact ⟨args, after, rfl, hne, hline⟩

/-- The arguments the script works with are those it reads. -/
theorem mem_arguments_iff (name : String) (msg word : Text) :
    word ∈ arguments name msg ↔ ∃ args, ReadArgs name msg args ∧ word ∈ words args := by
  have hplace : ∀ b input, Regex.ways (argumentRegex name) b input =
      Regex.ways (argumentRegex name) true input := fun _ _ => rfl
  have hread : ∀ args, ReadArgs name msg args ↔
      ∃ way, (argumentRegex name).search true msg = some way ∧ way.captured = args := by
    intro args
    simp only [Regex.search_eq_some_iff hplace]
    constructor
    · rintro ⟨before, after, hmsg, hne, hline, hlast, hfirst⟩
      obtain ⟨way, hway, hcaptured⟩ := (Regex.head?_ways_bracketed (by decide) _ args).mpr
        ⟨after, rfl, hne, hline, hlast⟩
      refine ⟨way, ⟨before, _, hmsg, hway, ?_⟩, hcaptured⟩
      intro before' input hsplit hlt
      by_contra hways
      obtain ⟨args', rest', rfl, hne', hline'⟩ := (Regex.ways_bracketed_ne_nil_iff input).mp hways
      exact absurd hlt (Nat.not_lt.mpr (hfirst before' args' rest' hsplit hne' hline'))
    · rintro ⟨way, ⟨before, input, hmsg, hway, hfirst⟩, hcaptured⟩
      obtain ⟨after, rfl, hne, hline, hlast⟩ := (Regex.head?_ways_bracketed (by decide) _ args).mp
        ⟨way, hway, hcaptured⟩
      refine ⟨before, after, hmsg, hne, hline, hlast, ?_⟩
      intro before' args' rest' hsplit hne' hline'
      by_contra hlt
      exact (Regex.ways_bracketed_ne_nil_iff _).mpr ⟨args', rest', rfl, hne', hline'⟩
        (hfirst before' _ hsplit (Nat.not_le.mp hlt))
  simp only [hread]
  unfold arguments
  cases (argumentRegex name).search true msg with
  | none => simp
  | some way => simp

theorem mem_forcedTests_iff (name : String) (test : Text) :
    test ∈ forcedTests name testDirs msg ↔ test ∈ testDirs ∧ ReadName name msg test := by
  rw [forcedTests, List.mem_filter, mem_arguments_iff, decide_eq_true_iff, and_comm]
  rfl

theorem mem_forcedLangs_iff (name : String) (test : Text) :
    test ∈ forcedLangs name testDirs msg ↔ test ∈ testDirs ∧ ReadLang name msg test := by
  simp only [forcedLangs, List.mem_flatMap, List.mem_map, List.mem_filter, mem_arguments_iff,
    List.isPrefixOf_iff_prefix, ReadLang]
  constructor
  · rintro ⟨test', htest, lang, ⟨⟨args, hargs, hword⟩, hpre⟩, rfl⟩
    exact ⟨htest, args, hargs, lang, hword, hpre⟩
  · rintro ⟨htest, args, hargs, lang, hword, hpre⟩
    exact ⟨test, htest, lang, ⟨⟨args, hargs, hword⟩, hpre⟩, rfl⟩

/-! ### Paths -/

/-- A text without a line end starts a line exactly if it starts what is before its end. -/
theorem prefix_append_newline_iff {k line : Text} (hk : '\n' ∉ k) (input : Text) :
    k <+: line ++ '\n' :: input ↔ k <+: line := by
  constructor
  · intro h
    rcases List.prefix_or_prefix_of_prefix h (List.prefix_append line _) with hpre | hpre
    · exact hpre
    · obtain ⟨tail, rfl⟩ := hpre
      cases tail with
      | nil => simp
      | cons c tail =>
        rw [List.prefix_append_right_inj] at h
        obtain ⟨rfl, -⟩ := List.cons_prefix_cons.mp h
        exact absurd (List.mem_append_right _ (List.mem_cons_self ..)) hk
  · intro h
    exact h.trans (List.prefix_append _ _)

/-- The expression of the script has a way exactly at the start of a core path. -/
theorem ways_coreRegex_eq_nil_iff (line : Text) :
    coreRegex.ways true line = [] ↔ ¬ReadCore line := by
  have htoolset : (∃ rest, line = "toolset/".toList ++ rest ∧ ¬"travis/".toList <+: rest ∧
      ¬"continuous/".toList <+: rest ∧ ¬"scaffolding/".toList <+: rest) ↔
      "toolset/".toList <+: line ∧ ¬"toolset/travis/".toList <+: line ∧
        ¬"toolset/continuous/".toList <+: line ∧ ¬"toolset/scaffolding/".toList <+: line := by
    have hjoin : ∀ k rest : Text, "toolset/".toList ++ k <+: "toolset/".toList ++ rest ↔ k <+: rest :=
      fun k rest => List.prefix_append_right_inj _
    constructor
    · rintro ⟨rest, rfl, htravis, hcontinuous, hscaffolding⟩
      exact ⟨List.prefix_append _ _, fun h => htravis ((hjoin "travis/".toList rest).mp h),
        fun h => hcontinuous ((hjoin "continuous/".toList rest).mp h),
        fun h => hscaffolding ((hjoin "scaffolding/".toList rest).mp h)⟩
    · rintro ⟨⟨rest, rfl⟩, htravis, hcontinuous, hscaffolding⟩
      exact ⟨rest, rfl, fun h => htravis ((hjoin "travis/".toList rest).mpr h),
        fun h => hcontinuous ((hjoin "continuous/".toList rest).mpr h),
        fun h => hscaffolding ((hjoin "scaffolding/".toList rest).mpr h)⟩
  rw [ReadCore, ← htoolset]
  simp only [coreRegex, Regex.ways_alt_eq_nil_iff, Regex.ways_lineStart_seq_eq_nil_iff,
    Regex.ways_text_seq_eq_nil_iff, Regex.ways_notAhead_eq_nil_iff, Regex.ways_text_eq_nil_iff,
    Regex.ways_anyOne_seq_eq_nil_iff, ne_eq, not_or, not_exists, not_and, not_not]
  have hdot : (∀ c rest, line = c :: rest → ¬c = '\n' → ¬"github/workflows/".toList <+: rest) ↔
      ∀ c, ¬c = '\n' → ¬c :: "github/workflows/".toList <+: line := by
    constructor
    · rintro h c hc ⟨rest, rfl⟩
      exact h c _ rfl hc (List.prefix_append _ _)
    · rintro h c rest rfl hc ⟨tail, rfl⟩
      exact h c hc (List.prefix_append (c :: _) tail)
  rw [hdot]

/-- The expression of the script looks at one line. -/
theorem anchored_coreRegex : Regex.Anchored coreRegex where
  inside input := by simp [coreRegex, Regex.ways]
  local_ line input hline := by
    have hpre : ∀ k : Text, '\n' ∉ k → (k <+: line ++ '\n' :: input ↔ k <+: line) :=
      fun k hk => prefix_append_newline_iff hk input
    have hdot : ∀ c, c ≠ '\n' → (c :: "github/workflows/".toList <+: line ++ '\n' :: input ↔
        c :: "github/workflows/".toList <+: line) := by
      intro c hc
      apply hpre
      rw [List.mem_cons, not_or]
      exact ⟨Ne.symm hc, by decide⟩
    rw [ways_coreRegex_eq_nil_iff, ways_coreRegex_eq_nil_iff, ReadCore, ReadCore,
      hpre "toolset/".toList (by decide), hpre "toolset/travis/".toList (by decide),
      hpre "toolset/continuous/".toList (by decide), hpre "toolset/scaffolding/".toList (by decide),
      hpre "tfb".toList (by decide), hpre "Dockerfile".toList (by decide)]
    simp only [and_congr_right_iff.mpr (hdot _)]

theorem cleanOutput_paths (paths : List ChangedPath) :
    cleanOutput (paths.map ChangedPath.text) = ['\n'].intercalate (paths.map ChangedPath.text) := by
  rw [cleanOutput, List.filter_eq_self.mpr]
  intro line hline
  obtain ⟨path, -, rfl⟩ := List.mem_map.mp hline
  simpa using path.nonempty

/-- The script sees a change of the core toolset exactly if a path is read as one. -/
theorem search_coreRegex_iff (paths : List ChangedPath) :
    (coreRegex.search true (cleanOutput (paths.map ChangedPath.text))).isSome = true ↔
      ∃ path ∈ paths, ReadCore path.text := by
  rw [cleanOutput_paths, anchored_coreRegex.search_lines]
  · simp [ways_coreRegex_eq_nil_iff]
  · intro line hline
    obtain ⟨path, -, rfl⟩ := List.mem_map.mp hline
    exact ⟨path.nonempty, path.oneLine⟩
  · decide

/-- A file of the test is mentioned. -/
theorem Touched.mentioned {test : Text} (h : Touched paths test) : Mentioned paths test := by
  obtain ⟨path, hpath, hpre⟩ := h
  rw [Mentioned, cleanOutput_paths]
  refine hpre.isInfix.trans ?_
  induction paths with
  | nil => cases hpath
  | cons first paths ih =>
    cases paths with
    | nil =>
      obtain rfl : path = first := List.mem_singleton.mp hpath
      simp
    | cons second paths =>
      have hjoin : ['\n'].intercalate ((first :: second :: paths).map ChangedPath.text) =
          first.text ++ ('\n' :: ['\n'].intercalate ((second :: paths).map ChangedPath.text)) := by
        simp [List.intercalate]
      rw [hjoin]
      rcases List.mem_cons.mp hpath with rfl | hmem
      · exact (List.prefix_append _ _).isInfix
      · exact (ih hmem).trans ((List.suffix_cons _ _).trans (List.suffix_append _ _)).isInfix

/-! ### Selection -/

/-- Two texts that start the same path start one another. -/
theorem differs_of_startsWith {k k' path : Text} (h : k <+: path) (hk : ¬k <+: k') (hk' : ¬k' <+: k) :
    ¬k' <+: path := fun h' => (List.prefix_or_prefix_of_prefix h h').elim hk hk'

/-- The directories that are told apart by the two readings of the core toolset. -/
theorem CorePath.readCore_or {path : Text} (h : CorePath path) :
    ReadCore path ∨ "toolset/travis/".toList <+: path := by
  by_cases htravis : "toolset/travis/".toList <+: path
  · exact .inr htravis
  · left
    rcases h with ⟨htoolset, hcontinuous, -, hscaffolding⟩ | htfb | hdocker | hgithub
    · exact .inl ⟨htoolset, htravis, hcontinuous, hscaffolding⟩
    · exact .inr (.inl htfb)
    · exact .inr (.inr (.inl hdocker))
    · exact .inr (.inr (.inr ⟨'.', by decide, hgithub⟩))

theorem ReadCore.corePath_or {path : Text} (h : ReadCore path) :
    CorePath path ∨ "toolset/github_actions/".toList <+: path ∨
      ∃ c, c ≠ '.' ∧ c :: "github/workflows/".toList <+: path := by
  rcases h with ⟨htoolset, -, hcontinuous, hscaffolding⟩ | htfb | hdocker | ⟨c, -, hgithub⟩
  · by_cases hactions : "toolset/github_actions/".toList <+: path
    · exact .inr (.inl hactions)
    · exact .inl (.inl ⟨htoolset, hcontinuous, hactions, hscaffolding⟩)
  · exact .inl (.inr (.inl htfb))
  · exact .inl (.inr (.inr (.inl hdocker)))
  · by_cases hc : c = '.'
    · subst hc
      exact .inl (.inr (.inr (.inr hgithub)))
    · exact .inr (.inr ⟨c, hc, hgithub⟩)

theorem corePath_of_travis {path : Text} (h : "toolset/travis/".toList <+: path) : CorePath path :=
  .inl ⟨List.IsPrefix.trans (by decide) h, differs_of_startsWith h (by decide) (by decide),
    differs_of_startsWith h (by decide) (by decide), differs_of_startsWith h (by decide) (by decide)⟩

theorem readCore_of_githubActions {path : Text} (h : "toolset/github_actions/".toList <+: path) :
    ReadCore path :=
  .inl ⟨List.IsPrefix.trans (by decide) h, differs_of_startsWith h (by decide) (by decide),
    differs_of_startsWith h (by decide) (by decide), differs_of_startsWith h (by decide) (by decide)⟩

/-- A change is read as meant exactly if nothing that is overlooked or mistaken has an effect. -/
theorem readByChange_iff_selectedByChange (paths : List ChangedPath) (msg test : Text) :
    (ReadByChange paths msg test ↔ SelectedByChange paths msg test) ↔
      (Overlooked paths msg test → ReadByChange paths msg test) ∧
        (Mistaken paths msg test → SelectedByChange paths msg test) := by
  constructor
  · intro h
    constructor
    · rintro (⟨path, hpath, htravis⟩ | ⟨hnamed, -⟩ | ⟨hnamed, -⟩)
      · exact h.mpr (.inl ⟨path, hpath, corePath_of_travis htravis⟩)
      · exact h.mpr (.inr (.inr (.inl hnamed)))
      · exact h.mpr (.inr (.inr (.inr hnamed)))
    · rintro (⟨path, hpath, hactions⟩ | ⟨path, hpath, c, -, hgithub⟩ | ⟨hmentioned, -⟩ | ⟨hread, -⟩ |
        ⟨hread, -⟩)
      · exact h.mp (.inl ⟨path, hpath, readCore_of_githubActions hactions⟩)
      · have hc : c ≠ '\n' := by
          rintro rfl
          exact path.oneLine (hgithub.subset (List.mem_cons_self ..))
        exact h.mp (.inl ⟨path, hpath, .inr (.inr (.inr ⟨c, hc, hgithub⟩))⟩)
      · exact h.mp (.inr (.inl hmentioned))
      · exact h.mp (.inr (.inr (.inl hread)))
      · exact h.mp (.inr (.inr (.inr hread)))
  · rintro ⟨hoverlooked, hmistaken⟩
    constructor
    · rintro (⟨path, hpath, hcore⟩ | hmentioned | hread | hread)
      · rcases hcore.corePath_or with hcore | hactions | ⟨c, hc, hgithub⟩
        · exact .inl ⟨path, hpath, hcore⟩
        · exact hmistaken (.inl ⟨path, hpath, hactions⟩)
        · exact hmistaken (.inr (.inl ⟨path, hpath, c, hc, hgithub⟩))
      · by_cases htouched : Touched paths test
        · exact .inr (.inl htouched)
        · exact hmistaken (.inr (.inr (.inl ⟨hmentioned, htouched⟩)))
      · by_cases hnamed : Named "fw" msg test
        · exact .inr (.inr (.inl hnamed))
        · exact hmistaken (.inr (.inr (.inr (.inl ⟨hread, hnamed⟩))))
      · by_cases hnamed : NamedLang "lang" msg test
        · exact .inr (.inr (.inr hnamed))
        · exact hmistaken (.inr (.inr (.inr (.inr ⟨hread, hnamed⟩))))
    · rintro (⟨path, hpath, hcore⟩ | htouched | hnamed | hnamed)
      · rcases hcore.readCore_or with hread | htravis
        · exact .inl ⟨path, hpath, hread⟩
        · exact hoverlooked (.inl ⟨path, hpath, htravis⟩)
      · exact .inr (.inl htouched.mentioned)
      · by_cases hread : ReadName "fw" msg test
        · exact .inr (.inr (.inl hread))
        · exact hoverlooked (.inr (.inl ⟨hnamed, hread⟩))
      · by_cases hread : ReadLang "lang" msg test
        · exact .inr (.inr (.inr hread))
        · exact hoverlooked (.inr (.inr ⟨hnamed, hread⟩))

/-- Only commands that are there are read. -/
theorem hasCommand_of_mem_arguments {name : String} {word : Text} (h : word ∈ arguments name msg) :
    hasCommand name msg = true := by
  obtain ⟨args, ⟨before, after, rfl, hne, hline, -⟩, -⟩ := (mem_arguments_iff name msg word).mp h
  rw [hasCommand, commandRegex, Regex.search_isSome_iff (fun _ _ => rfl)]
  refine ⟨before, _, rfl, ?_⟩
  rw [ne_eq, ← Regex.ways_bracketed_group_eq_nil_iff, ← ne_eq, Regex.ways_bracketed_ne_nil_iff]
  exact ⟨args, after, rfl, hne, hline⟩

/-- The tests that are run without an exclusive command, by what the script reads. -/
theorem mem_byChange_iff (testDirs : List Text) (paths : List ChangedPath) (msg test : Text) :
    (test ∈ if (coreRegex.search true (cleanOutput (paths.map ChangedPath.text))).isSome then testDirs
      else ((if hasCommand "fw" msg then forcedTests "fw" testDirs msg else []) ++
        (if hasCommand "lang" msg then forcedLangs "lang" testDirs msg else [])) ++
        testDirs.filter fun test =>
          fwFoundInChanges test (cleanOutput (paths.map ChangedPath.text))) ↔
      test ∈ testDirs ∧ ReadByChange paths msg test := by
  have hcore := search_coreRegex_iff paths
  by_cases hread : ∃ path ∈ paths, ReadCore path.text
  · rw [if_pos (hcore.mpr hread)]
    exact ⟨fun h => ⟨h, .inl hread⟩, fun h => h.1⟩
  · rw [if_neg (mt hcore.mp hread)]
    have hfw : test ∈ (if hasCommand "fw" msg then forcedTests "fw" testDirs msg else []) ↔
        test ∈ testDirs ∧ ReadName "fw" msg test := by
      rw [← mem_forcedTests_iff]
      by_cases hcommand : hasCommand "fw" msg = true
      · rw [if_pos hcommand]
      · rw [if_neg hcommand]
        refine iff_of_false List.not_mem_nil fun h => hcommand ?_
        exact hasCommand_of_mem_arguments (List.mem_of_mem_filter h)
    have hlang : test ∈ (if hasCommand "lang" msg then forcedLangs "lang" testDirs msg else []) ↔
        test ∈ testDirs ∧ ReadLang "lang" msg test := by
      rw [← mem_forcedLangs_iff]
      by_cases hcommand : hasCommand "lang" msg = true
      · rw [if_pos hcommand]
      · rw [if_neg hcommand]
        refine iff_of_false List.not_mem_nil fun h => hcommand ?_
        obtain ⟨-, args, hargs, lang, hword, -⟩ := (mem_forcedLangs_iff "lang" test).mp h
        exact hasCommand_of_mem_arguments ((mem_arguments_iff _ _ lang).mpr ⟨args, hargs, hword⟩)
    have hmentioned : fwFoundInChanges test (cleanOutput (paths.map ChangedPath.text)) = true ↔
        Mentioned paths test := Regex.search_text_isSome_iff _ _ _
    rw [List.mem_append, List.mem_append, List.mem_filter, hfw, hlang, hmentioned]
    constructor
    · rintro ((⟨htest, hname⟩ | ⟨htest, hname⟩) | ⟨htest, hchange⟩)
      · exact ⟨htest, .inr (.inr (.inl hname))⟩
      · exact ⟨htest, .inr (.inr (.inr hname))⟩
      · exact ⟨htest, .inr (.inl hchange)⟩
    · rintro ⟨htest, hcores | hchange | hname | hname⟩
      · exact absurd hcores hread
      · exact .inr ⟨htest, hchange⟩
      · exact .inl (.inl ⟨htest, hname⟩)
      · exact .inl (.inr ⟨htest, hname⟩)

/-- The tests the script prints, by what it reads. -/
theorem mem_runTests_iff (testDirs : List Text) (paths : List ChangedPath) (msg test : Text) :
    test ∈ runTests testDirs paths msg ↔ test ∈ testDirs ∧
      ByCommand msg (ReadName "fw-only" msg test) (ReadLang "lang-only" msg test)
        (ReadByChange paths msg test) := by
  have hrunAll := Regex.search_text_isSome_iff "[ci run-all]".toList true msg
  unfold runTests ByCommand
  by_cases hall : RunAll msg
  · rw [if_pos (hrunAll.mpr hall), if_pos hall, and_true]
  · rw [if_neg (mt hrunAll.mp hall), if_neg hall]
    by_cases honly : hasCommand "fw-only" msg = true
    · rw [if_pos honly, if_pos ((hasCommand_iff _ _).mp honly), mem_forcedTests_iff]
    · rw [if_neg honly, if_neg (mt (hasCommand_iff _ _).mpr honly)]
      by_cases hlang : hasCommand "lang-only" msg = true
      · rw [if_pos hlang, if_pos ((hasCommand_iff _ _).mp hlang), mem_forcedLangs_iff]
      · rw [if_neg hlang, if_neg (mt (hasCommand_iff _ _).mpr hlang)]
        exact mem_byChange_iff testDirs paths msg test

/-- An empty message has no command. -/
theorem not_commandIn_nil (name : String) (args : Text) : ¬CommandIn name [] args := by
  rintro ⟨before, after, hmsg, -⟩
  have h := (List.append_eq_nil_iff.mp hmsg.symm).2
  simp at h

end FrameworkBenchmarks.Toolset
