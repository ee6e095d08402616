import FrameworkBenchmarks.Toolset.Results

/-!
# Uploads during a run

The two encoders agree on values without bytes, and the only bytes in the attributes are those of the git
data, until `load` has replaced them.
-/

namespace FrameworkBenchmarks.Toolset

/-! ### Values without bytes -/

mutual

/-- There are no bytes in a value. -/
def BytesFree : PyVal → Prop
  | .str (.bytes _) => False
  | .list items => BytesFreeItems items
  | .dict entries => BytesFreeEntries entries
  | _ => True

def BytesFreeItems : List PyVal → Prop
  | [] => True
  | item :: items => BytesFree item ∧ BytesFreeItems items

def BytesFreeEntries : List (PyText × PyVal) → Prop
  | [] => True
  | (key, value) :: entries => (∃ s, key = .str s) ∧ BytesFree value ∧ BytesFreeEntries entries

end

mutual

/-- Every encoder makes the same document of a value without bytes. -/
theorem encode_of_bytesFree : ∀ v : PyVal, BytesFree v → ∃ j, ∀ default, encode default v = .ok j
  | .null, _ => ⟨_, fun _ => rfl⟩
  | .bool _, _ => ⟨_, fun _ => rfl⟩
  | .int _, _ => ⟨_, fun _ => rfl⟩
  | .float _, _ => ⟨_, fun _ => rfl⟩
  | .str (.str _), _ => ⟨_, fun _ => rfl⟩
  | .str (.bytes _), h => absurd h not_false
  | .list items, h => by
    obtain ⟨j, hj⟩ := encodeItems_of_bytesFree items h
    exact ⟨.list j, fun default => by rw [encode, hj]; rfl⟩
  | .dict entries, h => by
    obtain ⟨j, hj⟩ := encodeEntries_of_bytesFree entries h
    exact ⟨.dict j, fun default => by rw [encode, hj]; rfl⟩

theorem encodeItems_of_bytesFree : ∀ items : List PyVal, BytesFreeItems items →
    ∃ j, ∀ default, encodeItems default items = .ok j
  | [], _ => ⟨_, fun _ => rfl⟩
  | item :: items, h => by
    obtain ⟨j, hj⟩ := encode_of_bytesFree item h.1
    obtain ⟨js, hjs⟩ := encodeItems_of_bytesFree items h.2
    exact ⟨j :: js, fun default => by rw [encodeItems, hj, hjs]; rfl⟩

theorem encodeEntries_of_bytesFree : ∀ entries : List (PyText × PyVal), BytesFreeEntries entries →
    ∃ j, ∀ default, encodeEntries default entries = .ok j
  | [], _ => ⟨_, fun _ => rfl⟩
  | (key, value) :: entries, h => by
    obtain ⟨s, rfl⟩ := h.1
    obtain ⟨j, hj⟩ := encode_of_bytesFree value h.2.1
    obtain ⟨js, hjs⟩ := encodeEntries_of_bytesFree entries h.2.2
    exact ⟨(s, j) :: js, fun default => by rw [encodeEntries, hj, hjs]; rfl⟩

end

mutual

theorem bytesFree_loads : ∀ j : Value String, BytesFree (loads j)
  | .null => trivial
  | .bool _ => trivial
  | .int _ => trivial
  | .float _ => trivial
  | .str _ => trivial
  | .list items => bytesFree_loadsItems items
  | .dict entries => bytesFree_loadsEntries entries

theorem bytesFree_loadsItems : ∀ items : List (Value String), BytesFreeItems (loadsItems items)
  | [] => trivial
  | item :: items => ⟨bytesFree_loads item, bytesFree_loadsItems items⟩

theorem bytesFree_loadsEntries : ∀ entries : List (String × Value String),
    BytesFreeEntries (loadsEntries entries)
  | [] => trivial
  | (_, value) :: entries => ⟨⟨_, rfl⟩, bytesFree_loads value, bytesFree_loadsEntries entries⟩

end

theorem bytesFreeItems_iff {items : List PyVal} : BytesFreeItems items ↔ ∀ v ∈ items, BytesFree v := by
  induction items with
  | nil => simp [BytesFreeItems]
  | cons item items ih => simp [BytesFreeItems, ih]

theorem bytesFreeEntries_iff {entries : List (PyText × PyVal)} :
    BytesFreeEntries entries ↔ ∀ e ∈ entries, (∃ s, e.1 = .str s) ∧ BytesFree e.2 := by
  induction entries with
  | nil => simp [BytesFreeEntries]
  | cons e entries ih =>
    obtain ⟨key, value⟩ := e
    simp [BytesFreeEntries, ih, and_assoc]

/-- A change of a value that brings no bytes in. -/
def Keeps (f : PyVal → Except Raised PyVal) : Prop := ∀ v w, BytesFree v → f v = .ok w → BytesFree w

theorem bytesFree_setItem {entries : List (PyText × PyVal)} (h : BytesFreeEntries entries)
    (key : String) {value : PyVal} (hvalue : BytesFree value) :
    BytesFreeEntries (Python.setItem entries (.str key) value) := by
  rw [bytesFreeEntries_iff] at h ⊢
  intro e he
  unfold Python.setItem at he
  split at he
  · obtain ⟨e', he', rfl⟩ := List.mem_map.mp he
    split
    · exact ⟨(h e' he').1, hvalue⟩
    · exact h e' he'
  · rcases List.mem_append.mp he with he | he
    · exact h e he
    · obtain rfl := List.mem_singleton.mp he
      exact ⟨⟨key, rfl⟩, hvalue⟩

theorem keeps_setKey (key : String) {value : PyVal} (hvalue : BytesFree value) :
    Keeps (setKey key value) := by
  intro v w hv hw
  cases v with
  | dict entries =>
    obtain rfl := Except.ok.inj hw
    exact bytesFree_setItem hv key hvalue
  | _ => cases hw

theorem keeps_getKey (key : String) : Keeps (getKey key) := by
  intro v w hv hw
  cases v with
  | dict entries =>
    rw [getKey] at hw
    cases hlookup : entries.lookup (PyText.str key) with
    | none =>
      rw [hlookup] at hw
      cases hw
    | some value =>
      rw [hlookup] at hw
      obtain rfl := Except.ok.inj hw
      obtain ⟨front, back, rfl, -⟩ := List.lookup_eq_some_iff.mp hlookup
      exact (bytesFreeEntries_iff.mp hv _ (List.mem_append_right _ List.mem_cons_self)).2
  | _ => cases hw

theorem keeps_addDict (key : String) : Keeps (addDict key) := by
  intro v w hv hw
  cases v with
  | dict entries =>
    rw [addDict] at hw
    obtain rfl := Except.ok.inj hw
    split
    · exact hv
    · exact bytesFree_setItem hv key trivial
  | _ => cases hw

theorem bind_eq_ok {α β : Type} {x : Except Raised α} {f : α → Except Raised β} {b : β}
    (h : x >>= f = .ok b) : ∃ a, x = .ok a ∧ f a = .ok b := by
  cases x with
  | error e => cases h
  | ok a => exact ⟨a, rfl, h⟩

theorem keeps_setNested (outer inner : String) {value : PyVal} (hvalue : BytesFree value) :
    Keeps (setNested outer inner value) := by
  intro v w hv hw
  obtain ⟨entry, hentry, hw⟩ := bind_eq_ok hw
  obtain ⟨entry', hentry', hw⟩ := bind_eq_ok hw
  exact keeps_setKey outer (keeps_setKey inner hvalue _ _ (keeps_getKey outer _ _ hv hentry) hentry')
    _ _ hv hw

theorem keeps_appendName (key name : String) : Keeps (appendName key name) := by
  intro v w hv hw
  obtain ⟨names, hnames, hw⟩ := bind_eq_ok hw
  cases names with
  | list names =>
    have hfree : BytesFreeItems names := keeps_getKey key _ _ hv hnames
    dsimp only at hw
    split at hw
    · obtain rfl := Except.ok.inj hw
      exact hv
    · refine keeps_setKey key ?_ _ _ hv hw
      rw [BytesFree, bytesFreeItems_iff]
      intro item hitem
      rcases List.mem_append.mp hitem with hitem | hitem
      · exact bytesFreeItems_iff.mp hfree item hitem
      · rw [List.mem_singleton.mp hitem]
        trivial
  | _ => cases hw

/-- A change that makes a dictionary. -/
def MakesDict (f : PyVal → Except Raised PyVal) : Prop := ∀ v w, f v = .ok w → ∃ d, w = .dict d

theorem makesDict_setKey (key : String) (value : PyVal) : MakesDict (setKey key value) := by
  intro v w hw
  cases v with
  | dict entries => exact ⟨_, (Except.ok.inj hw).symm⟩
  | _ => cases hw

theorem makesDict_addDict (key : String) : MakesDict (addDict key) := by
  intro v w hw
  cases v with
  | dict entries =>
    rw [addDict] at hw
    obtain rfl := Except.ok.inj hw
    split
    · exact ⟨_, rfl⟩
    · exact ⟨_, rfl⟩
  | _ => cases hw

theorem makesDict_setNested (outer inner : String) (value : PyVal) :
    MakesDict (setNested outer inner value) := by
  intro v w hw
  obtain ⟨entry, -, hw⟩ := bind_eq_ok hw
  obtain ⟨entry', -, hw⟩ := bind_eq_ok hw
  exact makesDict_setKey outer entry' v w hw

/-! ### Documents -/

theorem mapM_ok_iff {α β : Type} {f : α → Except Raised β} {l : List α} :
    (∃ ys, l.mapM f = .ok ys) ↔ ∀ a ∈ l, ∃ b, f a = .ok b := by
  induction l with
  | nil => simp [pure, Except.pure]
  | cons a l ih =>
    rw [List.mapM_cons, List.forall_mem_cons, ← ih]
    constructor
    · rintro ⟨ys, hys⟩
      obtain ⟨b, hb, hys⟩ := bind_eq_ok hys
      obtain ⟨bs, hbs, -⟩ := bind_eq_ok hys
      exact ⟨⟨b, hb⟩, bs, hbs⟩
    · rintro ⟨⟨b, hb⟩, bs, hbs⟩
      exact ⟨b :: bs, by rw [hb, hbs]; rfl⟩

theorem Attr.mem_all (a : Attr) : a ∈ Attr.all := by
  cases a <;> decide

/-- A dictionary is written if all its values are. -/
theorem dumps_ok_iff {default : Default} {obj : Attr → PyVal} :
    (∃ doc, dumps default obj = .ok doc) ↔ ∀ a, ∃ j, encode default (obj a) = .ok j := by
  have hentries : (∃ doc, dumps default obj = .ok doc) ↔ ∃ entries, (Attr.all.mapM fun a =>
      (encode default (obj a)).map fun value => (a, value)) = .ok entries := by
    constructor
    · rintro ⟨doc, hdoc⟩
      obtain ⟨entries, hentries, -⟩ := bind_eq_ok hdoc
      exact ⟨entries, hentries⟩
    · rintro ⟨entries, hentries⟩
      exact ⟨_, by rw [dumps, hentries]; rfl⟩
  rw [hentries, mapM_ok_iff]
  constructor
  · intro h a
    obtain ⟨b, hb⟩ := h a a.mem_all
    cases hj : encode default (obj a) with
    | error e =>
      rw [hj] at hb
      cases hb
    | ok j => exact ⟨j, rfl⟩
  · intro h a _
    obtain ⟨j, hj⟩ := h a
    exact ⟨(a, j), by rw [hj]; rfl⟩

/-- Every encoder writes the same document of attributes without bytes. -/
theorem dumps_of_bytesFree {obj : Attr → PyVal} (h : ∀ a, BytesFree (obj a)) :
    ∃ doc, ∀ default, dumps default obj = .ok doc := by
  choose j hj using fun a => encode_of_bytesFree (obj a) (h a)
  obtain ⟨doc, hdoc⟩ := dumps_ok_iff.mpr fun a => ⟨j a, hj a jsonEncoder⟩
  refine ⟨doc, fun default => ?_⟩
  rw [← hdoc]
  simp only [dumps, hj]

/-! ### Attributes -/

/-- The git data as they are kept. -/
def rawGit (git : GitData) : PyVal :=
  .dict [(.str "commitId", .str (.bytes git.commitId)),
    (.str "repositoryUrl", .str (.bytes git.repositoryUrl)),
    (.str "branchName", .str (.bytes git.branchName))]

/-- The git data are text. -/
def GitData.Decodes (git : GitData) : Prop :=
  ∀ b ∈ [git.commitId, git.repositoryUrl, git.branchName], ∃ s, decode b = .ok s

theorem encode_rawGit_iff {default : Default} {git : GitData} :
    (∃ j, encode default (rawGit git) = .ok j) ↔
      ∀ b ∈ [git.commitId, git.repositoryUrl, git.branchName], ∃ s, default b = .ok s := by
  simp only [rawGit, encode, encodeEntries, encodeKey, encodeText, List.forall_mem_cons]
  cases default git.commitId with
  | error e =>
    apply iff_of_false
    · rintro ⟨j, hj⟩
      cases hj
    · rintro ⟨⟨s, hs⟩, _⟩
      cases hs
  | ok commitId =>
    cases default git.repositoryUrl with
    | error e =>
      apply iff_of_false
      · rintro ⟨j, hj⟩
        cases hj
      · rintro ⟨_, ⟨s, hs⟩, _⟩
        cases hs
    | ok repositoryUrl =>
      cases default git.branchName with
      | error e =>
        apply iff_of_false
        · rintro ⟨j, hj⟩
          cases hj
        · rintro ⟨_, _, ⟨s, hs⟩, _⟩
          cases hs
      | ok branchName =>
        exact iff_of_true ⟨_, rfl⟩ ⟨⟨_, rfl⟩, ⟨_, rfl⟩, ⟨_, rfl⟩, fun b hb => by cases hb⟩

/-- What holds of an attribute: it has no bytes, but for git data that are kept raw, and the attributes
that calls store into before anything is written are dictionaries (if they are as `__init__` left
them). -/
def Sound (git : Option GitData) (own : Prop) : Attr → PyVal → Prop
  | .git, v => git.elim (BytesFree v) fun git => v = rawGit git
  | .completed, v => BytesFree v ∧ (own → ∃ d, v = .dict d)
  | .rawData, v => BytesFree v ∧ (own → ∃ d, v = .dict d)
  | _, v => BytesFree v

/-- The attributes are sound, and the file is as described. -/
structure Holds (git : Option GitData) (own : Prop) (file : ResultsFile) (s : Results) : Prop where
  sound : ∀ a, Sound git own a (s.attrs a)
  file : s.file = file

section Effects

variable {git : Option GitData} {own : Prop} {file : ResultsFile}

/-- Effects that keep the attributes sound and the file as it is. -/
def Effect.Quiet (git : Option GitData) (own : Prop) (e : Effect) : Prop :=
  ∀ file s, Holds git own file s → Holds git own file (e s).1

theorem Effect.Quiet.andThen {first second : Effect} (h : first.Quiet git own)
    (h' : second.Quiet git own) : (first.andThen second).Quiet git own := by
  intro file s hs
  have hfirst := h file s hs
  unfold Effect.andThen
  cases hrun : first s with
  | mk s' raised =>
    rw [hrun] at hfirst
    cases raised with
    | none => exact h' file s' hfirst
    | some e => exact hfirst

theorem quiet_assign {a : Attr} {f : PyVal → Except Raised PyVal} (ha : a ≠ .git) (hf : Keeps f)
    (hd : a = .completed ∨ a = .rawData → MakesDict f) : (assign a f).Quiet git own := by
  intro file s hs
  unfold assign
  cases hv : f (s.attrs a) with
  | error e => exact hs
  | ok v =>
    refine ⟨fun b => ?_, hs.file⟩
    by_cases hb : b = a
    · subst hb
      have hold := hs.sound b
      simp only [Function.update_self]
      cases b with
      | git => exact absurd rfl ha
      | completed => exact ⟨hf _ _ hold.1 hv, fun _ => hd (Or.inl rfl) _ _ hv⟩
      | rawData => exact ⟨hf _ _ hold.1 hv, fun _ => hd (Or.inr rfl) _ _ hv⟩
      | _ => exact hf _ _ hold hv
    · simp only [Function.update_of_ne hb]
      exact hs.sound b

theorem quiet_reportBenchmarkResults (config : RunConfig) (testName testType : String)
    (results : List (Value String)) :
    (Results.step config (.reportBenchmarkResults testName testType results)).Quiet git own := by
  apply Effect.Quiet.andThen
  · exact quiet_assign (by decide) (keeps_addDict _) fun _ => makesDict_addDict _
  · split
    · exact quiet_assign (by decide) (keeps_appendName _ _) fun h => absurd h (by decide)
    · apply Effect.Quiet.andThen
      · exact quiet_assign (by decide) (keeps_setNested _ _ (bytesFree_loadsItems results))
          fun _ => makesDict_setNested _ _ _
      · exact quiet_assign (by decide) (keeps_appendName _ _) fun h => absurd h (by decide)

theorem quiet_reportVerifyResults (config : RunConfig) (testName testType result : String) :
    (Results.step config (.reportVerifyResults testName testType result)).Quiet git own := by
  apply Effect.Quiet.andThen
  · exact quiet_assign (by decide) (keeps_addDict _) fun _ => makesDict_addDict _
  · exact quiet_assign (by decide) (keeps_setNested _ _ trivial) fun _ => makesDict_setNested _ _ _

theorem quiet_setKey {a : Attr} (ha : a ≠ .git) (key : String) {value : PyVal}
    (hvalue : BytesFree value) : (assign a (setKey key value)).Quiet git own :=
  quiet_assign ha (keeps_setKey key hvalue) fun _ => makesDict_setKey _ _

/-! ### Files -/

theorem bytesFree_of_sound {a : Attr} {v : PyVal} (h : Sound git own a v) (ha : a ≠ .git ∨ git = none) :
    BytesFree v := by
  cases a with
  | git =>
    obtain rfl := ha.resolve_left (absurd rfl)
    exact h
  | completed => exact h.1
  | rawData => exact h.1
  | _ => exact h

/-- All the values that are serialised, but the git data, have no bytes. -/
theorem Holds.toJsonable {s : Results} (h : Holds git own file s) (config : RunConfig) {a : Attr}
    (ha : a ≠ .git ∨ git = none) : BytesFree (s.toJsonable config a) := by
  unfold Results.toJsonable
  by_cases hmeta : a = .testMetadata
  · rw [hmeta, Function.update_self]
    exact bytesFree_loads _
  · rw [Function.update_of_ne hmeta]
    exact bytesFree_of_sound (h.sound a) ha

/-- Raw git data are what decides whether a dictionary is written. -/
theorem Holds.dumps_iff {git : GitData} {s : Results} (h : Holds (some git) own file s)
    (config : RunConfig) (default : Default) :
    (∃ doc, dumps default (s.toJsonable config) = .ok doc) ↔
      ∀ b ∈ [git.commitId, git.repositoryUrl, git.branchName], ∃ s, default b = .ok s := by
  rw [dumps_ok_iff, ← encode_rawGit_iff]
  have hgit : s.toJsonable config .git = rawGit git := h.sound .git
  constructor
  · intro hall
    rw [← hgit]
    exact hall .git
  · intro hj a
    by_cases ha : a = .git
    · rw [ha, hgit]
      exact hj
    · obtain ⟨j, hj⟩ := encode_of_bytesFree _ (h.toJsonable config (Or.inl ha))
      exact ⟨j, hj default⟩

theorem dumpToFile_ok {config : RunConfig} {default : Default} {s : Results}
    (h : Holds git own file s) (hdumps : ∃ doc, dumps default (s.toJsonable config) = .ok doc) :
    ∃ doc, Holds git own (.document doc) (dumpToFile config default s).1 := by
  obtain ⟨doc, hdoc⟩ := hdumps
  refine ⟨doc, ?_⟩
  rw [dumpToFile, hdoc]
  exact ⟨h.sound, rfl⟩

theorem dumpToFile_error {config : RunConfig} {default : Default} {s : Results}
    (h : Holds git own file s) (hdumps : ¬∃ doc, dumps default (s.toJsonable config) = .ok doc) :
    Holds git own .truncated (dumpToFile config default s).1 := by
  rw [dumpToFile]
  cases hdoc : dumps default (s.toJsonable config) with
  | ok doc => exact absurd ⟨doc, hdoc⟩ hdumps
  | error e => exact ⟨h.sound, rfl⟩

end Effects

/-! ### Runs -/

/-- The calls that serialise with the default encoder. -/
def Call.Serialises (config : RunConfig) : Call → Prop
  | .parse _ _ => True
  | .upload => config.resultsUploadUri.isSome
  | _ => False

/-- The calls that write the file with `ByteEncoder`. -/
def Call.writes : Call → Bool
  | .writeIntermediate _ _ => true
  | .setCompletionTime _ => true
  | _ => false

/-- What `upload` would serialise is what `__write_results` would write. -/
def UploadsWritten (config : RunConfig) (s : Results) : Prop :=
  ∃ doc, dumps jsonEncoder (s.toJsonable config) = .ok doc ∧
    dumps byteEncoder (s.toJsonable config) = .ok doc

/-- An upload sends what would be written, and after a parse the file is not truncated. -/
def CallCorrect (config : RunConfig) (s : Results) : Call → Prop
  | .upload => config.resultsUploadUri.isSome → UploadsWritten config s
  | .parse commitCounts slocCounts =>
    ¬(Results.step config (.parse commitCounts slocCounts) s).1.file = .truncated
  | _ => True

def AllCorrect (config : RunConfig) : Results → List Call → Prop
  | _, [] => True
  | s, call :: calls => CallCorrect config s call ∧ AllCorrect config (Results.step config call s).1 calls

/-- The state after some calls. -/
def Results.run (config : RunConfig) (s : Results) (calls : List Call) : Results :=
  calls.foldl (fun s call => (Results.step config call s).1) s

/-- Nothing is serialised before the first `load` that finds a document: one that was there at the start
(`readable`), or one that was written, which takes git data that are text (`decodes`). -/
def LoadsFirst (config : RunConfig) (decodes : Prop) : Prop → List Call → Prop
  | _, [] => True
  | readable, .load :: calls => readable ∨ LoadsFirst config decodes readable calls
  | readable, call :: calls =>
    ¬call.Serialises config ∧ LoadsFirst config decodes (if call.writes then decodes else readable) calls

def IsDocument (file : ResultsFile) : Prop := ∃ doc, file = .document doc

section Runs

variable {config : RunConfig} {own : Prop} {file : ResultsFile} {s : Results}

/-- Without raw git data, a method that ends with a write leaves the file or writes a document. -/
theorem Holds.andThen_dump (h : Holds none own file s) (config : RunConfig) {e : Effect} (he : e.Quiet none own)
    (default : Default) :
    ∃ file', Holds none own file' (e.andThen (dumpToFile config default) s).1 ∧
      (IsDocument file → IsDocument file') := by
  have hfirst := he file s h
  unfold Effect.andThen
  cases hrun : e s with
  | mk s' raised =>
    rw [hrun] at hfirst
    cases raised with
    | some e => exact ⟨file, hfirst, id⟩
    | none =>
      obtain ⟨doc, hdoc⟩ := dumps_of_bytesFree fun a => hfirst.toJsonable config (Or.inr rfl)
      obtain ⟨doc, hholds⟩ := dumpToFile_ok hfirst ⟨doc, hdoc default⟩
      exact ⟨_, hholds, fun _ => ⟨doc, rfl⟩⟩

/-- A store into an attribute that is a dictionary does not raise. -/
theorem exists_assign {a : Attr} {d : List (PyText × PyVal)} (h : s.attrs a = .dict d) (key : String)
    (value : PyVal) : ∃ s', assign a (setKey key value) s = (s', none) ∧ ∃ d', s'.attrs a = .dict d' := by
  refine ⟨_, by rw [assign, h]; rfl, ?_⟩
  exact ⟨_, by simp only [Function.update_self]; rfl⟩

theorem quiet_counts {git : Option GitData} (commitCounts slocCounts : Value String) :
    ((countCommits commitCounts).andThen (countSloc slocCounts)).Quiet git own := by
  apply Effect.Quiet.andThen
  · exact quiet_setKey (by decide) "commitCounts" (bytesFree_loads commitCounts)
  · exact quiet_setKey (by decide) "slocCounts" (bytesFree_loads slocCounts)

/-- The counts of `parse` can be stored in data that are a dictionary. -/
theorem Holds.counts {git : Option GitData} (h : Holds git own file s) (hown : own)
    (commitCounts slocCounts : Value String) :
    ∃ s', (countCommits commitCounts).andThen (countSloc slocCounts) s = (s', none) ∧
      Holds git own file s' := by
  obtain ⟨d, hd⟩ := (h.sound .rawData).2 hown
  obtain ⟨s₁, hs₁, d₁, hd₁⟩ := exists_assign hd "commitCounts" (loads commitCounts)
  obtain ⟨s₂, hs₂, -⟩ := exists_assign hd₁ "slocCounts" (loads slocCounts)
  have hrun : (countCommits commitCounts).andThen (countSloc slocCounts) s = (s₂, none) := by
    simp only [Effect.andThen, countCommits, countSloc, hs₁, hs₂]
  have hholds := quiet_counts commitCounts slocCounts file s h
  rw [hrun] at hholds
  exact ⟨s₂, hrun, hholds⟩

theorem andThen_of_none {first second : Effect} {s' : Results} (h : first s = (s', none)) :
    first.andThen second s = second s' := by
  simp only [Effect.andThen, h]

theorem quiet_complete {git : Option GitData} (testName statusMessage : String) :
    (assign .completed (setKey testName (.str (.str statusMessage)))).Quiet git own :=
  quiet_setKey (by decide) testName trivial

theorem quiet_time {git : Option GitData} (time : ℤ) :
    (assign .completionTime fun _ => .ok (.int time)).Quiet git own := by
  apply quiet_assign (by decide)
  · intro v w _ hw
    obtain rfl := Except.ok.inj hw
    trivial
  · exact fun h => absurd h (by decide)

/-- `load` of a document leaves attributes without bytes. -/
theorem Holds.load_document {git : Option GitData} (h : Holds git own file s) (hfile : IsDocument file) :
    Holds none False file (Results.step config .load s).1 := by
  obtain ⟨doc, rfl⟩ := hfile
  have hload : Results.step config .load s = ({ s with attrs := fun a => loads (doc a) }, none) := by
    simp only [Results.step, h.file]
  rw [hload]
  refine ⟨fun a => ?_, h.file⟩
  cases a with
  | completed => exact ⟨bytesFree_loads _, False.elim⟩
  | rawData => exact ⟨bytesFree_loads _, False.elim⟩
  | _ => exact bytesFree_loads _

theorem Holds.load_other {git : Option GitData} (h : Holds git own file s) (hfile : ¬IsDocument file) :
    Results.step config .load s = (s, none) := by
  cases hs : s.file with
  | document doc => exact absurd ⟨doc, h.file.symm.trans hs⟩ hfile
  | missing => simp only [Results.step, hs]
  | truncated => simp only [Results.step, hs]

/-- Without raw git data every call is correct, and it stays so. -/
theorem Holds.step_correct (h : Holds none own file s) (hok : own ∨ IsDocument file)
    (config : RunConfig) (call : Call) :
    CallCorrect config s call ∧ ∃ own' file', Holds none own' file' (Results.step config call s).1 ∧
      (own' ∨ IsDocument file') := by
  cases call with
  | writeIntermediate testName statusMessage =>
    obtain ⟨file', hholds, hfile⟩ :=
      h.andThen_dump config (quiet_complete testName statusMessage) byteEncoder
    exact ⟨trivial, own, file', hholds, hok.imp_right hfile⟩
  | setCompletionTime time =>
    obtain ⟨file', hholds, hfile⟩ := h.andThen_dump config (quiet_time time) byteEncoder
    exact ⟨trivial, own, file', hholds, hok.imp_right hfile⟩
  | reportBenchmarkResults testName testType results =>
    exact ⟨trivial, own, file, quiet_reportBenchmarkResults config testName testType results file s h, hok⟩
  | reportVerifyResults testName testType result =>
    exact ⟨trivial, own, file, quiet_reportVerifyResults config testName testType result file s h, hok⟩
  | load =>
    refine ⟨trivial, ?_⟩
    by_cases hfile : IsDocument file
    · exact ⟨False, file, h.load_document hfile, Or.inr hfile⟩
    · rw [h.load_other hfile]
      exact ⟨own, file, h, hok⟩
  | parse commitCounts slocCounts =>
    obtain ⟨file', hholds, hfile⟩ :=
      h.andThen_dump config (quiet_counts commitCounts slocCounts) jsonEncoder
    refine ⟨?_, own, file', hholds, hok.imp_right hfile⟩
    rcases hok with hown | hdocument
    · obtain ⟨s', hs', h'⟩ := h.counts hown commitCounts slocCounts
      obtain ⟨doc, hdoc⟩ := dumps_of_bytesFree fun a => h'.toJsonable config (Or.inr rfl)
      obtain ⟨doc, hwritten⟩ := dumpToFile_ok h' ⟨doc, hdoc jsonEncoder⟩
      rw [CallCorrect, Results.step, andThen_of_none hs', hwritten.file]
      exact fun heq => nomatch heq
    · obtain ⟨doc, rfl⟩ := hfile hdocument
      intro heq
      exact nomatch hholds.file.symm.trans heq
  | upload =>
    obtain ⟨doc, hdoc⟩ := dumps_of_bytesFree fun a => h.toJsonable config (Or.inr rfl)
    exact ⟨fun _ => ⟨doc, hdoc _, hdoc _⟩, own, file, h, hok⟩

/-- Without raw git data every run is correct. -/
theorem Holds.allCorrect (h : Holds none own file s) (hok : own ∨ IsDocument file) (calls : List Call) :
    AllCorrect config s calls := by
  induction calls generalizing own file s with
  | nil => trivial
  | cons call calls ih =>
    obtain ⟨hcall, own', file', hstep, hok'⟩ := h.step_correct hok config call
    exact ⟨hcall, ih hstep hok'⟩

section Raw

variable {git : GitData}

/-- A method that stores something and writes with `ByteEncoder` leaves a document if the git data are
text, and else a truncated file. -/
theorem Holds.write_raw (h : Holds (some git) True file s) (config : RunConfig) {e : Effect} (he : e.Quiet (some git) True)
    (hrun : ∃ s', e s = (s', none)) :
    ∃ file', Holds (some git) True file' (e.andThen (writeResults config) s).1 ∧
      (IsDocument file' ↔ git.Decodes) := by
  obtain ⟨s', hs'⟩ := hrun
  have hfirst := he file s h
  rw [hs'] at hfirst
  rw [andThen_of_none hs']
  by_cases hdecodes : git.Decodes
  · obtain ⟨doc, hholds⟩ := dumpToFile_ok hfirst ((hfirst.dumps_iff config byteEncoder).mpr hdecodes)
    exact ⟨_, hholds, iff_of_true ⟨doc, rfl⟩ hdecodes⟩
  · have hholds := dumpToFile_error hfirst fun hdoc =>
      hdecodes ((hfirst.dumps_iff config byteEncoder).mp hdoc)
    exact ⟨_, hholds, iff_of_false (fun ⟨doc, hdoc⟩ => nomatch hdoc) hdecodes⟩

/-- With raw git data the default encoder fails. -/
theorem Holds.not_dumps (h : Holds (some git) own file s) (config : RunConfig) :
    ¬∃ doc, dumps jsonEncoder (s.toJsonable config) = .ok doc := by
  rw [h.dumps_iff]
  intro hall
  obtain ⟨s, hs⟩ := hall git.commitId List.mem_cons_self
  cases hs

/-- With raw git data, and all attributes as `__init__` and the reports make them, exactly the runs are
correct that load a document before anything is serialised. -/
theorem Holds.allCorrect_iff (h : Holds (some git) True file s) (calls : List Call) :
    AllCorrect config s calls ↔ LoadsFirst config git.Decodes (IsDocument file) calls := by
  induction calls generalizing file s with
  | nil => exact Iff.rfl
  | cons call calls ih =>
    cases call with
    | writeIntermediate testName statusMessage =>
      obtain ⟨d, hd⟩ := (h.sound .completed).2 trivial
      obtain ⟨s', hs', -⟩ := exists_assign hd testName (.str (.str statusMessage))
      obtain ⟨file', hholds, hfile⟩ :=
        h.write_raw config (quiet_complete testName statusMessage) ⟨s', hs'⟩
      have hrest : AllCorrect config (Results.step config (.writeIntermediate testName statusMessage) s).1
          calls ↔ _ := ih hholds
      rw [hfile] at hrest
      simpa [AllCorrect, CallCorrect, LoadsFirst, Call.Serialises, Call.writes] using hrest
    | setCompletionTime time =>
      obtain ⟨file', hholds, hfile⟩ := h.write_raw config (quiet_time time) ⟨_, rfl⟩
      have hrest : AllCorrect config (Results.step config (.setCompletionTime time) s).1 calls ↔ _ :=
        ih hholds
      rw [hfile] at hrest
      simpa [AllCorrect, CallCorrect, LoadsFirst, Call.Serialises, Call.writes] using hrest
    | reportBenchmarkResults testName testType results =>
      have hrest := ih (quiet_reportBenchmarkResults config testName testType results file s h)
      simpa [AllCorrect, CallCorrect, LoadsFirst, Call.Serialises, Call.writes] using hrest
    | reportVerifyResults testName testType result =>
      have hrest := ih (quiet_reportVerifyResults config testName testType result file s h)
      simpa [AllCorrect, CallCorrect, LoadsFirst, Call.Serialises, Call.writes] using hrest
    | load =>
      rw [AllCorrect, LoadsFirst]
      by_cases hfile : IsDocument file
      · exact iff_of_true ⟨trivial, (h.load_document hfile).allCorrect (Or.inr hfile) calls⟩ (Or.inl hfile)
      · rw [h.load_other hfile, ih h]
        exact ⟨fun hcalls => Or.inr hcalls.2, fun hcalls => ⟨trivial, hcalls.resolve_left hfile⟩⟩
    | parse commitCounts slocCounts =>
      obtain ⟨s', hs', h'⟩ := h.counts trivial commitCounts slocCounts
      have htruncated := (dumpToFile_error h' (h'.not_dumps config)).file
      refine iff_of_false (fun hall => hall.1 ?_) fun hloads => hloads.1 trivial
      rw [Results.step, andThen_of_none hs', htruncated]
    | upload =>
      by_cases huri : config.resultsUploadUri.isSome
      · refine iff_of_false (fun hall => ?_) fun hloads => hloads.1 huri
        obtain ⟨doc, hdoc, -⟩ := hall.1 huri
        exact h.not_dumps config ⟨doc, hdoc⟩
      · have hrest : AllCorrect config (Results.step config .upload s).1 calls ↔ _ := ih h
        simpa [AllCorrect, CallCorrect, LoadsFirst, Call.Serialises, Call.writes, huri] using hrest

end Raw

theorem bytesFree_types (types : List String) {v : PyVal} (hv : BytesFree v) :
    BytesFree (.dict (types.map fun type => (PyText.str type, v))) := by
  rw [BytesFree, bytesFreeEntries_iff]
  intro e he
  obtain ⟨type, -, rfl⟩ := List.mem_map.mp he
  exact ⟨⟨type, rfl⟩, hv⟩

theorem holds_init (config : RunConfig) (git : Option GitData) (file : ResultsFile) :
    Holds git True file (Results.init config git file) := by
  refine ⟨fun a => ?_, rfl⟩
  cases a with
  | git =>
    cases git with
    | none => trivial
    | some git => rfl
  | completed => exact ⟨trivial, fun _ => ⟨_, rfl⟩⟩
  | rawData => exact ⟨bytesFree_types _ trivial, fun _ => ⟨_, rfl⟩⟩
  | completionTime => trivial
  | succeeded => exact bytesFree_types _ trivial
  | failed => exact bytesFree_types _ trivial
  | verify => trivial
  | _ => exact bytesFree_loads _

/-- Without raw git data the state stays free of bytes. -/
theorem Holds.run (h : Holds none own file s) (hok : own ∨ IsDocument file) (calls : List Call) :
    ∃ own' file', Holds none own' file' (s.run config calls) := by
  induction calls generalizing own file s with
  | nil => exact ⟨own, file, h⟩
  | cons call calls ih =>
    obtain ⟨-, own', file', hstep, hok'⟩ := h.step_correct hok config call
    exact ih hstep hok'

/-- In a run, every upload sends what would be written and no parse truncates the file exactly where the
git data are absent or a document is loaded before anything is serialised. The state is serialised as it
is written all the way exactly where the git data are absent. -/
theorem uploads_written_iff (config : RunConfig) (git : Option GitData) (file : ResultsFile)
    (calls : List Call) :
    (AllCorrect config (Results.init config git file) calls ↔
      ∀ data ∈ git, LoadsFirst config data.Decodes (IsDocument file) calls) ∧
    ((∀ before after, calls = before ++ after →
        UploadsWritten config ((Results.init config git file).run config before)) ↔ git = none) := by
  have hinit := holds_init config git file
  cases git with
  | none =>
    refine ⟨iff_of_true (hinit.allCorrect (Or.inl trivial) calls) fun data hdata => (nomatch hdata),
      iff_of_true (fun before after _ => ?_) rfl⟩
    obtain ⟨own', file', hrun⟩ := hinit.run (Or.inl trivial) before
    obtain ⟨doc, hdoc⟩ := dumps_of_bytesFree fun a => hrun.toJsonable config (Or.inr rfl)
    exact ⟨doc, hdoc _, hdoc _⟩
  | some git =>
    refine ⟨?_, iff_of_false (fun hall => ?_) fun hnone => nomatch hnone⟩
    · rw [hinit.allCorrect_iff]
      simp
    · obtain ⟨doc, hdoc, -⟩ := hall [] calls rfl
      exact hinit.not_dumps config ⟨doc, hdoc⟩

/-- A run that uploads to some address. -/
def uploadingConfig : RunConfig := ⟨some "http://localhost/", ["json"], .list [], fun _ => .null⟩

/-- The first upload of a run with git data, behind the first status, fails, and a parse truncates the
file. -/
theorem upload_fails :
    ¬UploadsWritten uploadingConfig ((Results.init uploadingConfig
        (some ⟨[97], [98], [99]⟩) .missing).run uploadingConfig [.writeIntermediate "gemini" "done"]) ∧
      ((Results.init uploadingConfig (some ⟨[97], [98], [99]⟩) .missing).run uploadingConfig
        [.parse (.dict []) (.dict [])]).file = .truncated := by
  have hinit := holds_init uploadingConfig (some ⟨[97], [98], [99]⟩) .missing
  constructor
  · rintro ⟨doc, hdoc, -⟩
    obtain ⟨file, hholds, -⟩ :=
      hinit.write_raw uploadingConfig (quiet_complete "gemini" "done") ⟨_, rfl⟩
    exact hholds.not_dumps uploadingConfig ⟨doc, hdoc⟩
  · rfl

end Runs

end FrameworkBenchmarks.Toolset
