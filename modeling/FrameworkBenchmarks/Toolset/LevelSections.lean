import FrameworkBenchmarks.Toolset.ParseTest

/-!
# Sections of benchmark logs

The wrk scripts print a primer section, a warmup section and a section for each level. A level shows its
command, the lines of wrk, of which those for latency, socket errors and failed responses may be missing,
and the times of its start and end.
-/

namespace FrameworkBenchmarks.Toolset.RawFile

/-! ### The format -/

/-- The digits of a number. -/
def number (n : ℕ) : Text := Nat.toDigits 10 n

/-- A figure with a decimal point and a unit. -/
structure Figure where
  whole : Text
  fraction : Text
  unit : Text
  whole_ne : whole ≠ []
  unit_ne : unit ≠ []
  digits : ∀ c ∈ whole ++ fraction, c.isDigit = true
  units : ∀ c ∈ unit, isUnit c = true

def Figure.text (figure : Figure) : Text := figure.whole ++ '.' :: figure.fraction ++ figure.unit

/-- A figure behind some spaces. -/
def spaced (spaces : ℕ) (figure : Figure) : Text := List.replicate spaces ' ' ++ figure.text

/-- The latency line: the average, the standard deviation, the maximum and the share of the samples
within one deviation, each behind some spaces. -/
structure LatencyLine where
  avg : ℕ × Figure
  stdev : ℕ × Figure
  max : ℕ × Figure
  share : ℕ × Figure

def LatencyLine.text (l : LatencyLine) : Text :=
  "    Latency".toList ++ (spaced l.avg.1 l.avg.2 ++ (spaced l.stdev.1 l.stdev.2 ++
    (spaced l.max.1 l.max.2 ++ spaced l.share.1 l.share.2)))

/-- The line with the number of requests; the time and the amount of data follow. -/
structure RequestsLine where
  total : ℕ
  tail : Text

def RequestsLine.text (l : RequestsLine) : Text :=
  "  ".toList ++ (number l.total ++ (" requests in ".toList ++ l.tail))

structure SocketErrors where
  connect : ℕ
  read : ℕ
  write : ℕ
  timeout : ℕ

def SocketErrors.text (l : SocketErrors) : Text :=
  "  Socket errors: connect ".toList ++ (number l.connect ++ (", read ".toList ++ (number l.read ++
    (", write ".toList ++ (number l.write ++ (", timeout ".toList ++ number l.timeout))))))

def non2xxText (n : ℕ) : Text := "  Non-2xx or 3xx responses: ".toList ++ number n

def startText (time : ℕ) : Text := "STARTTIME ".toList ++ number time

def endText (time : ℕ) : Text := "ENDTIME ".toList ++ number time

def dashes : Text := "---------------------------------------------------------".toList

/-- The lines that the scripts print at the start of a section. -/
def sectionHead (title command : Text) : List Text := [[], dashes, title, command, dashes, []]

/-- The primer or the warmup section. -/
structure WarmupSection where
  word : Text
  name : Text
  command : Text
  output : List Text

def WarmupSection.title (l : WarmupSection) : Text := " Running ".toList ++ (l.word ++ (' ' :: l.name))

def WarmupSection.lines (l : WarmupSection) : List Text := sectionHead l.title l.command ++ l.output

/-- The section of a level. -/
structure Level where
  word : Text
  count : ℕ
  name : Text
  command : Text
  banner : List Text
  latency : Option LatencyLine
  distribution : List Text
  requests : RequestsLine
  socketErrors : Option SocketErrors
  non2xx : Option ℕ
  rates : List Text
  startTime : ℕ
  endTime : ℕ

def Level.title (l : Level) : Text :=
  ' ' :: l.word ++ (' ' :: number l.count ++ (" for ".toList ++ l.name))

/-- The lines of wrk and of the script behind the head of the section. -/
def Level.body (l : Level) : List Text :=
  l.banner ++ (l.latency.toList.map LatencyLine.text ++ (l.distribution ++ (l.requests.text ::
    (l.socketErrors.toList.map SocketErrors.text ++ (l.non2xx.toList.map non2xxText ++ (l.rates ++
      [startText l.startTime, endText l.endTime]))))))

def Level.lines (l : Level) : List Text := sectionHead l.title l.command ++ l.body

/-- A raw log with a primer, a warmup and some levels. -/
def rawLog (primer warmup : WarmupSection) (levels : List Level) : List Text :=
  primer.lines ++ (warmup.lines ++ levels.flatMap Level.lines)

/-- The numbers that are printed in a section. -/
def Level.entry (l : Level) : RawData where
  latencyAvg := l.latency.map fun latency => latency.avg.2.text
  latencyStdev := l.latency.map fun latency => latency.stdev.2.text
  latencyMax := l.latency.map fun latency => latency.max.2.text
  totalRequests := some l.requests.total
  connect := l.socketErrors.map SocketErrors.connect
  read := l.socketErrors.map SocketErrors.read
  write := l.socketErrors.map SocketErrors.write
  timeout := l.socketErrors.map SocketErrors.timeout
  status5xx := l.non2xx
  startTime := some l.startTime
  endTime := some l.endTime

/-! ### Lines without the words of other lines -/

/-- The words that the parser looks for, but for those of the latency and the requests line. -/
def lineWords : List Text :=
  ["Queries:", "Concurrency:", "Warmup", "Primer", "Socket errors", "Non-2xx", "STARTTIME", "ENDTIME"].map
    String.toList

/-- A line that mentions none of these words, and the latency not with four figures. -/
structure Unmarked (line : Text) : Prop where
  words : ∀ word ∈ lineWords, mentions word line = false
  latency : mentions "Latency".toList line = true → (figures 0 line).length ≠ 4

/-- An unmarked line that is not about the requests either. -/
structure Silent (line : Text) : Prop extends Unmarked line where
  requests : mentions "requests in".toList line = false

/-- The texts that the scripts interpolate, and the lines of wrk without recorded numbers, mention nothing
that the parser looks for. -/
structure Level.Plain (l : Level) : Prop where
  word : l.word = "Queries:".toList ∨ l.word = "Concurrency:".toList
  silent : ∀ line ∈ l.command :: (l.banner ++ (l.distribution ++ l.rates)), Silent line
  requests : Unmarked l.requests.text

/-- The lines of the section announce no level. -/
structure WarmupSection.Plain (l : WarmupSection) : Prop where
  word : l.word = "Warmup".toList ∨ l.word = "Primer".toList
  quiet : ∀ line ∈ l.title :: l.command :: l.output, startsLevel line = false

/-! ### Substrings and numbers -/

theorem isPrefixOf_eq_false_of_not_mem {word line : Text} {c : Char} (hc : c ∈ word) (h : c ∉ line) :
    word.isPrefixOf line = false := by
  rw [← Bool.not_eq_true, List.isPrefixOf_iff_prefix]
  exact fun hstart => h (hstart.mem hc)

/-- A line does not mention a word with a character that it lacks. -/
theorem mentions_eq_false {word line : Text} {c : Char} (hc : c ∈ word) (h : c ∉ line) :
    mentions word line = false := by
  induction line with
  | nil => exact isPrefixOf_eq_false_of_not_mem hc h
  | cons d line ih =>
    rw [mentions, isPrefixOf_eq_false_of_not_mem hc h, ih fun hmem => h (List.mem_cons_of_mem d hmem)]
    rfl

theorem mentions_append {word line : Text} (h : mentions word line = true) (before : Text) :
    mentions word (before ++ line) = true := by
  induction before with
  | nil => exact h
  | cons c before ih => rw [List.cons_append, mentions, ih, Bool.or_true]

theorem mentions_of_start {word line : Text} (h : word.isPrefixOf line = true) :
    mentions word line = true := by
  cases line with
  | nil => exact h
  | cons c line => rw [mentions, h, Bool.true_or]

theorem number_ne_nil (n : ℕ) : number n ≠ [] := Nat.toDigits_ne_nil

theorem isDigit_of_mem_number {n : ℕ} {c : Char} (h : c ∈ number n) : c.isDigit = true :=
  Nat.isDigit_of_mem_toDigits (by decide) (by decide) h

theorem ofDigitChars_number (n : ℕ) : Nat.ofDigitChars 10 (number n) 0 = n :=
  Nat.ofDigitChars_ten_toDigits

/-- The characters of a line are digits, or are in a list. -/
def MadeOf (chars line : Text) : Prop := ∀ c ∈ line, c.isDigit = true ∨ c ∈ chars

theorem MadeOf.append {chars line line' : Text} (h : MadeOf chars line) (h' : MadeOf chars line') :
    MadeOf chars (line ++ line') := by
  intro c hc
  rcases List.mem_append.mp hc with hc | hc
  · exact h c hc
  · exact h' c hc

theorem madeOf_number (chars : Text) (n : ℕ) : MadeOf chars (number n) :=
  fun _ hc => Or.inl (isDigit_of_mem_number hc)

theorem madeOf_of_all {chars line : Text} (h : line.all (chars.contains ·) = true) :
    MadeOf chars line := by
  intro c hc
  exact Or.inr (List.contains_iff_mem.mp (List.all_eq_true.mp h c hc))

/-- A line does not mention a word with a character that is neither a digit nor in the list. -/
theorem MadeOf.mentions {chars line word : Text} (h : MadeOf chars line)
    (hword : word.any (fun c => !c.isDigit && !chars.contains c) = true) : mentions word line = false := by
  obtain ⟨c, hc, hlacks⟩ := List.any_eq_true.mp hword
  have hlacks : c.isDigit = false ∧ c ∉ chars := by simpa using hlacks
  apply mentions_eq_false hc
  intro hmem
  rcases h c hmem with hdigit | hchars
  · rw [hlacks.1] at hdigit
    cases hdigit
  · exact hlacks.2 hchars

theorem takeWhile_append_of_all {p : Char → Bool} {l rest : Text} (h : ∀ c ∈ l, p c = true)
    (hrest : ∀ c ∈ rest.head?, p c = false) : (l ++ rest).takeWhile p = l := by
  rw [List.takeWhile_append_of_pos h]
  cases rest with
  | nil => simp
  | cons c rest => simp [hrest c rfl]

/-- The number between two texts is found where they stand. -/
theorem numberAt_number (before : Text) {after rest : Text} (n : ℕ)
    (hrest : ∀ c ∈ (after ++ rest).head?, c.isDigit = false) :
    numberAt before after (before ++ (number n ++ (after ++ rest))) = some n := by
  unfold numberAt
  have hdigits : (number n ++ (after ++ rest)).takeWhile Char.isDigit = number n :=
    takeWhile_append_of_all (fun c hc => isDigit_of_mem_number hc) hrest
  rw [if_pos (List.isPrefixOf_iff_prefix.mpr (List.prefix_append _ _))]
  simp only [List.drop_left, hdigits]
  rw [if_pos ⟨number_ne_nil n, List.isPrefixOf_iff_prefix.mpr (List.prefix_append _ _)⟩,
    ofDigitChars_number]

theorem searchNumber_of_start {before after line : Text} {n : ℕ} (h : numberAt before after line = some n) :
    searchNumber before after line = some n := by
  cases line with
  | nil => exact h
  | cons c line => rw [searchNumber, h]

/-- Digits are passed over in a search for something that starts otherwise. -/
theorem searchNumber_digits {c : Char} {before after digits : Text} (hc : c.isDigit = false)
    (h : ∀ d ∈ digits, d.isDigit = true) (line : Text) :
    searchNumber (c :: before) after (digits ++ line) = searchNumber (c :: before) after line := by
  induction digits with
  | nil => rfl
  | cons d digits ih =>
    have hne : c ≠ d := by
      rintro rfl
      rw [h c List.mem_cons_self] at hc
      cases hc
    have hstart : numberAt (c :: before) after (d :: (digits ++ line)) = none := by
      have hother : (c :: before).isPrefixOf (d :: (digits ++ line)) = false := by
        simp [List.isPrefixOf, hne]
      rw [numberAt, hother, if_neg Bool.false_ne_true]
    rw [List.cons_append, searchNumber, hstart]
    exact ih fun e he => h e (List.mem_cons_of_mem d he)

theorem no_digits {letters : Text} (h : letters.any Char.isDigit = false) : ∀ c ∈ letters, c.isDigit = false := by
  intro c hc
  simpa using List.any_eq_false.mp h c hc

/-- A search for a number passes over what is no digit. -/
theorem searchNumber_letters {letters after : Text} (h : ∀ c ∈ letters, c.isDigit = false)
    (line : Text) : searchNumber [] after (letters ++ line) = searchNumber [] after line := by
  induction letters with
  | nil => rfl
  | cons c letters ih =>
    have hnone : numberAt [] after (c :: (letters ++ line)) = none := by
      simp [numberAt, h c List.mem_cons_self]
    rw [List.cons_append, searchNumber, hnone]
    exact ih fun d hd => h d (List.mem_cons_of_mem c hd)

/-! ### Figures -/

theorem not_isDigit_of_isUnit {c : Char} (h : isUnit c = true) : c.isDigit = false ∧ c ≠ '.' := by
  have hmem : c ∈ ['u', 's', '|', 'm', '%'] := of_decide_eq_true h
  simp only [List.mem_cons, List.not_mem_nil, or_false] at hmem
  rcases hmem with rfl | rfl | rfl | rfl | rfl <;> decide

theorem Figure.text_ne_nil (figure : Figure) : figure.text ≠ [] := by
  simp [Figure.text]

/-- The unit of a figure ends its digits. -/
theorem Figure.head_unit (figure : Figure) (rest : Text) :
    ∀ c ∈ (figure.unit ++ rest).head?, c.isDigit = false ∧ c ≠ '.' := by
  intro c hc
  obtain ⟨d, unit, hunit⟩ := List.exists_cons_of_ne_nil figure.unit_ne
  rw [hunit, List.cons_append, List.head?_cons, Option.mem_some_iff] at hc
  obtain rfl := hc
  exact not_isDigit_of_isUnit (figure.units d (hunit ▸ List.mem_cons_self))

theorem figureAt_text (figure : Figure) {rest : Text} (hrest : ∀ c ∈ rest.head?, isUnit c = false) :
    figureAt (figure.text ++ rest) = some figure.text := by
  have hshape : figure.text ++ rest =
      figure.whole ++ (['.'] ++ (figure.fraction ++ (figure.unit ++ rest))) := by
    simp [Figure.text]
  have hwhole : (figure.text ++ rest).takeWhile Char.isDigit = figure.whole := by
    rw [hshape]
    exact takeWhile_append_of_all (fun c hc => figure.digits c (List.mem_append_left _ hc))
      fun c hc => by obtain rfl := Option.some.inj hc; rfl
  have hdots : (['.'] ++ (figure.fraction ++ (figure.unit ++ rest))).takeWhile (· = '.') = ['.'] := by
    apply takeWhile_append_of_all (by simp)
    intro c hc
    apply decide_eq_false
    cases hfraction : figure.fraction with
    | nil =>
      rw [hfraction] at hc
      exact (figure.head_unit rest c hc).2
    | cons d fraction =>
      rw [hfraction, List.cons_append, List.head?_cons, Option.mem_some_iff] at hc
      obtain rfl := hc
      rintro rfl
      have hdigit := figure.digits '.' (List.mem_append_right _ (hfraction ▸ List.mem_cons_self))
      exact absurd hdigit (by decide)
  have hfraction : (figure.fraction ++ (figure.unit ++ rest)).takeWhile Char.isDigit =
      figure.fraction := by
    apply takeWhile_append_of_all fun c hc => figure.digits c (List.mem_append_right _ hc)
    exact fun c hc => (figure.head_unit rest c hc).1
  have hunit : (figure.unit ++ rest).takeWhile isUnit = figure.unit :=
    takeWhile_append_of_all figure.units hrest
  simp only [figureAt, hwhole]
  simp only [hshape, List.drop_left, hdots, hfraction, hunit]
  rw [if_pos ⟨figure.whole_ne, figure.unit_ne⟩]
  simp [Figure.text]

theorem figures_skip (l rest : Text) : figures l.length (l ++ rest) = figures 0 rest := by
  induction l with
  | nil => rfl
  | cons c l ih =>
    rw [List.length_cons, List.cons_append, figures]
    exact ih

/-- A figure is found, and the search goes on behind it. -/
theorem figures_text (figure : Figure) {rest : Text} (hrest : ∀ c ∈ rest.head?, isUnit c = false) :
    figures 0 (figure.text ++ rest) = figure.text :: figures 0 rest := by
  have hfigure := figureAt_text figure hrest
  obtain ⟨c, text, htext⟩ := List.exists_cons_of_ne_nil figure.text_ne_nil
  rw [htext, List.cons_append] at hfigure ⊢
  rw [figures, hfigure]
  exact congrArg _ (figures_skip text rest)

theorem figures_of_not_digit {c : Char} (hc : c.isDigit = false) (line : Text) :
    figures 0 (c :: line) = figures 0 line := by
  have hnone : figureAt (c :: line) = none := by
    simp [figureAt, hc]
  rw [figures, hnone]

theorem figures_letters {letters : Text} (h : ∀ c ∈ letters, c.isDigit = false) (line : Text) :
    figures 0 (letters ++ line) = figures 0 line := by
  induction letters with
  | nil => rfl
  | cons c letters ih =>
    rw [List.cons_append, figures_of_not_digit (h c List.mem_cons_self)]
    exact ih fun d hd => h d (List.mem_cons_of_mem c hd)

theorem figures_spaced (spaces : ℕ) (figure : Figure) {rest : Text}
    (hrest : ∀ c ∈ rest.head?, isUnit c = false) :
    figures 0 (spaced spaces figure ++ rest) = figure.text :: figures 0 rest := by
  have hspaces : ∀ c ∈ List.replicate spaces ' ', c.isDigit = false := by
    intro c hc
    rw [List.eq_of_mem_replicate hc]
    rfl
  rw [spaced, List.append_assoc, figures_letters hspaces, figures_text figure hrest]

/-- A figure behind spaces does not start with a unit. -/
theorem head_spaced (spaces : ℕ) (figure : Figure) (rest : Text) :
    ∀ c ∈ (spaced spaces figure ++ rest).head?, isUnit c = false := by
  intro c hc
  cases spaces with
  | zero =>
    obtain ⟨d, whole, hwhole⟩ := List.exists_cons_of_ne_nil figure.whole_ne
    have hdigit := figure.digits d (by rw [hwhole]; exact List.mem_cons_self)
    have hd : d = c := by simpa [spaced, Figure.text, hwhole] using hc
    rw [← hd, ← Bool.not_eq_true]
    intro hunit
    rw [(not_isDigit_of_isUnit hunit).1] at hdigit
    cases hdigit
  | succ n =>
    have hspace : ' ' = c := by simpa [spaced, List.replicate_succ] using hc
    rw [← hspace]
    rfl

/-- The figures of a latency line. -/
theorem figures_latency (l : LatencyLine) :
    figures 0 l.text = [l.avg.2.text, l.stdev.2.text, l.max.2.text, l.share.2.text] := by
  have hletters : ∀ c ∈ "    Latency".toList, c.isDigit = false := no_digits rfl
  have hlast := @figures_spaced l.share.1 l.share.2 [] (fun c hc => nomatch hc)
  have hend := head_spaced l.share.1 l.share.2 []
  rw [List.append_nil] at hlast hend
  unfold LatencyLine.text
  rw [figures_letters hletters]
  rw [figures_spaced l.avg.1 l.avg.2 (head_spaced l.stdev.1 l.stdev.2 _)]
  rw [figures_spaced l.stdev.1 l.stdev.2 (head_spaced l.max.1 l.max.2 _)]
  rw [figures_spaced l.max.1 l.max.2 hend]
  rw [hlast]
  rfl

/-! ### What a line adds to an entry -/

section Lines

variable {S : Type} (parseStats : ℕ → ℕ → S)

theorem readNeeded_of_not {word before line : Text} {set : RawData → ℕ → RawData}
    (h : mentions word line = false) (rawData : RawData) :
    readNeeded word before set line rawData = .ok rawData := by
  rw [readNeeded, h, if_neg Bool.false_ne_true]

theorem readNeeded_of_search {word before line : Text} {set : RawData → ℕ → RawData} {n : ℕ}
    (h : mentions word line = true) (hn : searchNumber before [] line = some n) (rawData : RawData) :
    readNeeded word before set line rawData = .ok (set rawData n) := by
  rw [readNeeded, h, if_pos rfl, hn]

theorem readLatency_of_unmarked {line : Text} (h : Unmarked line) (rawData : RawData) :
    readLatency line rawData = rawData := by
  unfold readLatency
  split
  · rename_i hmentions
    have hlength := h.latency hmentions
    split
    · rename_i hfigures
      rw [hfigures] at hlength
      exact absurd rfl hlength
    · rfl
  · rfl

theorem readRequests_of_not {line : Text} (h : mentions "requests in".toList line = false)
    (rawData : RawData) : readRequests line rawData = rawData := by
  rw [readRequests, h, if_neg Bool.false_ne_true]

theorem readSocketErrors_of_not {line : Text} (h : mentions "Socket errors".toList line = false)
    (rawData : RawData) : readSocketErrors line rawData = .ok rawData := by
  rw [readSocketErrors, h, if_neg Bool.false_ne_true]

theorem readNon2xx_of_not {line : Text} (h : mentions "Non-2xx".toList line = false)
    (rawData : RawData) : readNon2xx line rawData = rawData := by
  rw [readNon2xx, h, if_neg Bool.false_ne_true]

theorem readEndTime_of_not {line : Text} (h : mentions "ENDTIME".toList line = false)
    (rawData : RawData) : readEndTime parseStats line rawData = .ok (rawData, []) := by
  rw [readEndTime, h, if_neg Bool.false_ne_true]

theorem unmarked_of_madeOf {chars line : Text} (h : MadeOf chars line)
    (hwords : ("Latency".toList :: lineWords).all (fun word =>
      word.any fun c => !c.isDigit && !chars.contains c) = true) : Unmarked line := by
  rw [List.all_cons, Bool.and_eq_true] at hwords
  refine ⟨fun word hword => h.mentions (List.all_eq_true.mp hwords.2 word hword), fun hlatency => ?_⟩
  rw [h.mentions hwords.1] at hlatency
  cases hlatency

variable {line : Text}

theorem Unmarked.startsLevel (h : Unmarked line) : startsLevel line = false := by
  rw [RawFile.startsLevel, h.words _ (by simp [lineWords]), h.words _ (by simp [lineWords]), Bool.or_self]

theorem Unmarked.startsWarmup (h : Unmarked line) : startsWarmup line = false := by
  rw [RawFile.startsWarmup, h.words _ (by simp [lineWords]), h.words _ (by simp [lineWords]), Bool.or_self]

/-- A line without marks is read for the number of requests only. -/
theorem Unmarked.readLine (h : Unmarked line) (rawData : RawData) :
    readLine parseStats line rawData = .ok (readRequests line rawData, []) := by
  have hsocket : mentions "Socket errors".toList line = false := h.words _ (by simp [lineWords])
  have hnon2xx : mentions "Non-2xx".toList line = false := h.words _ (by simp [lineWords])
  have hstart : mentions "STARTTIME".toList line = false := h.words _ (by simp [lineWords])
  have hend : mentions "ENDTIME".toList line = false := h.words _ (by simp [lineWords])
  rw [RawFile.readLine, readLatency_of_unmarked h, readSocketErrors_of_not hsocket]
  simp only [bind, Except.bind, readNon2xx_of_not hnon2xx, readStartTime, readNeeded_of_not hstart,
    readEndTime_of_not parseStats hend]

theorem Silent.readLine (h : Silent line) (rawData : RawData) :
    RawFile.readLine parseStats line rawData = .ok (rawData, []) := by
  rw [h.toUnmarked.readLine, readRequests_of_not h.requests]

/-- The characters of a latency line, but for the digits. -/
theorem madeOf_latency (l : LatencyLine) : MadeOf "    Latency.us|m%".toList l.text := by
  have hspaced (spaces : ℕ) (figure : Figure) :
      MadeOf "    Latency.us|m%".toList (spaced spaces figure) := by
    have hunits : ∀ c, isUnit c = true → c ∈ "    Latency.us|m%".toList := by
      intro c hc
      have hmem : c ∈ ['u', 's', '|', 'm', '%'] := of_decide_eq_true hc
      simp only [List.mem_cons, List.not_mem_nil, or_false] at hmem
      rcases hmem with rfl | rfl | rfl | rfl | rfl <;> decide
    intro c hc
    simp only [spaced, Figure.text, List.mem_append, List.mem_cons, List.mem_replicate] at hc
    rcases hc with ⟨-, rfl⟩ | (hc | rfl | hc) | hc
    · exact Or.inr (by decide)
    · exact Or.inl (figure.digits c (List.mem_append_left _ hc))
    · exact Or.inr (by decide)
    · exact Or.inl (figure.digits c (List.mem_append_right _ hc))
    · exact Or.inr (hunits c (figure.units c hc))
  unfold LatencyLine.text
  exact (madeOf_of_all (by decide)).append ((hspaced _ _).append ((hspaced _ _).append
    ((hspaced _ _).append (hspaced _ _))))

theorem LatencyLine.readLine (l : LatencyLine) (rawData : RawData) :
    RawFile.readLine parseStats l.text rawData = .ok ({ rawData with
      latencyAvg := some l.avg.2.text
      latencyStdev := some l.stdev.2.text
      latencyMax := some l.max.2.text }, []) := by
  have hmade := madeOf_latency l
  have hlatency : mentions "Latency".toList l.text = true :=
    mentions_append (mentions_of_start rfl) "    ".toList
  have hread : readLatency l.text rawData = { rawData with
      latencyAvg := some l.avg.2.text
      latencyStdev := some l.stdev.2.text
      latencyMax := some l.max.2.text } := by
    rw [readLatency, hlatency, if_pos rfl, figures_latency]
  have hstart : mentions "STARTTIME".toList l.text = false := hmade.mentions rfl
  rw [RawFile.readLine, hread, readRequests_of_not (hmade.mentions rfl),
    readSocketErrors_of_not (hmade.mentions rfl)]
  simp only [bind, Except.bind, readNon2xx_of_not (hmade.mentions rfl), readStartTime,
    readNeeded_of_not hstart, readEndTime_of_not parseStats (hmade.mentions rfl)]

theorem RequestsLine.readRequests (l : RequestsLine) (rawData : RawData) :
    RawFile.readRequests l.text rawData = { rawData with totalRequests := some l.total } := by
  have hmentions : mentions "requests in".toList l.text = true := by
    unfold RequestsLine.text
    apply mentions_append
    apply mentions_append
    exact mentions_append (mentions_of_start rfl) " ".toList
  have hnumber : numberAt [] " requests in".toList
      (number l.total ++ (" requests in".toList ++ (' ' :: l.tail))) = some l.total :=
    numberAt_number [] l.total (fun c hc => by obtain rfl := Option.some.inj hc; rfl)
  have hsearch : searchNumber [] " requests in".toList l.text = some l.total := by
    unfold RequestsLine.text
    rw [searchNumber_letters (no_digits rfl)]
    exact searchNumber_of_start hnumber
  rw [RawFile.readRequests, hmentions, if_pos rfl, hsearch]

theorem madeOf_socketErrors (l : SocketErrors) :
    MadeOf "  Socket errors: connect , read , write , timeout ".toList l.text := by
  unfold SocketErrors.text
  exact (madeOf_of_all (by decide)).append ((madeOf_number _ _).append ((madeOf_of_all (by decide)).append
    ((madeOf_number _ _).append ((madeOf_of_all (by decide)).append ((madeOf_number _ _).append
      ((madeOf_of_all (by decide)).append (madeOf_number _ _)))))))

/-- The number behind a word, where a part of the line before it that ends in a number is passed over. -/
theorem searchNumber_pass {c : Char} {before letters : Text} (hc : c.isDigit = false)
    (hletters : ∀ line, searchNumber (c :: before) [] (letters ++ line) =
      searchNumber (c :: before) [] line) (n : ℕ) (line : Text) :
    searchNumber (c :: before) [] (letters ++ (number n ++ line)) =
      searchNumber (c :: before) [] line := by
  rw [hletters, searchNumber_digits hc fun d hd => isDigit_of_mem_number hd]

theorem searchNumber_number (before : Text) (n : ℕ) {rest : Text}
    (hrest : ∀ c ∈ rest.head?, c.isDigit = false) :
    searchNumber before [] (before ++ (number n ++ rest)) = some n :=
  searchNumber_of_start (numberAt_number before n hrest)

theorem SocketErrors.searchConnect (l : SocketErrors) :
    searchNumber "connect ".toList [] l.text = some l.connect := by
  have hstart (line : Text) : searchNumber "connect ".toList [] ("  Socket errors: connect ".toList ++ line) =
      searchNumber "connect ".toList [] ("connect ".toList ++ line) := rfl
  refine (hstart _).trans (searchNumber_number _ _ ?_)
  exact fun c hc => by obtain rfl := Option.some.inj hc; rfl

theorem SocketErrors.searchRead (l : SocketErrors) :
    searchNumber "read ".toList [] l.text = some l.read := by
  have hstart (line : Text) : searchNumber "read ".toList [] (", read ".toList ++ line) =
      searchNumber "read ".toList [] ("read ".toList ++ line) := rfl
  have hconnect := @searchNumber_pass 'r' "ead ".toList "  Socket errors: connect ".toList rfl
    (fun _ => rfl) l.connect
  refine (hconnect _).trans ((hstart _).trans (searchNumber_number _ _ ?_))
  exact fun c hc => by obtain rfl := Option.some.inj hc; rfl

theorem SocketErrors.searchWrite (l : SocketErrors) :
    searchNumber "write ".toList [] l.text = some l.write := by
  have hstart (line : Text) : searchNumber "write ".toList [] (", write ".toList ++ line) =
      searchNumber "write ".toList [] ("write ".toList ++ line) := rfl
  have hconnect := @searchNumber_pass 'w' "rite ".toList "  Socket errors: connect ".toList rfl
    (fun _ => rfl) l.connect
  have hread := @searchNumber_pass 'w' "rite ".toList ", read ".toList rfl (fun _ => rfl) l.read
  refine (hconnect _).trans ((hread _).trans ((hstart _).trans (searchNumber_number _ _ ?_)))
  exact fun c hc => by obtain rfl := Option.some.inj hc; rfl

theorem SocketErrors.searchTimeout (l : SocketErrors) :
    searchNumber "timeout ".toList [] l.text = some l.timeout := by
  have hstart (line : Text) : searchNumber "timeout ".toList [] (", timeout ".toList ++ line) =
      searchNumber "timeout ".toList [] ("timeout ".toList ++ line) := rfl
  have hconnect := @searchNumber_pass 't' "imeout ".toList "  Socket errors: connect ".toList rfl
    (fun _ => rfl) l.connect
  have hread := @searchNumber_pass 't' "imeout ".toList ", read ".toList rfl (fun _ => rfl) l.read
  have hwrite := @searchNumber_pass 't' "imeout ".toList ", write ".toList rfl (fun _ => rfl) l.write
  have hnumber := @searchNumber_number "timeout ".toList l.timeout [] fun c hc => nomatch hc
  rw [List.append_nil] at hnumber
  exact (hconnect _).trans ((hread _).trans ((hwrite _).trans ((hstart _).trans hnumber)))

theorem SocketErrors.readLine (l : SocketErrors) (rawData : RawData) :
    RawFile.readLine parseStats l.text rawData = .ok ({ rawData with
      connect := some l.connect
      read := some l.read
      write := some l.write
      timeout := some l.timeout }, []) := by
  have hmade := madeOf_socketErrors l
  have hlatency : readLatency l.text rawData = rawData := by
    rw [readLatency, hmade.mentions rfl, if_neg Bool.false_ne_true]
  have hsocket : readSocketErrors l.text rawData = .ok { rawData with
      connect := some l.connect
      read := some l.read
      write := some l.write
      timeout := some l.timeout } := by
    have hsocket : mentions "Socket errors".toList l.text = true := rfl
    have hconnect : mentions "connect".toList l.text = true := rfl
    have hread : mentions "read".toList l.text = true :=
      mentions_append (mentions_append rfl _) _
    have hwrite : mentions "write".toList l.text = true :=
      mentions_append (mentions_append (mentions_append (mentions_append rfl _) _) _) _
    have htimeout : mentions "timeout".toList l.text = true :=
      mentions_append (mentions_append (mentions_append (mentions_append (mentions_append
        (mentions_append rfl _) _) _) _) _) _
    rw [readSocketErrors, hsocket, if_pos rfl]
    simp only [readConnect, readRead, readWrite, readTimeout, bind, Except.bind,
      readNeeded_of_search hconnect l.searchConnect, readNeeded_of_search hread l.searchRead,
      readNeeded_of_search hwrite l.searchWrite, readNeeded_of_search htimeout l.searchTimeout]
  have hstart : RawFile.mentions "STARTTIME".toList l.text = false := hmade.mentions rfl
  rw [RawFile.readLine, hlatency, readRequests_of_not (hmade.mentions rfl), hsocket]
  simp only [bind, Except.bind, readNon2xx_of_not (hmade.mentions rfl), readStartTime,
    readNeeded_of_not hstart, readEndTime_of_not parseStats (hmade.mentions rfl)]

theorem madeOf_non2xx (n : ℕ) : MadeOf "  Non-2xx or 3xx responses: ".toList (non2xxText n) :=
  (madeOf_of_all (by decide)).append (madeOf_number _ _)

theorem readLine_non2xx (n : ℕ) (rawData : RawData) :
    readLine parseStats (non2xxText n) rawData = .ok ({ rawData with status5xx := some n }, []) := by
  have hmade := madeOf_non2xx n
  have hlatency : readLatency (non2xxText n) rawData = rawData := by
    rw [readLatency, hmade.mentions rfl, if_neg Bool.false_ne_true]
  have hnumber := @searchNumber_number "Non-2xx or 3xx responses: ".toList n [] fun c hc => nomatch hc
  rw [List.append_nil] at hnumber
  have hsearch : searchNumber "Non-2xx or 3xx responses: ".toList [] (non2xxText n) = some n := hnumber
  have hmentions : mentions "Non-2xx".toList (non2xxText n) = true := rfl
  have hread : readNon2xx (non2xxText n) rawData = { rawData with status5xx := some n } := by
    rw [readNon2xx, hmentions, if_pos rfl, hsearch]
  have hstart : mentions "STARTTIME".toList (non2xxText n) = false := hmade.mentions rfl
  rw [readLine, hlatency, readRequests_of_not (hmade.mentions rfl),
    readSocketErrors_of_not (hmade.mentions rfl)]
  simp only [bind, Except.bind, hread, readStartTime, readNeeded_of_not hstart,
    readEndTime_of_not parseStats (hmade.mentions rfl)]

theorem searchNumber_time {letters : Text} (h : ∀ c ∈ letters, c.isDigit = false) (time : ℕ) :
    searchNumber [] [] (letters ++ number time) = some time := by
  have hnumber := @searchNumber_number [] time [] fun c hc => nomatch hc
  rw [List.append_nil] at hnumber
  rw [searchNumber_letters h]
  exact hnumber

theorem readLine_start (time : ℕ) (rawData : RawData) :
    readLine parseStats (startText time) rawData = .ok ({ rawData with startTime := some time }, []) := by
  have hmade : MadeOf "STARTTIME ".toList (startText time) :=
    (madeOf_of_all (by decide)).append (madeOf_number _ _)
  have hlatency : readLatency (startText time) rawData = rawData := by
    rw [readLatency, hmade.mentions rfl, if_neg Bool.false_ne_true]
  have hsearch : searchNumber [] [] (startText time) = some time := searchNumber_time (no_digits rfl) time
  have hmentions : mentions "STARTTIME".toList (startText time) = true := rfl
  rw [readLine, hlatency, readRequests_of_not (hmade.mentions rfl),
    readSocketErrors_of_not (hmade.mentions rfl)]
  simp only [bind, Except.bind, readNon2xx_of_not (hmade.mentions rfl), readStartTime,
    readNeeded_of_search hmentions hsearch, readEndTime_of_not parseStats (hmade.mentions rfl)]

theorem readLine_end (time : ℕ) {rawData : RawData} {start : ℕ} (h : rawData.startTime = some start) :
    readLine parseStats (endText time) rawData =
      .ok ({ rawData with endTime := some time }, [parseStats start time]) := by
  have hmade : MadeOf "ENDTIME ".toList (endText time) :=
    (madeOf_of_all (by decide)).append (madeOf_number _ _)
  have hlatency : readLatency (endText time) rawData = rawData := by
    rw [readLatency, hmade.mentions rfl, if_neg Bool.false_ne_true]
  have hsearch : searchNumber [] [] (endText time) = some time := searchNumber_time (no_digits rfl) time
  have hmentions : mentions "ENDTIME".toList (endText time) = true := rfl
  have hstart : mentions "STARTTIME".toList (endText time) = false := hmade.mentions rfl
  rw [readLine, hlatency, readRequests_of_not (hmade.mentions rfl),
    readSocketErrors_of_not (hmade.mentions rfl)]
  simp only [bind, Except.bind, readNon2xx_of_not (hmade.mentions rfl), readStartTime,
    readNeeded_of_not hstart, readEndTime, hmentions, hsearch, h, if_true]

end Lines

/-! ### Sections -/

section Sections

variable {S : Type} (parseStats : ℕ → ℕ → S)

theorem foldlM_of_line {parseStats : ℕ → ℕ → S} {line : Text} {s s' : ParseState S}
    (h : parseLine parseStats s line = .ok s') (lines : List Text) :
    (line :: lines).foldlM (parseLine parseStats) s = lines.foldlM (parseLine parseStats) s' := by
  rw [List.foldlM_cons, h]
  rfl

theorem foldlM_of_lines {parseStats : ℕ → ℕ → S} {lines : List Text} {s s' : ParseState S}
    (h : lines.foldlM (parseLine parseStats) s = .ok s') (lines' : List Text) :
    (lines ++ lines').foldlM (parseLine parseStats) s = lines'.foldlM (parseLine parseStats) s' := by
  rw [List.foldlM_append, h]
  rfl

/-- Lines inside a level bring an entry forward and add some statistics. -/
def Adds (lines : List Text) (rawData rawData' : RawData) (stats : List S) : Prop :=
  ∀ done before, lines.foldlM (parseLine parseStats) ⟨false, done, some rawData, before⟩ =
    .ok ⟨false, done, some rawData', before ++ stats⟩

variable {parseStats}

theorem Adds.nil (rawData : RawData) : Adds parseStats [] rawData rawData [] := by
  intro done before
  rw [List.append_nil]
  rfl

theorem Adds.append {lines lines' : List Text} {r r' r'' : RawData} {stats stats' : List S}
    (h : Adds parseStats lines r r' stats) (h' : Adds parseStats lines' r' r'' stats') :
    Adds parseStats (lines ++ lines') r r'' (stats ++ stats') := by
  intro done before
  rw [foldlM_of_lines (h done before), h' done (before ++ stats), List.append_assoc]

theorem Adds.line {line : Text} {r r' : RawData} {stats : List S} (hlevel : startsLevel line = false)
    (hwarmup : startsWarmup line = false) (h : readLine parseStats line r = .ok (r', stats)) :
    Adds parseStats [line] r r' stats := by
  intro done before
  rw [List.foldlM_cons, parseLine, hlevel, hwarmup]
  simp [h, bind, Except.bind, pure, Except.pure]

theorem Adds.silent {lines : List Text} (h : ∀ line ∈ lines, Silent line) (r : RawData) :
    Adds parseStats lines r r [] := by
  induction lines with
  | nil => exact Adds.nil r
  | cons line lines ih =>
    have hline := h line List.mem_cons_self
    have hfirst : Adds parseStats [line] r r [] :=
      .line hline.startsLevel hline.startsWarmup (hline.readLine parseStats r)
    exact hfirst.append (ih fun l hl => h l (List.mem_cons_of_mem line hl))

theorem startsLevel_of_madeOf {chars line : Text} (h : MadeOf chars line)
    (hwords : (["Queries:", "Concurrency:"].map String.toList).all (fun word =>
      word.any fun c => !c.isDigit && !chars.contains c) = true) : startsLevel line = false := by
  have hall := List.all_eq_true.mp hwords
  rw [startsLevel, h.mentions (hall _ (by simp)), h.mentions (hall _ (by simp)), Bool.or_self]

theorem startsWarmup_of_madeOf {chars line : Text} (h : MadeOf chars line)
    (hwords : (["Warmup", "Primer"].map String.toList).all (fun word =>
      word.any fun c => !c.isDigit && !chars.contains c) = true) : startsWarmup line = false := by
  have hall := List.all_eq_true.mp hwords
  rw [startsWarmup, h.mentions (hall _ (by simp)), h.mentions (hall _ (by simp)), Bool.or_self]

/-- What the optional lines set. -/
def setLatency (latency : Option LatencyLine) (r : RawData) : RawData :=
  match latency with
  | none => r
  | some l => { r with
      latencyAvg := some l.avg.2.text
      latencyStdev := some l.stdev.2.text
      latencyMax := some l.max.2.text }

def setSocketErrors (socketErrors : Option SocketErrors) (r : RawData) : RawData :=
  match socketErrors with
  | none => r
  | some l => { r with
      connect := some l.connect
      read := some l.read
      write := some l.write
      timeout := some l.timeout }

def setNon2xx (non2xx : Option ℕ) (r : RawData) : RawData :=
  match non2xx with
  | none => r
  | some n => { r with status5xx := some n }

theorem adds_latency (latency : Option LatencyLine) (r : RawData) :
    Adds parseStats (latency.toList.map LatencyLine.text) r (setLatency latency r) [] := by
  cases latency with
  | none => exact Adds.nil r
  | some l =>
    exact .line (startsLevel_of_madeOf (madeOf_latency l) rfl)
      (startsWarmup_of_madeOf (madeOf_latency l) rfl) (l.readLine parseStats r)

theorem adds_socketErrors (socketErrors : Option SocketErrors) (r : RawData) :
    Adds parseStats (socketErrors.toList.map SocketErrors.text) r (setSocketErrors socketErrors r) [] := by
  cases socketErrors with
  | none => exact Adds.nil r
  | some l =>
    exact .line (startsLevel_of_madeOf (madeOf_socketErrors l) rfl)
      (startsWarmup_of_madeOf (madeOf_socketErrors l) rfl) (l.readLine parseStats r)

theorem adds_non2xx (non2xx : Option ℕ) (r : RawData) :
    Adds parseStats (non2xx.toList.map non2xxText) r (setNon2xx non2xx r) [] := by
  cases non2xx with
  | none => exact Adds.nil r
  | some n =>
    exact .line (startsLevel_of_madeOf (madeOf_non2xx n) rfl)
      (startsWarmup_of_madeOf (madeOf_non2xx n) rfl) (readLine_non2xx parseStats n r)

theorem adds_requests {l : RequestsLine} (h : Unmarked l.text) (r : RawData) :
    Adds parseStats [l.text] r { r with totalRequests := some l.total } [] := by
  have hread := h.readLine parseStats r
  rw [l.readRequests] at hread
  exact .line h.startsLevel h.startsWarmup hread

theorem adds_times (start time : ℕ) (r : RawData) :
    Adds parseStats [startText start, endText time] r
      { r with startTime := some start, endTime := some time } [parseStats start time] := by
  have hstart : MadeOf "STARTTIME ".toList (startText start) :=
    (madeOf_of_all (by decide)).append (madeOf_number _ _)
  have hend : MadeOf "ENDTIME ".toList (endText time) :=
    (madeOf_of_all (by decide)).append (madeOf_number _ _)
  have hfirst : Adds parseStats [startText start] r { r with startTime := some start } [] :=
    .line (startsLevel_of_madeOf hstart rfl) (startsWarmup_of_madeOf hstart rfl)
      (readLine_start parseStats start r)
  exact hfirst.append (.line (startsLevel_of_madeOf hend rfl) (startsWarmup_of_madeOf hend rfl)
    (readLine_end parseStats time rfl))

/-- The body of a level makes its entry. -/
theorem Level.Plain.adds_body {l : Level} (h : l.Plain) :
    Adds parseStats l.body {} l.entry [parseStats l.startTime l.endTime] := by
  have hbanner : ∀ line ∈ l.banner, Silent line := fun line hline => h.silent line (by simp [hline])
  have hdistribution : ∀ line ∈ l.distribution, Silent line := fun line hline =>
    h.silent line (by simp [hline])
  have hrates : ∀ line ∈ l.rates, Silent line := fun line hline => h.silent line (by simp [hline])
  have hbody := (@Adds.silent S parseStats _ hbanner {}).append
    ((adds_latency l.latency _).append ((Adds.silent hdistribution _).append
      ((adds_requests h.requests _).append ((adds_socketErrors l.socketErrors _).append
        ((adds_non2xx l.non2xx _).append ((Adds.silent hrates _).append
          (adds_times l.startTime l.endTime _)))))))
  have hentry : ({ setNon2xx l.non2xx (setSocketErrors l.socketErrors
      { setLatency l.latency {} with totalRequests := some l.requests.total }) with
      startTime := some l.startTime, endTime := some l.endTime } : RawData) = l.entry := by
    obtain ⟨-, -, -, -, -, latency, -, -, socketErrors, non2xx, -, -, -⟩ := l
    cases latency <;> cases socketErrors <;> cases non2xx <;> rfl
  rw [hentry] at hbody
  exact hbody

/-- Between two sections, an entry has been started or the lines are left out. -/
def Between (s : ParseState S) : Prop := s.isWarmup = true ∨ s.rawData.isSome = true

theorem parseLine_silent {line : Text} (h : Silent line) {s : ParseState S} (hs : Between s) :
    parseLine parseStats s line = .ok s := by
  rw [parseLine, h.startsLevel, h.startsWarmup, if_neg Bool.false_ne_true, if_neg Bool.false_ne_true]
  by_cases hwarmup : s.isWarmup = true
  · rw [if_pos hwarmup]
  · obtain ⟨r, hr⟩ := Option.isSome_iff_exists.mp (hs.resolve_left hwarmup)
    obtain ⟨isWarmup, done, rawData, stats⟩ := s
    obtain rfl : rawData = some r := hr
    rw [if_neg hwarmup, Option.getD_some, h.readLine parseStats r]
    simp [bind, Except.bind, pure, Except.pure]

/-- The first line of a level starts its entry. -/
theorem parseLine_first {line : Text} (h : Silent line) (done : List RawData) (stats : List S) :
    parseLine parseStats ⟨false, done, none, stats⟩ line = .ok ⟨false, done, some {}, stats⟩ := by
  rw [parseLine, h.startsLevel, h.startsWarmup, if_neg Bool.false_ne_true, if_neg Bool.false_ne_true,
    if_neg Bool.false_ne_true, Option.getD_none, h.readLine parseStats {}]
  simp [bind, Except.bind, pure, Except.pure]

theorem silent_dashes : Silent dashes := by
  have hmade : MadeOf ['-'] dashes := madeOf_of_all (by decide)
  exact ⟨unmarked_of_madeOf hmade rfl, hmade.mentions rfl⟩

theorem silent_nil : Silent [] := by
  have hmade : MadeOf [] [] := fun c hc => nomatch hc
  exact ⟨unmarked_of_madeOf hmade rfl, hmade.mentions rfl⟩

theorem Level.Plain.startsLevel_title {l : Level} (h : l.Plain) : startsLevel l.title = true := by
  have hmentions : mentions l.word l.title = true := by
    unfold Level.title
    exact mentions_append (mentions_of_start (List.isPrefixOf_iff_prefix.mpr (List.prefix_append _ _))) [' ']
  rw [startsLevel]
  rcases h.word with hword | hword
  · rw [← hword, hmentions, Bool.true_or]
  · rw [← hword, hmentions, Bool.or_true]

/-- The section of a level adds its entry to the results. -/
theorem Level.Plain.parse {l : Level} (h : l.Plain) {s : ParseState S} (hs : Between s) :
    ∃ s', l.lines.foldlM (parseLine parseStats) s = .ok s' ∧ Between s' ∧
      s'.results = s.results ++ [l.entry] ∧
      s'.stats = s.stats ++ [parseStats l.startTime l.endTime] := by
  have htitle : parseLine parseStats s l.title = .ok ⟨false, s.results, none, s.stats⟩ := by
    rw [parseLine, h.startsLevel_title, if_pos rfl]
  have hcommand := h.silent l.command List.mem_cons_self
  have hdashes : ∀ line ∈ [dashes, []], Silent line := by
    intro line hline
    rcases List.mem_cons.mp hline with rfl | hline
    · exact silent_dashes
    · rw [List.mem_singleton.mp hline]
      exact silent_nil
  have hrest := (@Adds.silent S parseStats _ hdashes {}).append h.adds_body
  refine ⟨⟨false, s.results, some l.entry, s.stats ++ [parseStats l.startTime l.endTime]⟩, ?_,
    Or.inr rfl, rfl, rfl⟩
  have hlines : l.lines = [] :: dashes :: l.title :: l.command :: ([dashes, []] ++ l.body) := rfl
  rw [hlines, foldlM_of_line (parseLine_silent silent_nil hs),
    foldlM_of_line (parseLine_silent silent_dashes hs), foldlM_of_line htitle,
    foldlM_of_line (parseLine_first hcommand _ _)]
  exact hrest s.results s.stats

theorem parse_levels {levels : List Level} (h : ∀ l ∈ levels, l.Plain) {s : ParseState S}
    (hs : Between s) :
    ∃ s', (levels.flatMap Level.lines).foldlM (parseLine parseStats) s = .ok s' ∧
      s'.results = s.results ++ levels.map Level.entry ∧
      s'.stats = s.stats ++ levels.map fun l => parseStats l.startTime l.endTime := by
  induction levels generalizing s with
  | nil => exact ⟨s, rfl, by simp, by simp⟩
  | cons l levels ih =>
    obtain ⟨s', hfirst, hs', hresults, hstats⟩ := (h l List.mem_cons_self).parse hs
    obtain ⟨s'', hrest, hresults', hstats'⟩ := ih (fun m hm => h m (List.mem_cons_of_mem l hm)) hs'
    refine ⟨s'', ?_, ?_, ?_⟩
    · rw [List.flatMap_cons, foldlM_of_lines hfirst, hrest]
    · rw [hresults', hresults, List.map_cons, List.append_assoc, List.singleton_append]
    · rw [hstats', hstats, List.map_cons, List.append_assoc, List.singleton_append]

/-- Lines that announce no level add nothing before the first one. -/
theorem parse_quiet {lines : List Text} (h : ∀ line ∈ lines, startsLevel line = false) :
    lines.foldlM (parseLine parseStats) {} = .ok {} := by
  induction lines with
  | nil => rfl
  | cons line lines ih =>
    have hline : parseLine parseStats {} line = .ok {} := by
      rw [parseLine, h line List.mem_cons_self, if_neg Bool.false_ne_true]
      split
      · rfl
      · rfl
    rw [foldlM_of_line hline]
    exact ih fun m hm => h m (List.mem_cons_of_mem line hm)

theorem WarmupSection.Plain.quiet_lines {l : WarmupSection} (h : l.Plain) :
    ∀ line ∈ l.lines, startsLevel line = false := by
  intro line hline
  simp only [WarmupSection.lines, sectionHead, List.mem_append, List.mem_cons, List.not_mem_nil,
    or_false] at hline
  rcases hline with (rfl | rfl | rfl | rfl | rfl | rfl) | hline
  · exact silent_nil.startsLevel
  · exact silent_dashes.startsLevel
  · exact h.quiet _ (by simp)
  · exact h.quiet _ (by simp)
  · exact silent_dashes.startsLevel
  · exact silent_nil.startsLevel
  · exact h.quiet line (by simp [hline])

/-- The results of a log are the numbers printed in its levels, in order. -/
theorem parseTest_rawLog (parseStats : ℕ → ℕ → S) {primer warmup : WarmupSection} {levels : List Level}
    (hprimer : primer.Plain) (hwarmup : warmup.Plain) (hlevels : ∀ l ∈ levels, l.Plain) :
    parseTest parseStats (some (rawLog primer warmup levels)) =
      .ok (levels.map Level.entry, levels.map fun l => parseStats l.startTime l.endTime) := by
  obtain ⟨s, hs, hresults, hstats⟩ :=
    @parse_levels S parseStats levels hlevels {} (Or.inl rfl)
  have hlog : (rawLog primer warmup levels).foldlM (parseLine parseStats) {} = .ok s := by
    unfold rawLog
    rw [foldlM_of_lines (parse_quiet hprimer.quiet_lines),
      foldlM_of_lines (parse_quiet hwarmup.quiet_lines), hs]
  rw [parseTest]
  simp only [hlog, Except.map, hresults, hstats]
  rfl

/-! ### A log -/

theorem unmarked_of_all {line : Text}
    (h : ("Latency".toList :: lineWords).all (fun word => !mentions word line) = true) : Unmarked line := by
  rw [List.all_cons, Bool.and_eq_true, Bool.not_eq_true'] at h
  refine ⟨fun word hword => ?_, fun hlatency => ?_⟩
  · simpa using List.all_eq_true.mp h.2 word hword
  · rw [h.1] at hlatency
    cases hlatency

/-- A primer or warmup section of some test. -/
def quietSection (word : Text) : WarmupSection :=
  ⟨word, "json".toList, " wrk -d 5 http://h/json".toList, ["  8 threads".toList]⟩

def sampleFigure (unit : Text) (hne : unit ≠ []) (hunit : ∀ c ∈ unit, isUnit c = true) : Figure :=
  ⟨['1', '2'], ['5'], unit, List.cons_ne_nil _ _, hne,
    List.all_eq_true.mp rfl, hunit⟩

/-- A level of some test, with a given command. -/
def sampleLevel (command : Text) : Level where
  word := "Concurrency:".toList
  count := 16
  name := "json".toList
  command := command
  banner := ["  8 threads".toList]
  latency := some ⟨(3, sampleFigure ['u', 's'] (List.cons_ne_nil _ _) (List.all_eq_true.mp rfl)),
    (3, sampleFigure ['m', 's'] (List.cons_ne_nil _ _) (List.all_eq_true.mp rfl)),
    (3, sampleFigure ['s'] (List.cons_ne_nil _ _) (List.all_eq_true.mp rfl)),
    (3, sampleFigure ['%'] (List.cons_ne_nil _ _) (List.all_eq_true.mp rfl))⟩
  distribution := []
  requests := ⟨100, "15.00s, 1.00MB read".toList⟩
  socketErrors := some ⟨0, 1, 0, 2⟩
  non2xx := some 5
  rates := []
  startTime := 1700000000
  endTime := 1700000015

theorem plain_quietSection {word : Text} (h : word = "Warmup".toList ∨ word = "Primer".toList) :
    (quietSection word).Plain := by
  refine ⟨h, fun line hline => ?_⟩
  have hlines : line ∈ [(quietSection word).title, " wrk -d 5 http://h/json".toList, "  8 threads".toList] :=
    hline
  simp only [List.mem_cons, List.not_mem_nil, or_false] at hlines
  rcases hlines with rfl | rfl | rfl
  · rcases h with rfl | rfl <;> rfl
  · rfl
  · rfl

theorem plain_sampleLevel : (sampleLevel " wrk http://h/json".toList).Plain := by
  refine ⟨Or.inr rfl, fun line hline => ?_, unmarked_of_all rfl⟩
  have hlines : line ∈ [" wrk http://h/json".toList, "  8 threads".toList] := hline
  simp only [List.mem_cons, List.not_mem_nil, or_false] at hlines
  rcases hlines with rfl | rfl
  · exact ⟨unmarked_of_all rfl, rfl⟩
  · exact ⟨unmarked_of_all rfl, rfl⟩

theorem parseTest_rawLog_one :
    parseTest (fun start time => (start, time)) (some (rawLog (quietSection "Primer".toList)
      (quietSection "Warmup".toList) [sampleLevel " wrk http://h/json".toList])) =
    .ok ([sampleLevel " wrk http://h/json".toList].map Level.entry,
      [sampleLevel " wrk http://h/json".toList].map fun l => (l.startTime, l.endTime)) :=
  parseTest_rawLog _ (plain_quietSection (Or.inr rfl)) (plain_quietSection (Or.inl rfl)) fun l hl => by
    rw [List.mem_singleton.mp hl]
    exact plain_sampleLevel

/-- A level whose command shows the word of the warmup has no entry. -/
theorem level_lost :
    parseTest (fun start time => (start, time)) (some (rawLog (quietSection "Primer".toList)
      (quietSection "Warmup".toList) [sampleLevel " wrk http://h/Warmup".toList])) ≠
    .ok ([sampleLevel " wrk http://h/Warmup".toList].map Level.entry,
      [sampleLevel " wrk http://h/Warmup".toList].map fun l => (l.startTime, l.endTime)) := by
  have hempty : parseTest (fun start time => (start, time)) (some (rawLog (quietSection "Primer".toList)
      (quietSection "Warmup".toList) [sampleLevel " wrk http://h/Warmup".toList])) = .ok ([], []) := rfl
  rw [hempty]
  intro heq
  exact absurd (congrArg Prod.fst (Except.ok.inj heq)) (List.cons_ne_nil _ _).symm

end Sections

end FrameworkBenchmarks.Toolset.RawFile
