import FrameworkBenchmarks.Toolset.DockerLogs
import FrameworkBenchmarks.Toolset.LevelSections

/-!
# Chunks of benchmark logs

How the stream of the container is cut decides about the lines of `raw.txt`, since every chunk ends its last
line. The results do not depend on the cuts where no level is announced in front of other text.
-/

namespace FrameworkBenchmarks.Toolset.RawFile

/-! ### Lines of a text -/

/-- The lines stand in the text, one behind the other. -/
inductive Stands : Text → List Text → Prop
  | nil (text : Text) : Stands text []
  | cons (gap line : Text) {text : Text} {lines : List Text} (rest : Stands text lines) :
    Stands (gap ++ (line ++ text)) (line :: lines)

theorem Stands.behind {text : Text} {lines : List Text} (h : Stands text lines) (gap : Text) :
    Stands (gap ++ text) lines := by
  cases h with
  | nil => exact .nil _
  | cons gap' line rest =>
    rw [← List.append_assoc]
    exact .cons _ line rest

theorem Stands.append {text text' : Text} {lines lines' : List Text} (h : Stands text lines)
    (h' : Stands text' lines') : Stands (text ++ text') (lines ++ lines') := by
  induction h with
  | nil text => exact h'.behind text
  | cons gap line rest ih =>
    rw [List.append_assoc, List.append_assoc]
    exact .cons gap line ih

theorem Stands.sublist {text : Text} {lines lines' : List Text} (h : Stands text lines)
    (hsub : lines'.Sublist lines) : Stands text lines' := by
  induction h generalizing lines' with
  | nil text =>
    rw [List.sublist_nil.mp hsub]
    exact .nil text
  | cons gap line rest ih =>
    cases hsub with
    | cons _ hsub =>
      rw [← List.append_assoc]
      exact (ih hsub).behind _
    | cons_cons _ hsub => exact .cons gap line (ih hsub)

theorem Stands.line_sublist {text line : Text} {lines : List Text} (h : Stands text lines)
    (hline : line ∈ lines) : line.Sublist text := by
  induction h with
  | nil => cases hline
  | cons gap first rest ih =>
    apply List.sublist_append_of_sublist_right
    rcases List.mem_cons.mp hline with rfl | hrest
    · exact List.sublist_append_left _ _
    · exact List.sublist_append_of_sublist_right (ih hrest)

section Breaks

variable {isBreak : Char → Bool}

/-- The first line is where the text starts. -/
theorem linesBy_start {text line : Text} {lines : List Text} (h : linesBy isBreak text = line :: lines) :
    ∃ rest, text = line ++ rest ∧ Stands rest lines := by
  have hstands (text : Text) (ih : ∀ {line lines}, linesBy isBreak text = line :: lines →
      ∃ rest, text = line ++ rest ∧ Stands rest lines) : Stands text (linesBy isBreak text) := by
    cases hlines : linesBy isBreak text with
    | nil => exact .nil text
    | cons line lines =>
      obtain ⟨rest, htext, hrest⟩ := ih hlines
      rw [htext]
      exact .cons [] line hrest
  induction text using linesBy.induct isBreak generalizing line lines with
  | case1 => cases h
  | case2 text ih =>
    rw [linesBy] at h
    obtain ⟨rfl, rfl⟩ := List.cons.inj h
    exact ⟨_, rfl, (hstands text ih).behind ['\r', '\n']⟩
  | case3 c text hcr hbreak ih =>
    rw [linesBy, if_pos hbreak] at h
    · obtain ⟨rfl, rfl⟩ := List.cons.inj h
      exact ⟨_, rfl, (hstands text ih).behind [c]⟩
    · exact hcr
  | case4 c text hcr hbreak hnil ih =>
    rw [linesBy, if_neg hbreak, hnil] at h
    · obtain ⟨rfl, rfl⟩ := List.cons.inj h
      exact ⟨text, rfl, .nil text⟩
    · exact hcr
  | case5 c text hcr hbreak line' lines' hlines ih =>
    rw [linesBy, if_neg hbreak, hlines] at h
    · obtain ⟨rfl, rfl⟩ := List.cons.inj h
      obtain ⟨rest, htext, hrest⟩ := ih hlines
      exact ⟨rest, congrArg (List.cons c) htext, hrest⟩
    · exact hcr

theorem stands_linesBy (isBreak : Char → Bool) (text : Text) : Stands text (linesBy isBreak text) := by
  cases hlines : linesBy isBreak text with
  | nil => exact .nil text
  | cons line lines =>
    obtain ⟨rest, htext, hrest⟩ := linesBy_start hlines
    rw [htext]
    exact .cons [] line hrest

/-- No line has a break in it. -/
theorem not_isBreak_of_mem_linesBy {text line : Text} {c : Char} (hline : line ∈ linesBy isBreak text)
    (hc : c ∈ line) : isBreak c = false := by
  induction text using linesBy.induct isBreak generalizing line with
  | case1 => cases hline
  | case2 text ih =>
    rw [linesBy] at hline
    rcases List.mem_cons.mp hline with rfl | hline
    · cases hc
    · exact ih hline hc
  | case3 d text hcr hbreak ih =>
    rw [linesBy, if_pos hbreak] at hline
    · rcases List.mem_cons.mp hline with rfl | hline
      · cases hc
      · exact ih hline hc
    · exact hcr
  | case4 d text hcr hbreak hnil ih =>
    rw [linesBy, if_neg hbreak, hnil] at hline
    · rw [List.mem_singleton.mp hline, List.mem_singleton] at hc
      rw [hc]
      exact Bool.not_eq_true _ ▸ hbreak
    · exact hcr
  | case5 d text hcr hbreak first lines hlines ih =>
    rw [linesBy, if_neg hbreak, hlines] at hline
    · rw [hlines] at ih
      rcases List.mem_cons.mp hline with rfl | hline
      · rcases List.mem_cons.mp hc with rfl | hc
        · exact Bool.not_eq_true _ ▸ hbreak
        · exact ih List.mem_cons_self hc
      · exact ih (List.mem_cons_of_mem first hline) hc
    · exact hcr

theorem linesBy_of_not_break (hcr : isBreak '\r' = true) {c : Char} (hc : isBreak c = false) (text : Text) :
    linesBy isBreak (c :: text) =
      match linesBy isBreak text with
      | [] => [[c]]
      | line :: lines => (c :: line) :: lines := by
  have hreturn : ∀ text', c = '\r' → text = '\n' :: text' → False := by
    rintro text' rfl
    rw [hcr] at hc
    cases hc
  exact (linesBy.eq_3 isBreak c text hreturn).trans (if_neg (by rw [hc]; exact Bool.false_ne_true))

/-- A line feed ends the first line. -/
theorem linesBy_line (hlf : isBreak '\n' = true) (hcr : isBreak '\r' = true) {line : Text}
    (hline : ∀ c ∈ line, isBreak c = false) (text : Text) :
    linesBy isBreak (line ++ '\n' :: text) = line :: linesBy isBreak text := by
  induction line with
  | nil =>
    rw [List.nil_append, linesBy, if_pos hlf]
    intro text' hlf'
    exact absurd hlf' (by decide)
  | cons c line ih =>
    rw [List.cons_append, linesBy_of_not_break hcr (hline c List.mem_cons_self),
      ih fun d hd => hline d (List.mem_cons_of_mem c hd)]

/-- A text without breaks is one line. -/
theorem linesBy_one (hcr : isBreak '\r' = true) {line : Text} (hline : ∀ c ∈ line, isBreak c = false)
    (hne : line ≠ []) : linesBy isBreak line = [line] := by
  induction line with
  | nil => exact absurd rfl hne
  | cons c line ih =>
    rw [linesBy_of_not_break hcr (hline c List.mem_cons_self)]
    cases line with
    | nil => rfl
    | cons d line => rw [ih (fun e he => hline e (List.mem_cons_of_mem c he)) (List.cons_ne_nil d line)]

end Breaks

/-- The text of a file with these lines. -/
def unlines (lines : List Text) : Text := lines.flatMap (· ++ ['\n'])

theorem unlines_append (lines lines' : List Text) : unlines (lines ++ lines') = unlines lines ++ unlines lines' :=
  List.flatMap_append

theorem fileLines_unlines {lines : List Text} (h : ∀ line ∈ lines, ∀ c ∈ line, isNewline c = false) :
    fileLines (unlines lines) = lines := by
  induction lines with
  | nil => rfl
  | cons line lines ih =>
    have hline := @linesBy_line isNewline rfl rfl _ (h line List.mem_cons_self) (unlines lines)
    unfold unlines at hline ⊢
    rw [List.flatMap_cons, List.append_assoc]
    exact hline.trans (congrArg (List.cons line) (ih fun l hl => h l (List.mem_cons_of_mem line hl)))

/-! ### Colour codes -/

theorem stripColoursFrom_sublist (skip : ℕ) (text : Text) : (stripColoursFrom skip text).Sublist text := by
  induction skip, text using stripColoursFrom.induct with
  | case1 => exact List.Sublist.refl _
  | case2 skip c text ih => exact ih.cons c
  | case3 c text length hcolour ih =>
    rw [stripColoursFrom, hcolour]
    exact ih.cons c
  | case4 c text hcolour ih =>
    rw [stripColoursFrom, hcolour]
    exact ih.cons_cons c

theorem stripColours_sublist (text : Text) : (stripColours text).Sublist text := stripColoursFrom_sublist 0 text

theorem colourAt_le {text : Text} {length : ℕ} (h : colourAt text = some length) : length ≤ text.length := by
  unfold colourAt at h
  split at h
  · rename_i rest
    dsimp only at h
    split at h
    · next hmatch =>
      obtain rfl := Option.some.inj h
      have hrest : rest.drop (rest.takeWhile isDecimal).length ≠ [] := by
        intro hnil
        rw [hnil] at hmatch
        cases hmatch.2
      have hlength := List.length_pos_of_ne_nil hrest
      rw [List.length_drop] at hlength
      simp only [List.length_cons]
      omega
    · cases h
  · cases h

theorem colourAt_of_other {c : Char} (hc : c ≠ '\x1b') (text : Text) : colourAt (c :: text) = none := by
  unfold colourAt
  split
  · rename_i rest heq
    exact absurd (List.cons.inj heq).1 hc
  · rfl

theorem colourAt_of_other_second {c d : Char} (hd : d ≠ '[') (text : Text) :
    colourAt (c :: d :: text) = none := by
  unfold colourAt
  split
  · rename_i rest heq
    exact absurd (List.cons.inj (List.cons.inj heq).2).1 hd
  · rfl

theorem takeWhile_isDecimal_line (line text : Text) :
    (line ++ '\n' :: text).takeWhile isDecimal = line.takeWhile isDecimal := by
  rw [List.takeWhile_append]
  split
  · next hall =>
    have hlf : isDecimal '\n' = false := by decide
    rw [List.takeWhile_cons_of_neg (by rw [hlf]; exact Bool.false_ne_true), List.append_nil,
      List.IsPrefix.eq_of_length (List.takeWhile_prefix isDecimal) hall]
  · rfl

/-- No colour code goes over the end of a line. -/
theorem colourAt_line {line : Text} (hne : line ≠ []) (text : Text) :
    colourAt (line ++ '\n' :: text) = colourAt line := by
  match line, hne with
  | [c], _ =>
    rw [List.singleton_append, colourAt_of_other_second (by decide)]
    by_cases hc : c = '\x1b'
    · rw [hc]
      rfl
    · exact (colourAt_of_other hc []).symm
  | c :: d :: line, _ =>
    by_cases hc : c = '\x1b'
    · by_cases hd : d = '['
      · subst hc hd
        simp only [List.cons_append, colourAt, takeWhile_isDecimal_line]
        have hle : (line.takeWhile isDecimal).length ≤ line.length := (List.takeWhile_sublist isDecimal).length_le
        have hhead : ((line ++ '\n' :: text).drop (line.takeWhile isDecimal).length).head? = some 'm' ↔
            (line.drop (line.takeWhile isDecimal).length).head? = some 'm' := by
          rw [List.drop_append_of_le_length hle]
          cases line.drop (line.takeWhile isDecimal).length with
          | nil => simp
          | cons e rest => rfl
        simp only [hhead]
      · rw [colourAt_of_other_second hd]
        exact colourAt_of_other_second hd _
    · rw [colourAt_of_other hc]
      exact colourAt_of_other hc _

theorem stripColoursFrom_line {skip : ℕ} {line : Text} (h : skip ≤ line.length) (text : Text) :
    stripColoursFrom skip (line ++ '\n' :: text) =
      stripColoursFrom skip line ++ '\n' :: stripColoursFrom 0 text := by
  induction line generalizing skip with
  | nil =>
    obtain rfl : skip = 0 := Nat.le_zero.mp h
    have hlf : colourAt ('\n' :: text) = none := colourAt_of_other (by decide) text
    change stripColoursFrom 0 ('\n' :: text) = '\n' :: stripColoursFrom 0 text
    rw [stripColoursFrom, hlf]
  | cons c line ih =>
    cases skip with
    | succ skip =>
      rw [List.cons_append, stripColoursFrom, stripColoursFrom]
      exact ih (Nat.le_of_succ_le_succ h)
    | zero =>
      have hcolour := colourAt_line (List.cons_ne_nil c line) text
      rw [List.cons_append] at hcolour ⊢
      rw [stripColoursFrom, stripColoursFrom, hcolour]
      cases hlength : colourAt (c :: line) with
      | none => exact congrArg (List.cons c) (ih (Nat.zero_le _))
      | some length =>
        apply ih
        have hle := colourAt_le hlength
        rw [List.length_cons] at hle
        omega

/-- The colour codes are found line by line. -/
theorem stripColours_unlines (lines : List Text) :
    stripColours (unlines lines) = unlines (lines.map stripColours) := by
  induction lines with
  | nil => rfl
  | cons line lines ih =>
    unfold unlines stripColours at ih ⊢
    rw [List.map_cons, List.flatMap_cons, List.flatMap_cons, List.append_assoc, List.append_assoc,
      List.singleton_append, stripColoursFrom_line (Nat.zero_le _), ih]
    rfl

/-! ### What a stream leaves in the file -/

/-- The lines that a text adds to the file. -/
def textLines (text : Text) : List Text :=
  ((splitlines text).filter fun line => strip line ≠ []).map stripColours

theorem newLogText_plain (text : Text) :
    newLogText {} text = unlines ((splitlines text).filter fun line => strip line ≠ []) := by
  unfold newLogText unlines
  rw [show LogOptions.line {} = (· ++ ['\n']) from rfl]
  exact List.append_nil _

/-- The lines that a text adds behind others: none to a file that has grown too large. -/
def loggedLines (lines : List Text) (text : Text) : List Text :=
  if fileSize (unlines lines) < tooManyBytes then textLines text else []

theorem loggedLines_sublist (lines : List Text) (text : Text) :
    (loggedLines lines text).Sublist (textLines text) := by
  unfold loggedLines
  split
  · exact List.Sublist.refl _
  · exact List.nil_sublist _

theorem log_unlines (text : Text) (lines : List Text) :
    log {} (some text) (unlines lines) = unlines (lines ++ loggedLines lines text) := by
  simp only [log, true_and, loggedLines]
  by_cases hempty : text = []
  · subst hempty
    rw [if_pos rfl, show textLines [] = [] from rfl, ite_self, List.append_nil]
  · rw [if_neg hempty]
    split
    · rw [newLogText_plain, stripColours_unlines, unlines_append]
      rfl
    · rw [List.append_nil]

def encode (text : Text) : ByteArray := (String.ofList text).toByteArray

theorem encode_append (text text' : Text) : encode (text ++ text') = encode text ++ encode text' := by
  unfold encode
  rw [String.toByteArray_ofList, String.toByteArray_ofList, String.toByteArray_ofList, List.utf8Encode_append]

theorem decode_encode (text : Text) : decode (encode text) = some text := by
  unfold decode encode String.fromUTF8?
  rw [dif_pos (String.ofList text).isValidUTF8]
  exact congrArg some String.toList_ofList

theorem encode_of_decode {chunk : ByteArray} {text : Text} (h : decode chunk = some text) :
    encode text = chunk := by
  unfold decode String.fromUTF8? at h
  split at h
  · rw [← Option.some.inj h, encode, String.ofList_toList]
    rfl
  · cases h

/-- The texts of the chunks in front of the first one that is not UTF-8. -/
def streamTexts : List ByteArray → List Text
  | [] => []
  | chunk :: stream =>
    match decode chunk with
    | none => []
    | some text => text :: streamTexts stream

theorem streamTexts_encode (texts : List Text) : streamTexts (texts.map encode) = texts := by
  induction texts with
  | nil => rfl
  | cons text texts ih => rw [List.map_cons, streamTexts, decode_encode, ih]

theorem foldr_encode (texts : List Text) :
    (texts.map encode).foldr (· ++ ·) ByteArray.empty = encode texts.flatten := by
  induction texts with
  | nil => rfl
  | cons text texts ih => rw [List.map_cons, List.foldr_cons, ih, List.flatten_cons, encode_append]

theorem exists_rest (stream : List ByteArray) :
    ∃ rest, stream.foldr (· ++ ·) ByteArray.empty = encode (streamTexts stream).flatten ++ rest := by
  induction stream with
  | nil => exact ⟨ByteArray.empty, rfl⟩
  | cons chunk stream ih =>
    cases hdecode : decode chunk with
    | none =>
      refine ⟨(chunk :: stream).foldr (· ++ ·) ByteArray.empty, ?_⟩
      rw [streamTexts, hdecode]
      exact ByteArray.empty_append.symm
    | some text =>
      obtain ⟨rest, hrest⟩ := ih
      refine ⟨rest, ?_⟩
      rw [List.foldr_cons, hrest, streamTexts, hdecode, List.flatten_cons, encode_append,
        encode_of_decode hdecode, ByteArray.append_assoc]

/-- The chunks of a text decode to a first part of it. -/
theorem Cuts.first_part {text : Text} {stream : List ByteArray} (h : Cuts text stream) :
    ∃ rest, text = (streamTexts stream).flatten ++ rest := by
  obtain ⟨rest, hrest⟩ := exists_rest stream
  unfold Cuts at h
  rw [h, encode, String.toByteArray_ofList, String.toByteArray_ofList] at hrest
  obtain ⟨after, hafter⟩ := List.isPrefix_of_utf8Encode_append_eq_utf8Encode rest hrest.symm
  exact ⟨after, hafter.symm⟩

/-- The lines of the file behind some texts. -/
def addTexts (lines texts : List Text) : List Text :=
  texts.foldl (fun lines text => lines ++ loggedLines lines text) lines

theorem saveDockerLogs_unlines (lines : List Text) (stream : List ByteArray) :
    saveDockerLogs (unlines lines) stream = unlines (addTexts lines (streamTexts stream)) := by
  induction stream generalizing lines with
  | nil => rfl
  | cons chunk stream ih =>
    rw [saveDockerLogs, streamTexts]
    cases decode chunk with
    | none => rfl
    | some text =>
      simp only [log_unlines]
      exact ih _

theorem addTexts_sublist (lines texts : List Text) :
    (addTexts lines texts).Sublist (lines ++ texts.flatMap textLines) := by
  induction texts generalizing lines with
  | nil =>
    rw [List.flatMap_nil, List.append_nil]
    exact List.Sublist.refl _
  | cons text texts ih =>
    rw [List.flatMap_cons, ← List.append_assoc]
    exact (ih _).trans (((List.Sublist.refl _).append (loggedLines_sublist lines text)).append_right _)

theorem isLineBreak_of_isNewline {c : Char} (h : isNewline c = true) : isLineBreak c = true := by
  rcases of_decide_eq_true h with rfl | rfl <;> rfl

theorem not_isNewline_of_mem_textLines {text line : Text} (hline : line ∈ textLines text) :
    ∀ c ∈ line, isNewline c = false := by
  intro c hc
  obtain ⟨l, hl, rfl⟩ := List.mem_map.mp hline
  rw [← Bool.not_eq_true]
  intro hnewline
  have hbreak := not_isBreak_of_mem_linesBy (List.mem_filter.mp hl).1 ((stripColours_sublist l).mem hc)
  rw [isLineBreak_of_isNewline hnewline] at hbreak
  cases hbreak

variable {S : Type} (parseStats : ℕ → ℕ → S)

/-- The parser reads the lines that the texts of the stream add. -/
theorem recordedResults_eq (stream : List ByteArray) :
    recordedResults parseStats stream =
      (parseTest parseStats (some (addTexts [] (streamTexts stream)))).map Prod.fst := by
  have hlines : fileLines (unlines (addTexts [] (streamTexts stream))) = addTexts [] (streamTexts stream) := by
    apply fileLines_unlines
    intro line hline
    obtain ⟨text, -, htext⟩ := List.mem_flatMap.mp ((addTexts_sublist [] _).mem hline)
    exact not_isNewline_of_mem_textLines htext
  rw [recordedResults, show saveDockerLogs [] stream = _ from saveDockerLogs_unlines [] stream, hlines]

/-! ### Streams of one text -/

/-- A level is announced at most behind all other text: what follows such a line, or a part of a line that
does so by itself, is blank. -/
def LastLevel (text : Text) : Prop :=
  ∀ before line after : Text, text = before ++ (line ++ after) → (∀ c ∈ line, isLineBreak c = false) →
    startsLevel (stripColours line) = true → ∀ c ∈ after, isSpace c = true

/-- No line that is followed by another one announces a level. -/
theorem LastLevel.pairwise {text : Text} {lines : List Text} (h : LastLevel text) (hstands : Stands text lines)
    (hbreaks : ∀ line ∈ lines, ∀ c ∈ line, isLineBreak c = false)
    (hblank : ∀ line ∈ lines, strip line ≠ []) :
    (lines.map stripColours).Pairwise fun line _ => startsLevel line = false := by
  induction hstands with
  | nil => exact List.Pairwise.nil
  | @cons gap line text lines hrest ih =>
    have htext : LastLevel text := by
      intro before line' after heq
      apply h (gap ++ (line ++ before))
      rw [heq, List.append_assoc, List.append_assoc]
    rw [List.map_cons, List.pairwise_cons]
    refine ⟨fun stripped hmem => ?_, ih htext (fun l hl => hbreaks l (List.mem_cons_of_mem line hl))
      fun l hl => hblank l (List.mem_cons_of_mem line hl)⟩
    obtain ⟨next, hnext, -⟩ := List.mem_map.mp hmem
    rw [← Bool.not_eq_true]
    intro hlevel
    have hafter := h gap line text rfl (hbreaks line List.mem_cons_self) hlevel
    apply hblank next (List.mem_cons_of_mem line hnext)
    exact strip_eq_nil_iff.mpr fun c hc => hafter c ((hrest.line_sublist hnext).mem hc)

theorem stands_textLines (texts : List Text) : Stands texts.flatten (texts.flatMap splitlines) := by
  induction texts with
  | nil => exact .nil []
  | cons text texts ih => exact (stands_linesBy isLineBreak text).append ih

/-- The lines of some first part of the text. -/
theorem LastLevel.textLines {text rest : Text} {texts : List Text} (h : LastLevel text)
    (htexts : text = texts.flatten ++ rest) :
    (texts.flatMap textLines).Pairwise fun line _ => startsLevel line = false := by
  have hlines : texts.flatMap RawFile.textLines =
      ((texts.flatMap splitlines).filter fun line => strip line ≠ []).map stripColours := by
    rw [List.filter_flatMap, List.map_flatMap]
    rfl
  have hstands : Stands text ((texts.flatMap splitlines).filter fun line => strip line ≠ []) := by
    have hfirst := (stands_textLines texts).append (.nil rest)
    rw [← htexts, List.append_nil] at hfirst
    exact hfirst.sublist List.filter_sublist
  rw [hlines]
  apply h.pairwise hstands
  · intro line hline c hc
    obtain ⟨t, -, hline⟩ := List.mem_flatMap.mp (List.mem_filter.mp hline).1
    exact not_isBreak_of_mem_linesBy hline hc
  · intro line hline
    exact of_decide_eq_true (List.mem_filter.mp hline).2

/-! ### Results -/

/-- A level that is announced at the end alone has no entry. -/
theorem parse_of_pairwise {lines : List Text} (h : lines.Pairwise fun line _ => startsLevel line = false) :
    (parseTest parseStats (some lines)).map Prod.fst = .ok [] := by
  rcases List.eq_nil_or_concat lines with rfl | ⟨first, last, rfl⟩
  · rfl
  · rw [List.concat_eq_append] at h ⊢
    have hquiet : ∀ line ∈ first, startsLevel line = false := fun line hline =>
      (List.pairwise_append.mp h).2.2 line hline last List.mem_cons_self
    rw [parseTest, foldlM_of_lines (parse_quiet hquiet)]
    simp only [List.foldlM_cons, List.foldlM_nil, parseLine]
    split
    · rfl
    · split
      · rfl
      · rfl

/-- The results do not depend on the cuts of the text. -/
def SameResults (text : Text) : Prop :=
  ∀ stream stream', Cuts text stream → Cuts text stream' →
    recordedResults parseStats stream = recordedResults parseStats stream'

theorem LastLevel.recordedResults {text : Text} (h : LastLevel text) {stream : List ByteArray}
    (hcuts : Cuts text stream) : recordedResults parseStats stream = .ok [] := by
  obtain ⟨rest, hrest⟩ := hcuts.first_part
  rw [recordedResults_eq]
  exact parse_of_pairwise parseStats ((h.textLines hrest).sublist (addTexts_sublist [] _))

theorem LastLevel.sameResults {text : Text} (h : LastLevel text) : SameResults parseStats text := by
  intro stream stream' hcuts hcuts'
  rw [h.recordedResults parseStats hcuts, h.recordedResults parseStats hcuts']

/-! ### Sizes -/

theorem fileSize_append (text text' : Text) : fileSize (text ++ text') = fileSize text + fileSize text' := by
  unfold fileSize
  rw [List.map_append, List.sum_append]

theorem fileSize_cons (c : Char) (text : Text) : fileSize (c :: text) = c.utf8Size + fileSize text := by
  unfold fileSize
  rw [List.map_cons, List.sum_cons]

theorem fileSize_le_of_sublist {text text' : Text} (h : text.Sublist text') : fileSize text ≤ fileSize text' := by
  induction h with
  | slnil => exact Nat.le_refl _
  | cons c _ ih =>
    rw [fileSize_cons]
    omega
  | cons_cons c _ ih =>
    rw [fileSize_cons, fileSize_cons]
    omega

theorem fileSize_unlines_cons (line : Text) (lines : List Text) :
    fileSize (unlines (line :: lines)) = fileSize line + 1 + fileSize (unlines lines) := by
  unfold unlines
  rw [List.flatMap_cons, fileSize_append, fileSize_append]
  rfl

/-- All lines but the last have a break in the text already. -/
theorem fileSize_linesBy (isBreak : Char → Bool) (text : Text) :
    fileSize (unlines (linesBy isBreak text)) ≤ fileSize text + 1 := by
  induction text using linesBy.induct isBreak with
  | case1 => exact Nat.zero_le _
  | case2 text ih =>
    have hcr : '\r'.utf8Size = 1 := rfl
    have hlf : '\n'.utf8Size = 1 := rfl
    rw [linesBy, fileSize_unlines_cons, fileSize_cons, fileSize_cons, hcr, hlf, show fileSize [] = 0 from rfl]
    omega
  | case3 c text hcr hbreak ih =>
    have hsize := c.utf8Size_pos
    rw [linesBy, if_pos hbreak, fileSize_unlines_cons, fileSize_cons, show fileSize [] = 0 from rfl]
    · omega
    · exact hcr
  | case4 c text hcr hbreak hnil ih =>
    rw [linesBy, if_neg hbreak, hnil]
    · simp only [fileSize_unlines_cons, fileSize_cons, show fileSize [] = 0 from rfl,
        show fileSize (unlines []) = 0 from rfl]
      omega
    · exact hcr
  | case5 c text hcr hbreak line lines hlines ih =>
    rw [linesBy, if_neg hbreak, hlines]
    · rw [hlines, fileSize_unlines_cons] at ih
      simp only [fileSize_unlines_cons, fileSize_cons]
      omega
    · exact hcr

theorem fileSize_unlines_sublist {lines lines' : List Text} (h : lines.Sublist lines') :
    fileSize (unlines lines) ≤ fileSize (unlines lines') := by
  induction h with
  | slnil => exact Nat.le_refl _
  | cons line _ ih =>
    rw [fileSize_unlines_cons]
    omega
  | cons_cons line _ ih =>
    rw [fileSize_unlines_cons, fileSize_unlines_cons]
    omega

theorem fileSize_stripColours (lines : List Text) :
    fileSize (unlines (lines.map stripColours)) ≤ fileSize (unlines lines) := by
  rw [← stripColours_unlines]
  exact fileSize_le_of_sublist (stripColours_sublist _)

theorem fileSize_textLines (text : Text) : fileSize (unlines (textLines text)) ≤ fileSize text + 1 :=
  (fileSize_stripColours _).trans
    ((fileSize_unlines_sublist List.filter_sublist).trans (fileSize_linesBy isLineBreak text))

/-! ### Cuts that make an entry -/

theorem isPrefixOf_length {word line : Text} (h : word.isPrefixOf line = true) : word.length ≤ line.length :=
  (List.isPrefixOf_iff_prefix.mp h).length_le

theorem length_le_of_mentions {word line : Text} (h : mentions word line = true) :
    word.length ≤ line.length := by
  induction line with
  | nil => exact isPrefixOf_length h
  | cons c line ih =>
    rw [mentions, Bool.or_eq_true] at h
    rcases h with hstart | hrest
    · exact isPrefixOf_length hstart
    · exact (ih hrest).trans (Nat.le_succ _)

theorem not_mentions_one {word : Text} (h : 1 < word.length) {line : Text} (hline : line.length ≤ 1) :
    mentions word line = false := by
  rw [← Bool.not_eq_true]
  exact fun hmentions => absurd (length_le_of_mentions hmentions) (by omega)

/-- A line of one character shows nothing. -/
theorem silent_one {line : Text} (h : line.length ≤ 1) : Silent line := by
  refine ⟨⟨fun word hword => ?_, fun hlatency => ?_⟩, not_mentions_one (by decide) h⟩
  · simp only [lineWords, List.map_cons, List.map_nil, List.mem_cons, List.not_mem_nil, or_false] at hword
    rcases hword with rfl | rfl | rfl | rfl | rfl | rfl | rfl | rfl <;> exact not_mentions_one (by decide) h
  · rw [not_mentions_one (by decide) h] at hlatency
    cases hlatency

theorem length_textLines {text line : Text} (h : line ∈ textLines text) : line.length ≤ text.length := by
  obtain ⟨l, hl, rfl⟩ := List.mem_map.mp h
  have hline := (stands_linesBy isLineBreak text).line_sublist (List.mem_filter.mp hl).1
  exact (stripColours_sublist l).length_le.trans hline.length_le

/-- A level is announced with a colon. -/
theorem colon_mem_of_startsLevel {line : Text} (h : startsLevel line = true) : ':' ∈ line := by
  rw [startsLevel, Bool.or_eq_true] at h
  by_contra hcolon
  rcases h with h | h
  · rw [mentions_eq_false (by decide) hcolon] at h
    cases h
  · rw [mentions_eq_false (by decide) hcolon] at h
    cases h

/-- A line that is not blank is kept. -/
theorem textLines_line {line : Text} (hbreaks : ∀ c ∈ line, isLineBreak c = false) (hstrip : strip line ≠ []) :
    textLines line = [stripColours line] := by
  have hne : line ≠ [] := by
    rintro rfl
    exact hstrip rfl
  unfold textLines splitlines
  rw [linesBy_one rfl hbreaks hne]
  simp [hstrip]

/-- A line that announces a level is not blank. -/
theorem textLines_level {line : Text} (hbreaks : ∀ c ∈ line, isLineBreak c = false)
    (hlevel : startsLevel (stripColours line) = true) : textLines line = [stripColours line] := by
  have hcolon : ':' ∈ line := (stripColours_sublist line).mem (colon_mem_of_startsLevel hlevel)
  exact textLines_line hbreaks fun hnil => absurd (strip_eq_nil_iff.mp hnil ':' hcolon) (by decide)

theorem textLines_blank {text : Text} (h : ∀ c ∈ text, isSpace c = true) : textLines text = [] := by
  unfold textLines
  rw [List.map_eq_nil_iff, List.filter_eq_nil_iff]
  intro line hline
  have hstrip : strip line = [] := strip_eq_nil_iff.mpr fun c hc =>
    h c (((stands_linesBy isLineBreak text).line_sublist hline).mem hc)
  simp [hstrip]

theorem isSpace_of_isLineBreak {c : Char} (h : isLineBreak c = true) : isSpace c = true := by
  apply decide_eq_true
  have hmem := of_decide_eq_true h
  simp only [List.mem_cons, List.not_mem_nil, or_false] at hmem ⊢
  omega

theorem textLines_char {c : Char} (h : isSpace c = false) : textLines [c] = [[c]] := by
  have hbreaks : ∀ d ∈ [c], isLineBreak d = false := by
    intro d hd
    rw [List.mem_singleton.mp hd, ← Bool.not_eq_true]
    intro hbreak
    rw [isSpace_of_isLineBreak hbreak] at h
    cases h
  have hstrip : strip [c] ≠ [] := by
    intro hnil
    rw [strip_eq_nil_iff.mp hnil c List.mem_cons_self] at h
    cases h
  have hcolour : stripColours [c] = [c] := by
    have hnone : colourAt [c] = none := by
      unfold colourAt
      split
      · rename_i heq
        cases heq
      · rfl
    rw [stripColours, stripColoursFrom, hnone]
    rfl
  rw [textLines_line hbreaks hstrip, hcolour]

/-- Entries stay in the results. -/
theorem results_ne_nil_of_line {s s' : ParseState S} {line : Text} (h : parseLine parseStats s line = .ok s')
    (hs : s.results ≠ []) : s'.results ≠ [] := by
  unfold parseLine at h
  split at h
  · obtain rfl := Except.ok.inj h
    simpa [ParseState.results] using hs
  · split at h
    · obtain rfl := Except.ok.inj h
      exact hs
    · split at h
      · obtain rfl := Except.ok.inj h
        exact hs
      · cases hread : RawFile.readLine parseStats line (s.rawData.getD {}) with
        | error e =>
          rw [hread] at h
          cases h
        | ok read =>
          rw [hread] at h
          obtain rfl := Except.ok.inj h
          simp [ParseState.results]

theorem results_ne_nil {s s' : ParseState S} {lines : List Text}
    (h : lines.foldlM (parseLine parseStats) s = .ok s') (hs : s.results ≠ []) : s'.results ≠ [] := by
  induction lines generalizing s with
  | nil =>
    obtain rfl := Except.ok.inj h
    exact hs
  | cons line lines ih =>
    cases hline : parseLine parseStats s line with
    | error e =>
      rw [List.foldlM_cons, hline] at h
      cases h
    | ok s₁ =>
      rw [foldlM_of_line hline] at h
      exact ih h (results_ne_nil_of_line parseStats hline hs)

/-- A level that is announced in front of another line makes an entry, or the parser fails. -/
theorem parse_ne_nil {header plain : Text} (hheader : startsLevel header = true) (hplain : Silent plain)
    (before after : List Text) :
    (parseTest parseStats (some (before ++ header :: plain :: after))).map Prod.fst ≠ .ok [] := by
  rw [parseTest]
  cases hbefore : before.foldlM (parseLine parseStats) {} with
  | error e =>
    rw [List.foldlM_append, hbefore]
    intro h
    cases h
  | ok s =>
    have hlevel : parseLine parseStats s header = .ok ⟨false, s.results, none, s.stats⟩ := by
      rw [parseLine, hheader, if_pos rfl]
    rw [foldlM_of_lines hbefore, foldlM_of_line hlevel, foldlM_of_line (parseLine_first hplain _ _)]
    cases hafter : after.foldlM (parseLine parseStats) ⟨false, s.results, some {}, s.stats⟩ with
    | error e =>
      intro h
      cases h
    | ok s' =>
      have hne := results_ne_nil parseStats hafter (by simp [ParseState.results])
      exact fun h => hne (Except.ok.inj h)

/-- Cut after every character, a text has no results. -/
theorem recordedResults_characters (text : Text) :
    recordedResults parseStats ((text.map fun c => [c]).map encode) = .ok [] := by
  rw [recordedResults_eq, streamTexts_encode]
  apply parse_of_pairwise
  have hlevel : ∀ line ∈ addTexts [] (text.map fun c => [c]), startsLevel line = false := by
    intro line hline
    obtain ⟨piece, hpiece, hmem⟩ := List.mem_flatMap.mp ((addTexts_sublist [] _).mem hline)
    obtain ⟨c, -, rfl⟩ := List.mem_map.mp hpiece
    exact (silent_one (length_textLines hmem)).startsLevel
  exact List.pairwise_of_forall_mem_list fun line hline _ _ => hlevel line hline

/-- Cut around a line that announces a level and around a character behind it, a text has results. -/
theorem recordedResults_around {before line blank after : Text} {c : Char}
    (hbreaks : ∀ d ∈ line, isLineBreak d = false) (hlevel : startsLevel (stripColours line) = true)
    (hblank : ∀ d ∈ blank, isSpace d = true) (hc : isSpace c = false)
    (hsize : fileSize before + fileSize line + 2 < tooManyBytes) :
    recordedResults parseStats ([before, line, blank, [c], after].map encode) ≠ .ok [] := by
  have hbefore : loggedLines [] before = textLines before := if_pos (by decide)
  have hfirst := fileSize_textLines before
  have hline : loggedLines (textLines before) line = [stripColours line] := by
    rw [loggedLines, if_pos (by omega), textLines_level hbreaks hlevel]
  have hlines : fileSize (unlines (textLines before ++ [stripColours line])) < tooManyBytes := by
    have hstripped := fileSize_le_of_sublist (stripColours_sublist line)
    rw [unlines_append, fileSize_append, fileSize_unlines_cons]
    have hnil : fileSize (unlines []) = 0 := rfl
    omega
  have hskip (lines : List Text) : loggedLines lines blank = [] := by
    rw [loggedLines, textLines_blank hblank, ite_self]
  have hadded : addTexts [] [before, line, blank, [c], after] =
      textLines before ++ stripColours line :: [c] ::
        loggedLines (textLines before ++ [stripColours line] ++ [[c]]) after := by
    simp only [addTexts, List.foldl_cons, List.foldl_nil, hskip, List.append_nil, List.nil_append, hbefore, hline]
    rw [show loggedLines (textLines before ++ [stripColours line]) [c] = [[c]] by
      rw [loggedLines, if_pos hlines, textLines_char hc]]
    simp only [List.append_assoc, List.cons_append, List.nil_append]
  rw [recordedResults_eq, streamTexts_encode, hadded]
  exact parse_ne_nil parseStats hlevel (silent_one (Nat.le_refl [c].length)) _ _

theorem cuts_encode (texts : List Text) : Cuts texts.flatten (texts.map encode) := foldr_encode texts

theorem SameResults.lastLevel {text : Text} (h : SameResults parseStats text)
    (hsize : fileSize text + 2 ≤ tooManyBytes) : LastLevel text := by
  intro before line after htext hbreaks hlevel c hc
  rw [← Bool.not_eq_false]
  intro hspace
  obtain ⟨first, hfirst, hblank⟩ : ∃ first, after.dropWhile isSpace = first ∧ first ≠ [] := by
    refine ⟨_, rfl, fun hnil => ?_⟩
    rw [List.dropWhile_eq_nil_iff.mp hnil c hc] at hspace
    cases hspace
  obtain ⟨d, rest, rfl⟩ := List.exists_cons_of_ne_nil hblank
  have hafter : after = after.takeWhile isSpace ++ ([d] ++ rest) := by
    rw [List.singleton_append, ← hfirst, List.takeWhile_append_dropWhile]
  have hd : isSpace d = false := by
    have hhead := List.head?_dropWhile_not isSpace after
    rw [hfirst] at hhead
    exact hhead
  have hcoarse : Cuts text ([before, line, after.takeWhile isSpace, [d], rest].map encode) := by
    have hcuts := cuts_encode [before, line, after.takeWhile isSpace, [d], rest]
    simp only [List.flatten_cons, List.flatten_nil, List.append_nil] at hcuts
    rw [← hafter, ← htext] at hcuts
    exact hcuts
  have hfine : Cuts text ((text.map fun c => [c]).map encode) := by
    have hcuts := cuts_encode (text.map fun c => [c])
    rw [← List.flatMap_def, List.flatMap_singleton'] at hcuts
    exact hcuts
  have hroom : fileSize before + fileSize line + 2 < tooManyBytes := by
    have hone := d.utf8Size_pos
    rw [htext, hafter, fileSize_append, fileSize_append, fileSize_append, fileSize_append, fileSize_cons] at hsize
    omega
  apply recordedResults_around parseStats hbreaks hlevel (fun e he => List.mem_takeWhile_imp he) hd hroom
  rw [h _ _ hcoarse hfine]
  exact recordedResults_characters parseStats text

/-- The results do not depend on the cuts where a level is announced at most behind all other text, and, where
all of the text fits into the file, nowhere else. -/
theorem sameResults_iff (text : Text) :
    (LastLevel text → SameResults parseStats text) ∧
      (fileSize text + 2 ≤ tooManyBytes → (SameResults parseStats text ↔ LastLevel text)) :=
  ⟨fun h => h.sameResults parseStats, fun hsize =>
    ⟨fun h => h.lastLevel parseStats hsize, fun h => h.sameResults parseStats⟩⟩

/-- A line that is cut in its first word. -/
theorem results_differ :
    Cuts "Concurrency: 8\nx".toList (["Concurrency: 8\n".toList, "x".toList].map encode) ∧
      Cuts "Concurrency: 8\nx".toList (["Con".toList, "currency: 8\n".toList, "x".toList].map encode) ∧
      recordedResults (fun start time => (start, time))
          (["Concurrency: 8\n".toList, "x".toList].map encode) ≠
        recordedResults (fun start time => (start, time))
          (["Con".toList, "currency: 8\n".toList, "x".toList].map encode) := by
  refine ⟨cuts_encode _, cuts_encode _, ?_⟩
  rw [recordedResults_eq, recordedResults_eq, streamTexts_encode, streamTexts_encode]
  decide

end FrameworkBenchmarks.Toolset.RawFile
