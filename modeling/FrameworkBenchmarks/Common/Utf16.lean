import Mathlib.Data.List.ReduceOption

/-!
# UTF-8 of UTF-16 text

A string of UTF-16 units may hold halves of surrogate pairs that stand alone; each is encoded as the
replacement character. So the encoding of a text that is cut into segments is not always that of its
segments: a pair that is cut counts as two halves.
-/

namespace FrameworkBenchmarks.Common

/-- The units of an ASCII string. -/
def units (s : String) : List UInt16 := s.toList.map fun c => c.val.toUInt16

/-- The first half of a surrogate pair. -/
def IsHigh (c : UInt16) : Prop := 0xD800 ≤ c ∧ c < 0xDC00

/-- The second half of a surrogate pair. -/
def IsLow (c : UInt16) : Prop := 0xDC00 ≤ c ∧ c < 0xE000

instance (c : UInt16) : Decidable (IsHigh c) := inferInstanceAs (Decidable (_ ∧ _))

instance (c : UInt16) : Decidable (IsLow c) := inferInstanceAs (Decidable (_ ∧ _))

/-- A byte that continues a character, with the lowest six bits of a number. -/
def continuation (n : UInt32) : UInt8 := 0x80 ||| (n &&& 0x3F).toUInt8

/-- The encoding of a unit by itself. -/
def encodeUnit (c : UInt16) : List UInt8 :=
  let n := c.toUInt32
  if c < 0x80 then [c.toUInt8]
  else if c < 0x800 then [(0xC0 : UInt8) ||| (n >>> 6).toUInt8, continuation n]
  else if IsHigh c ∨ IsLow c then [0xEF, 0xBF, 0xBD]
  else [(0xE0 : UInt8) ||| (n >>> 12).toUInt8, continuation (n >>> 6), continuation n]

/-- The character of a surrogate pair. -/
def pairValue (c d : UInt16) : UInt32 :=
  (0x10000 : UInt32) + ((c - 0xD800).toUInt32 <<< 10) + (d - 0xDC00).toUInt32

/-- The encoding of a surrogate pair. -/
def encodePair (c d : UInt16) : List UInt8 :=
  let n := pairValue c d
  [(0xF0 : UInt8) ||| (n >>> 18).toUInt8, continuation (n >>> 12), continuation (n >>> 6),
    continuation n]

/-- The UTF-8 encoding of a string. -/
def encodeUtf8 : List UInt16 → List UInt8
  | [] => []
  | [c] => encodeUnit c
  | c :: d :: s =>
    if IsHigh c ∧ IsLow d then encodePair c d ++ encodeUtf8 s
    else encodeUnit c ++ encodeUtf8 (d :: s)

/-- A surrogate pair lies across the border of two texts. -/
def Cuts (s t : List UInt16) : Prop := (∃ c ∈ s.getLast?, IsHigh c) ∧ ∃ d ∈ t.head?, IsLow d

/-- No surrogate pair lies across the segments of a text. -/
def Unsplit : List (List UInt16) → Prop
  | [] => True
  | s :: segments => ¬Cuts s segments.flatten ∧ Unsplit segments

section Cuts

variable {c d : UInt16} {s t : List UInt16}

theorem not_isLow_of_isHigh (h : IsHigh c) : ¬IsLow c := by
  intro hlow
  exact absurd (UInt16.lt_of_le_of_lt hlow.1 h.2) (by decide)

theorem length_encodeUnit_of_surrogate (h : IsHigh c ∨ IsLow c) : (encodeUnit c).length = 3 := by
  have hlarge : 0x800 ≤ c := by
    rcases h with hhigh | hlow
    · exact UInt16.le_trans (by decide) hhigh.1
    · exact UInt16.le_trans (by decide) hlow.1
  have hlarge' : 0x80 ≤ c := UInt16.le_trans (by decide) hlarge
  rw [encodeUnit, if_neg (UInt16.not_lt.mpr hlarge'), if_neg (UInt16.not_lt.mpr hlarge), if_pos h]
  rfl

@[simp] theorem not_cuts_nil (t : List UInt16) : ¬Cuts [] t := by
  simp [Cuts]

theorem cuts_cons_cons : Cuts (c :: d :: s) t ↔ Cuts (d :: s) t := by
  rw [Cuts, Cuts, List.getLast?_cons_cons]

/-- After the second half of a pair nothing can be cut before its successor. -/
theorem cuts_of_isLow (hlow : IsLow d) : Cuts (d :: s) t ↔ Cuts s t := by
  cases s with
  | nil =>
    have hhigh : ¬IsHigh d := fun h => not_isLow_of_isHigh h hlow
    simp [Cuts, hhigh]
  | cons e s => exact cuts_cons_cons

/-- Where no pair is cut the encodings are joined as the texts are. -/
theorem encodeUtf8_append (h : ¬Cuts s t) : encodeUtf8 (s ++ t) = encodeUtf8 s ++ encodeUtf8 t := by
  fun_induction encodeUtf8 s with
  | case1 => rfl
  | case2 c =>
    cases t with
    | nil => rw [List.append_nil, encodeUtf8, encodeUtf8, List.append_nil]
    | cons d t =>
      have hpair : ¬(IsHigh c ∧ IsLow d) := fun hp => h ⟨⟨c, rfl, hp.1⟩, ⟨d, rfl, hp.2⟩⟩
      rw [List.singleton_append, encodeUtf8, if_neg hpair]
  | case3 c d s hpair ih =>
    rw [cuts_cons_cons, cuts_of_isLow hpair.2] at h
    rw [List.cons_append, List.cons_append, encodeUtf8, if_pos hpair, ih h, List.append_assoc]
  | case4 c d s hpair ih =>
    rw [cuts_cons_cons] at h
    rw [List.cons_append, List.cons_append, encodeUtf8, if_neg hpair, ← List.cons_append, ih h,
      List.append_assoc]

/-- A pair that is cut takes more bytes. -/
theorem encodeUtf8_append_lt (h : Cuts s t) :
    (encodeUtf8 (s ++ t)).length < (encodeUtf8 s ++ encodeUtf8 t).length := by
  fun_induction encodeUtf8 s with
  | case1 => exact absurd h (not_cuts_nil t)
  | case2 c =>
    obtain ⟨⟨c', hc, hhigh⟩, d, hd, hlow⟩ := h
    obtain rfl : c = c' := Option.some.inj hc
    obtain ⟨t, rfl⟩ := List.head?_eq_some_iff.mp hd
    have hpair : encodeUtf8 ([c] ++ d :: t) = encodePair c d ++ encodeUtf8 t := by
      rw [List.singleton_append, encodeUtf8, if_pos ⟨hhigh, hlow⟩]
    have hlater : encodeUtf8 (d :: t) = encodeUnit d ++ encodeUtf8 t := by
      cases t with
      | nil => rw [encodeUtf8, encodeUtf8, List.append_nil]
      | cons e t => rw [encodeUtf8, if_neg fun hp => not_isLow_of_isHigh hp.1 hlow]
    rw [hpair, hlater, List.length_append, List.length_append, List.length_append,
      length_encodeUnit_of_surrogate (.inl hhigh), length_encodeUnit_of_surrogate (.inr hlow)]
    have hfour : (encodePair c d).length = 4 := rfl
    omega
  | case3 c d s hpair ih =>
    rw [cuts_cons_cons, cuts_of_isLow hpair.2] at h
    have := ih h
    rw [List.cons_append, List.cons_append, encodeUtf8, if_pos hpair]
    simp only [List.length_append] at this ⊢
    omega
  | case4 c d s hpair ih =>
    rw [cuts_cons_cons] at h
    have := ih h
    rw [List.cons_append] at this
    rw [List.cons_append, List.cons_append, encodeUtf8, if_neg hpair]
    simp only [List.length_append] at this ⊢
    omega

/-- Cutting a text never makes its encoding shorter. -/
theorem length_encodeUtf8_append_le (s t : List UInt16) :
    (encodeUtf8 (s ++ t)).length ≤ (encodeUtf8 s).length + (encodeUtf8 t).length := by
  rw [← List.length_append]
  by_cases h : Cuts s t
  · exact Nat.le_of_lt (encodeUtf8_append_lt h)
  · exact Nat.le_of_eq (congrArg List.length (encodeUtf8_append h))

end Cuts

section Segments

theorem length_encodeUtf8_flatten_le (segments : List (List UInt16)) :
    (encodeUtf8 segments.flatten).length ≤ (segments.flatMap encodeUtf8).length := by
  induction segments with
  | nil => exact Nat.le_refl _
  | cons s segments ih =>
    rw [List.flatten_cons, List.flatMap_cons, List.length_append]
    exact Nat.le_trans (length_encodeUtf8_append_le s segments.flatten) (Nat.add_le_add_left ih _)

/-- The segments of a text are encoded as the whole exactly if they cut no pair. -/
theorem flatMap_encodeUtf8_eq_iff (segments : List (List UInt16)) :
    segments.flatMap encodeUtf8 = encodeUtf8 segments.flatten ↔ Unsplit segments := by
  induction segments with
  | nil => exact iff_of_true rfl trivial
  | cons s segments ih =>
    rw [List.flatten_cons, List.flatMap_cons, Unsplit]
    by_cases h : Cuts s segments.flatten
    · have hlt := encodeUtf8_append_lt h
      have hle := length_encodeUtf8_flatten_le segments
      apply iff_of_false
      · intro heq
        rw [← heq, List.length_append, List.length_append] at hlt
        omega
      · exact fun hunsplit => hunsplit.1 h
    · rw [encodeUtf8_append h, List.append_cancel_left_eq, ih]
      exact (and_iff_right h).symm

/-- Units by themselves cut every pair. -/
theorem unsplit_singletons (s : List UInt16) :
    Unsplit (s.map fun c => [c]) ↔ s.IsChain fun c d => ¬(IsHigh c ∧ IsLow d) := by
  induction s with
  | nil => exact iff_of_true trivial .nil
  | cons c s ih =>
    rw [List.map_cons, Unsplit, ih]
    cases s with
    | nil => simp [Cuts]
    | cons d s => simp [Cuts, List.isChain_cons_cons]

end Segments

section Runs

/-- The runs of a text with marks, behind a run that has begun: at a mark the next one begins. -/
def runsFrom (run : List UInt16) : List (Option UInt16) → List (List UInt16)
  | [] => [run]
  | none :: marked => run :: runsFrom [] marked
  | some c :: marked => runsFrom (run ++ [c]) marked

/-- The encoding of a text run by run. -/
def encodeRuns (run : List UInt16) (marked : List (Option UInt16)) : List UInt8 :=
  (runsFrom run marked).flatMap encodeUtf8

variable {run : List UInt16} {marked : List (Option UInt16)}

/-- The runs make up the text. -/
theorem flatten_runsFrom (run : List UInt16) (marked : List (Option UInt16)) :
    (runsFrom run marked).flatten = run ++ marked.reduceOption := by
  induction marked generalizing run with
  | nil => simp [runsFrom]
  | cons m marked ih =>
    cases m with
    | none => rw [runsFrom, List.flatten_cons, ih, List.nil_append, List.reduceOption_cons_of_none]
    | some c =>
      rw [runsFrom, ih, List.reduceOption_cons_of_some, List.append_assoc]
      rfl

theorem encodeRuns_eq_iff (run : List UInt16) (marked : List (Option UInt16)) :
    encodeRuns run marked = encodeUtf8 (run ++ marked.reduceOption) ↔
      Unsplit (runsFrom run marked) := by
  rw [← flatten_runsFrom]
  exact flatMap_encodeUtf8_eq_iff _

@[simp] theorem encodeRuns_nil (run : List UInt16) : encodeRuns run [] = encodeUtf8 run :=
  List.flatMap_singleton _ _

@[simp] theorem encodeRuns_none (run : List UInt16) (marked : List (Option UInt16)) :
    encodeRuns run (none :: marked) = encodeUtf8 run ++ encodeRuns [] marked := rfl

/-- Text without marks extends the run. -/
theorem encodeRuns_map_some (run s : List UInt16) (marked : List (Option UInt16)) :
    encodeRuns run (s.map some ++ marked) = encodeRuns (run ++ s) marked := by
  induction s generalizing run with
  | nil => rw [List.append_nil, List.map_nil, List.nil_append]
  | cons c s ih =>
    rw [List.map_cons, List.cons_append, encodeRuns, runsFrom, ← encodeRuns, ih, List.append_assoc]
    rfl

/-- What stands before a mark is encoded by itself. -/
theorem encodeRuns_append_none (run : List UInt16) (before marked : List (Option UInt16)) :
    encodeRuns run (before ++ none :: marked) = encodeRuns run before ++ encodeRuns [] marked := by
  induction before generalizing run with
  | nil => rw [List.nil_append, encodeRuns_none, encodeRuns_nil]
  | cons m before ih =>
    cases m with
    | none => rw [List.cons_append, encodeRuns_none, encodeRuns_none, ih, List.append_assoc]
    | some c => exact ih (run ++ [c])

end Runs

section Count

/-- A byte above the ASCII characters is none of them. -/
theorem ne_of_lead {a : UInt16} {lead x : UInt8} (ha : a < 0x80) (hlead : 0x80 ≤ lead) :
    lead ||| x ≠ a.toUInt8 := by
  intro heq
  have hle : lead.toNat ≤ (lead ||| x).toNat := by
    rw [UInt8.toNat_or]
    exact Nat.left_le_or
  rw [heq, UInt16.toNat_toUInt8] at hle
  have hlead' := UInt8.le_iff_toNat_le.mp hlead
  have ha' := UInt16.lt_iff_toNat_lt.mp ha
  have hmod := Nat.mod_le a.toNat (2 ^ 8)
  have h80 : (0x80 : UInt8).toNat = 0x80 := rfl
  have h80' : (0x80 : UInt16).toNat = 0x80 := rfl
  omega

/-- So is one without further bits. -/
theorem ne_of_le {a : UInt16} {b : UInt8} (ha : a < 0x80) (hb : 0x80 ≤ b) : b ≠ a.toUInt8 := by
  have hne := ne_of_lead (x := 0) ha hb
  rwa [UInt8.or_zero] at hne

theorem toUInt8_inj_of_lt {a c : UInt16} (ha : a < 0x80) (hc : c < 0x80) :
    c.toUInt8 = a.toUInt8 ↔ c = a := by
  rw [← UInt8.toNat_inj, ← UInt16.toNat_inj, UInt16.toNat_toUInt8, UInt16.toNat_toUInt8]
  have ha' := UInt16.lt_iff_toNat_lt.mp ha
  have hc' := UInt16.lt_iff_toNat_lt.mp hc
  have h80 : (0x80 : UInt16).toNat = 0x80 := rfl
  rw [Nat.mod_eq_of_lt (by omega), Nat.mod_eq_of_lt (by omega)]

/-- An ASCII character is found in the encoding of its own unit only. -/
theorem count_encodeUnit {a : UInt16} (ha : a < 0x80) (c : UInt16) :
    (encodeUnit c).count a.toUInt8 = [c].count a := by
  by_cases hc : c < 0x80
  · rw [encodeUnit, if_pos hc, List.count_singleton, List.count_singleton]
    simp only [beq_iff_eq, toUInt8_inj_of_lt ha hc]
  · have hne : c ≠ a := fun heq => hc (heq ▸ ha)
    have hcontinuation : ∀ n, continuation n ≠ a.toUInt8 := fun n => ne_of_lead ha (by decide)
    have hlead : ∀ x, (0xC0 : UInt8) ||| x ≠ a.toUInt8 := fun x => ne_of_lead ha (by decide)
    have hlead' : ∀ x, (0xE0 : UInt8) ||| x ≠ a.toUInt8 := fun x => ne_of_lead ha (by decide)
    have hreplacement : ∀ b ∈ [0xEF, 0xBF, 0xBD], b ≠ a.toUInt8 := by
      intro b hb
      apply ne_of_le ha
      revert b
      decide +kernel
    rw [encodeUnit, if_neg hc, List.count_eq_zero.mpr fun hmem => hne (List.mem_singleton.mp hmem).symm]
    apply List.count_eq_zero.mpr
    intro hmem
    split at hmem
    · simp [(hcontinuation _).symm, (hlead _).symm] at hmem
    · split at hmem
      · exact hreplacement _ hmem rfl
      · simp [(hcontinuation _).symm, (hlead' _).symm] at hmem

/-- A surrogate pair holds none. -/
theorem count_encodePair {a : UInt16} (ha : a < 0x80) {c d : UInt16} (hpair : IsHigh c ∧ IsLow d) :
    (encodePair c d).count a.toUInt8 = [c, d].count a := by
  have hsurrogate : ∀ c', 0xD800 ≤ c' → c' ≠ a := by
    intro c' hc heq
    rw [heq] at hc
    exact absurd (UInt16.lt_of_le_of_lt hc ha) (by decide)
  have hcontinuation : ∀ n, continuation n ≠ a.toUInt8 := fun n => ne_of_lead ha (by decide)
  have hlead : ∀ x, (0xF0 : UInt8) ||| x ≠ a.toUInt8 := fun x => ne_of_lead ha (by decide)
  have hhigh := hsurrogate c hpair.1.1
  have hlow := hsurrogate d (UInt16.le_trans (by decide) hpair.2.1)
  have hzero : [c, d].count a = 0 := by
    apply List.count_eq_zero.mpr
    simp [hhigh.symm, hlow.symm]
  rw [hzero]
  apply List.count_eq_zero.mpr
  simp [encodePair, (hcontinuation _).symm, (hlead _).symm]

/-- An ASCII character is as often in the encoding as in the text. -/
theorem count_encodeUtf8 {a : UInt16} (ha : a < 0x80) (s : List UInt16) :
    (encodeUtf8 s).count a.toUInt8 = s.count a := by
  fun_induction encodeUtf8 s with
  | case1 => rfl
  | case2 c => exact count_encodeUnit ha c
  | case3 c d s hpair ih =>
    rw [List.count_append, count_encodePair ha hpair, ih, ← List.count_append]
    rfl
  | case4 c d s hpair ih =>
    rw [List.count_append, count_encodeUnit ha, ih, ← List.count_append]
    rfl

theorem count_flatMap_encodeUtf8 {a : UInt16} (ha : a < 0x80) (segments : List (List UInt16)) :
    (segments.flatMap encodeUtf8).count a.toUInt8 = segments.flatten.count a := by
  induction segments with
  | nil => rfl
  | cons s segments ih =>
    rw [List.flatMap_cons, List.flatten_cons, List.count_append, List.count_append, ih,
      count_encodeUtf8 ha]

end Count

end FrameworkBenchmarks.Common
