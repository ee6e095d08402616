import FrameworkBenchmarks.TitanPl.Envelope
import FrameworkBenchmarks.TitanPl.RouteReading

/-!
# When the two ways of answering a call agree

The headers are compared as a whole, name by name: the content type, the server, and the others.
-/

namespace FrameworkBenchmarks.TitanPl

open Common

/-- The same status and the same headers up to order. Where a header is not accepted there is no
response, with which only no response agrees. -/
def SameEnvelope : Option Response → Option Response → Prop
  | some r, some r' => r.status = r'.status ∧ r.headers.Perm r'.headers
  | none, none => True
  | _, _ => False

/-! ### Headers that are built -/

section Build

variable (accepts : String → String → Bool)

/-- A header by its name in lower case and the text of its value. -/
def acceptPair (p : String × Option String) : Option (String × String) :=
  p.2.bind fun s => if accepts p.1 s then some (p.1, s) else none

def Rejected (p : String × Option String) : Prop := ∀ s, p.2 = some s → accepts p.1 s = false

variable {accepts}

theorem acceptPair_eq_some_iff (p : String × Option String) (h : String × String) :
    acceptPair accepts p = some h ↔ p = (h.1, some h.2) ∧ accepts h.1 h.2 := by
  obtain ⟨k, o⟩ := p
  obtain ⟨k', s⟩ := h
  cases o with
  | none => simp [acceptPair]
  | some t =>
    simp only [acceptPair, Option.bind_some, Option.ite_none_right_eq_some, Option.some_inj,
      Prod.mk.injEq]
    constructor
    · intro h
      obtain ⟨haccepts, rfl, rfl⟩ := h
      exact ⟨⟨rfl, rfl⟩, haccepts⟩
    · intro h
      obtain ⟨⟨rfl, rfl⟩, haccepts⟩ := h
      exact ⟨haccepts, rfl, rfl⟩

theorem acceptPair_eq_none_iff (p : String × Option String) :
    acceptPair accepts p = none ↔ Rejected accepts p := by
  obtain ⟨k, o⟩ := p
  cases o with
  | none => simp [acceptPair, Rejected]
  | some t => simp [acceptPair, Rejected]

theorem mapM_acceptPair_eq_some {ps : List (String × Option String)} :
    ∀ {headers : List (String × String)}, ps.mapM (acceptPair accepts) = some headers →
      ps = headers.map fun h => (h.1, some h.2) := by
  induction ps with
  | nil =>
    intro headers h
    cases h
    rfl
  | cons p ps ih =>
    intro headers h
    obtain ⟨first, rest, hfirst, hrest, rfl⟩ := mapM_cons_eq_some h
    rw [List.map_cons, ← ih hrest, ((acceptPair_eq_some_iff p first).mp hfirst).1]

theorem mapM_acceptPair_isSome_iff (ps : List (String × Option String)) :
    (ps.mapM (acceptPair accepts)).isSome ↔ ∀ p ∈ ps, ¬Rejected accepts p := by
  rw [mapM_isSome_iff]
  apply forall₂_congr
  intro p _
  rw [← acceptPair_eq_none_iff, Option.isSome_iff_ne_none]

/-- Headers that are the same up to order are built into the same headers up to order. -/
theorem built_perm_iff {ps ps' : List (String × Option String)}
    {headers headers' : List (String × String)} (h : ps.mapM (acceptPair accepts) = some headers)
    (h' : ps'.mapM (acceptPair accepts) = some headers') :
    headers.Perm headers' ↔ ps.Perm ps' := by
  have hinj : Function.Injective fun h : String × String => (h.1, some h.2) := by
    intro x y hxy
    simpa [Prod.ext_iff] using hxy
  rw [mapM_acceptPair_eq_some h, mapM_acceptPair_eq_some h', List.map_perm_map_iff hinj]

theorem mapM_header (headers : List (String × String)) :
    headers.mapM (header accepts) =
      (headers.map fun h => (lowercase h.1, some h.2)).mapM (acceptPair accepts) := by
  rw [List.mapM_map]
  rfl

theorem mapM_bind_mapM {α β γ : Type} (f : α → Option β) (g : β → Option γ) (l : List α) :
    (l.mapM f).bind (List.mapM g) = l.mapM fun x => (f x).bind g := by
  induction l with
  | nil => rfl
  | cons x l ih =>
    rw [List.mapM_cons, List.mapM_cons, ← ih]
    cases hx : f x with
    | none => rfl
    | some y =>
      cases hl : l.mapM f with
      | none =>
        cases hy : g y with
        | none => simp [hy]
        | some z => simp [hy]
      | some ys => simp

theorem mapM_headerText (e : Engine) (members : List (String × StaticValue)) :
    (members.mapM (headerText e)).bind (List.mapM (header accepts)) =
      (members.map fun m => (lowercase m.1, m.2.text e)).mapM (acceptPair accepts) := by
  rw [mapM_bind_mapM, List.mapM_map]
  congr 1
  funext m
  simp only [headerText, acceptPair, Function.comp_apply]
  cases m.2.text e with
  | none => rfl
  | some s => rfl

end Build

/-! ### The headers, class by class -/

section Headers

variable (e : Engine) (contentType : String) (second third : StaticValue)

def passedText (k : String) : Option String := (passedHeader second third k).bind (·.text e)

def optionText (k : String) : Option String := ((optionHeaders second).lookup k).bind (·.text e)

/-- The names in the headers object that `to_axum_response` does not set itself. -/
def otherNames : List String := ((optionHeaders second).map Prod.fst).filter (!isReserved ·)

structure HeadersAgree : Prop where
  /-- A content type that is passed has the very name and value of the default. -/
  contentType : ∀ k, (passedHeader second third k).isSome → lowercase k = "content-type" →
    k = "Content-Type" ∧ passedText e second third k = some contentType
  /-- Exactly one server is passed, which is the one of the fast path. -/
  server : ∃ k, lowercase k = "server" ∧ passedText e second third k = some "TitanPL" ∧
    ∀ k', (passedHeader second third k').isSome → lowercase k' = "server" → k' = k
  /-- The other members of the headers object are strings. -/
  strings : ∀ m ∈ optionHeaders second, isReserved m.1 = false → ∃ s, m.2 = .string s
  /-- The other headers that are passed are among them. -/
  covered : ∀ k, (passedHeader second third k).isSome → isReserved k = false →
    k ∈ (optionHeaders second).map Prod.fst
  /-- Where a third argument replaces some of them, it only exchanges the values of names that
  differ in case. -/
  overrides : ((otherNames second).map fun k => (lowercase k, passedText e second third k)).Perm
    ((otherNames second).map fun k => (lowercase k, optionText e second k))

/-- The header object of the action that runs. -/
def runHeaders : List (String × StaticValue) :=
  (parseResponseOpts second third).extraHeaders.spread [("Content-Type", .string contentType)]

/-- The headers that the fast path sets. -/
def fastHeaders : List (String × String) :=
  ("content-type", contentType) :: ("server", "TitanPL") ::
    ((optionHeaders second).filterMap stringHeader).filter (!isReserved ·.1)

variable {e contentType second third}

theorem nodup_runHeaders : ((runHeaders contentType second third).map Prod.fst).Nodup :=
  @nodup_spread [_] (List.nodup_singleton _) _

theorem mem_runHeaders_iff (m : String × StaticValue) :
    m ∈ runHeaders contentType second third ↔
      passedHeader second third m.1 = some m.2 ∨
        passedHeader second third m.1 = none ∧ m = ("Content-Type", .string contentType) := by
  obtain ⟨k, v⟩ := m
  rw [← lookup_eq_some_iff nodup_runHeaders, runHeaders, lookup_headers]
  cases passedHeader second third k with
  | some v' => simp
  | none =>
    by_cases hk : k = "Content-Type"
    · simp [hk, eq_comm]
    · simp [hk]

theorem lowercase_contentType : lowercase "Content-Type" = "content-type" := by decide

theorem isReserved_of_contentType {k : String} (h : lowercase k = "content-type") :
    isReserved k = true := by
  simp [isReserved, h]

theorem isReserved_of_server {k : String} (h : lowercase k = "server") : isReserved k = true := by
  simp [isReserved, h]

/-- Away from the content type the header object has what is passed. -/
theorem mem_runHeaders_of_ne {m : String × StaticValue} (hm : lowercase m.1 ≠ "content-type") :
    m ∈ runHeaders contentType second third ↔ passedHeader second third m.1 = some m.2 := by
  rw [mem_runHeaders_iff]
  apply or_iff_left
  intro h
  apply hm
  rw [h.2]
  exact lowercase_contentType

/-- A header by its name in lower case and the text of its value. -/
def pairOf (e : Engine) (m : String × StaticValue) : String × Option String :=
  (lowercase m.1, m.2.text e)

/-- The part of the headers with one name is a given single one. -/
theorem filter_pairs_eq_singleton_iff (name value : String) :
    (((runHeaders contentType second third).map (pairOf e)).filter (·.1 = name)).Perm
        [(name, some value)] ↔
      ∃ m ∈ runHeaders contentType second third, lowercase m.1 = name ∧ m.2.text e = some value ∧
        ∀ m' ∈ runHeaders contentType second third, lowercase m'.1 = name → m'.1 = m.1 := by
  rw [List.perm_singleton, List.filter_map, List.map_eq_singleton_iff]
  have hclass : ∀ m, (List.filter ((fun p => decide (p.1 = name)) ∘ pairOf e)
      (runHeaders contentType second third) = [m] ↔
        m ∈ runHeaders contentType second third ∧ lowercase m.1 = name ∧
          ∀ m' ∈ runHeaders contentType second third, lowercase m'.1 = name → m'.1 = m.1) := by
    intro m
    have hsplit := filter_key_eq_singleton_iff (@nodup_runHeaders contentType second third)
      (fun k => decide (lowercase k = name)) m
    simp only [decide_eq_true_eq] at hsplit
    exact hsplit
  constructor
  · intro h
    obtain ⟨m, hm, hpair⟩ := h
    obtain ⟨hmem, hname, honly⟩ := (hclass m).mp hm
    exact ⟨m, hmem, hname, congrArg Prod.snd hpair, honly⟩
  · intro h
    obtain ⟨m, hmem, hname, htext, honly⟩ := h
    exact ⟨m, (hclass m).mpr ⟨hmem, hname, honly⟩, Prod.ext hname htext⟩

theorem contentType_class_iff :
    (((runHeaders contentType second third).map (pairOf e)).filter (·.1 = "content-type")).Perm
        [("content-type", some contentType)] ↔
      ∀ k, (passedHeader second third k).isSome → lowercase k = "content-type" →
        k = "Content-Type" ∧ passedText e second third k = some contentType := by
  rw [filter_pairs_eq_singleton_iff]
  -- the default is there unless it is replaced
  have hdefault : ∃ v, ("Content-Type", v) ∈ runHeaders contentType second third := by
    cases hpassed : passedHeader second third "Content-Type" with
    | some v => exact ⟨v, (mem_runHeaders_iff _).mpr (.inl hpassed)⟩
    | none => exact ⟨_, (mem_runHeaders_iff _).mpr (.inr ⟨hpassed, rfl⟩)⟩
  obtain ⟨v, hv⟩ := hdefault
  constructor
  · intro h k hpassed hk
    obtain ⟨m, hmem, _, htext, honly⟩ := h
    obtain ⟨w, hw⟩ := Option.isSome_iff_exists.mp hpassed
    have hkmem : (k, w) ∈ runHeaders contentType second third := (mem_runHeaders_iff _).mpr (.inl hw)
    have hname : k = m.1 := honly _ hkmem hk
    have hdef : "Content-Type" = m.1 := honly _ hv lowercase_contentType
    have hsame : (k, w) = m :=
      List.inj_on_of_nodup_map nodup_runHeaders hkmem hmem hname
    constructor
    · rw [hname, hdef]
    · rw [passedText, hw, Option.bind_some, ← htext, ← hsame]
  · intro h
    refine ⟨("Content-Type", v), hv, lowercase_contentType, ?_, ?_⟩
    · cases (mem_runHeaders_iff _).mp hv with
      | inl hpassed =>
        have htext := (h "Content-Type" (by rw [hpassed]; rfl) lowercase_contentType).2
        rwa [passedText, hpassed] at htext
      | inr hmissing => rw [(Prod.mk.inj hmissing.2).2]; rfl
    · intro m' hmem' hname'
      cases (mem_runHeaders_iff m').mp hmem' with
      | inl hpassed => exact (h m'.1 (by rw [hpassed]; rfl) hname').1
      | inr hmissing => rw [hmissing.2]

theorem server_class_iff :
    (((runHeaders contentType second third).map (pairOf e)).filter (·.1 = "server")).Perm
        [("server", some "TitanPL")] ↔
      ∃ k, lowercase k = "server" ∧ passedText e second third k = some "TitanPL" ∧
        ∀ k', (passedHeader second third k').isSome → lowercase k' = "server" → k' = k := by
  rw [filter_pairs_eq_singleton_iff]
  have hmem_iff : ∀ m : String × StaticValue, lowercase m.1 = "server" →
      (m ∈ runHeaders contentType second third ↔ passedHeader second third m.1 = some m.2) := by
    intro m hm
    apply mem_runHeaders_of_ne
    rw [hm]
    decide
  constructor
  · intro h
    obtain ⟨m, hmem, hname, htext, honly⟩ := h
    have hpassed := (hmem_iff m hname).mp hmem
    refine ⟨m.1, hname, ?_, ?_⟩
    · rw [passedText, hpassed]
      exact htext
    · intro k' hk' hname'
      obtain ⟨w, hw⟩ := Option.isSome_iff_exists.mp hk'
      exact honly (k', w) ((hmem_iff (k', w) hname').mpr hw) hname'
  · intro h
    obtain ⟨k, hname, htext, honly⟩ := h
    obtain ⟨w, hw, hwtext⟩ := Option.bind_eq_some_iff.mp htext
    refine ⟨(k, w), (hmem_iff (k, w) hname).mpr hw, hname, hwtext, ?_⟩
    intro m' hmem' hname'
    have hpassed := (hmem_iff m' hname').mp hmem'
    exact honly m'.1 (by rw [hpassed]; rfl) hname'

/-- The names of the headers of the action that runs, without the reserved ones. -/
def runNames (contentType : String) (second third : StaticValue) : List String :=
  ((runHeaders contentType second third).map Prod.fst).filter (!isReserved ·)

theorem mem_runNames_iff (k : String) :
    k ∈ runNames contentType second third ↔
      (passedHeader second third k).isSome ∧ isReserved k = false := by
  have hne : isReserved k = false → lowercase k ≠ "content-type" := by
    intro hother hname
    rw [isReserved_of_contentType hname] at hother
    cases hother
  rw [runNames, List.mem_filter, Bool.not_eq_true', and_congr_left_iff]
  intro hother
  rw [List.mem_map]
  constructor
  · intro h
    obtain ⟨m, hmem, rfl⟩ := h
    rw [(mem_runHeaders_of_ne (hne hother)).mp hmem]
    rfl
  · intro h
    obtain ⟨v, hv⟩ := Option.isSome_iff_exists.mp h
    exact ⟨(k, v), (@mem_runHeaders_of_ne contentType _ _ (k, v) (hne hother)).mpr hv, rfl⟩

theorem runPairs_eq :
    ((runHeaders contentType second third).filter (!isReserved ·.1)).map (pairOf e) =
      (runNames contentType second third).map fun k => (lowercase k, passedText e second third k) := by
  have hnames : runNames contentType second third =
      ((runHeaders contentType second third).filter (!isReserved ·.1)).map Prod.fst := by
    rw [runNames, List.filter_map]
    rfl
  rw [hnames, List.map_map]
  apply List.map_congr_left
  intro m hm
  obtain ⟨hmem, hother⟩ := List.mem_filter.mp hm
  have hne : lowercase m.1 ≠ "content-type" := by
    intro hname
    rw [isReserved_of_contentType hname] at hother
    cases hother
  rw [Function.comp_apply, passedText, (mem_runHeaders_of_ne hne).mp hmem]
  rfl

theorem otherNames_eq :
    otherNames second = ((optionHeaders second).filter (!isReserved ·.1)).map Prod.fst := by
  rw [otherNames, List.filter_map]
  rfl

theorem nodup_otherNames : (otherNames second).Nodup := (nodup_optionHeaders second).filter _

theorem nodup_runNames : (runNames contentType second third).Nodup := nodup_runHeaders.filter _

theorem otherNames_subset : otherNames second ⊆ runNames contentType second third := by
  intro k hk
  obtain ⟨hmem, hother⟩ := List.mem_filter.mp hk
  obtain ⟨m, hm, rfl⟩ := List.mem_map.mp hmem
  exact (mem_runNames_iff m.1).mpr
    ⟨passedHeader_of_optionHeaders hm third, by simpa using hother⟩

/-- The strings among the other headers of the options. -/
theorem filter_stringHeader (members : List (String × StaticValue)) :
    (members.filterMap stringHeader).filter (!isReserved ·.1) =
      (members.filter (!isReserved ·.1)).filterMap stringHeader := by
  induction members with
  | nil => rfl
  | cons m members ih =>
    cases hstring : stringHeader m with
    | none =>
      rw [List.filterMap_cons_none hstring, ih]
      by_cases hother : isReserved m.1
      · rw [List.filter_cons_of_neg (by simp [hother])]
      · rw [List.filter_cons_of_pos (by simp [hother]), List.filterMap_cons_none hstring]
    | some h =>
      have hkey : m.1 = h.1 := by rw [(stringHeader_eq_some_iff m h).mp hstring]
      rw [List.filterMap_cons_some hstring]
      by_cases hother : isReserved m.1
      · rw [List.filter_cons_of_neg (by simp [← hkey, hother]),
          List.filter_cons_of_neg (by simp [hother]), ih]
      · rw [List.filter_cons_of_pos (by simp [← hkey, hother]),
          List.filter_cons_of_pos (by simp [hother]), List.filterMap_cons_some hstring, ih]

/-- Where all other headers of the options are strings, the fast path has the value of each. -/
theorem keptPairs_eq
    (hstrings : ∀ m ∈ optionHeaders second, isReserved m.1 = false → ∃ s, m.2 = .string s) :
    (((optionHeaders second).filter (!isReserved ·.1)).filterMap stringHeader).map
        (fun h => (lowercase h.1, some h.2)) =
      (otherNames second).map fun k => (lowercase k, optionText e second k) := by
  have hvalue : ∀ m ∈ (optionHeaders second).filter (!isReserved ·.1),
      (stringHeader m).map (fun h => (lowercase h.1, some h.2)) =
        some (lowercase m.1, optionText e second m.1) := by
    intro m hm
    obtain ⟨hmem, hother⟩ := List.mem_filter.mp hm
    obtain ⟨s, hs⟩ := hstrings m hmem (by simpa using hother)
    have hlookup : (optionHeaders second).lookup m.1 = some m.2 :=
      (lookup_eq_some_iff (nodup_optionHeaders second) m.1 m.2).mpr hmem
    have hstring : stringHeader m = some (m.1, s) := (stringHeader_eq_some_iff m _).mpr
      (Prod.ext rfl hs)
    rw [hstring, optionText, hlookup, hs]
    rfl
  rw [otherNames_eq, List.map_filterMap, List.map_map, ← List.filterMap_eq_map]
  apply List.filterMap_congr
  exact hvalue

theorem others_class_iff :
    (((runHeaders contentType second third).filter (!isReserved ·.1)).map (pairOf e)).Perm
        ((((optionHeaders second).filterMap stringHeader).filter (!isReserved ·.1)).map
          fun h => (lowercase h.1, some h.2)) ↔
      (∀ m ∈ optionHeaders second, isReserved m.1 = false → ∃ s, m.2 = .string s) ∧
      (∀ k, (passedHeader second third k).isSome → isReserved k = false →
        k ∈ (optionHeaders second).map Prod.fst) ∧
      ((otherNames second).map fun k => (lowercase k, passedText e second third k)).Perm
        ((otherNames second).map fun k => (lowercase k, optionText e second k)) := by
  rw [runPairs_eq, filter_stringHeader]
  -- both ways have the same names once the third argument brings no new one
  have hperm_names : (otherNames second).Perm (runNames contentType second third) →
      ((runNames contentType second third).map
        fun k => (lowercase k, passedText e second third k)).Perm
      ((otherNames second).map fun k => (lowercase k, passedText e second third k)) :=
    fun h => (h.map _).symm
  constructor
  · intro h
    have hlen : (runNames contentType second third).length =
        (((optionHeaders second).filter (!isReserved ·.1)).filterMap stringHeader).length := by
      simpa only [List.length_map] using h.length_eq
    have hkept : (((optionHeaders second).filter (!isReserved ·.1)).filterMap stringHeader).length ≤
        ((optionHeaders second).filter (!isReserved ·.1)).length := List.length_filterMap_le _ _
    have hothers : (otherNames second).length =
        ((optionHeaders second).filter (!isReserved ·.1)).length := by
      rw [otherNames_eq, List.length_map]
    have hnames : (otherNames second).Perm (runNames contentType second third) :=
      perm_of_subset_of_length_le nodup_otherNames otherNames_subset (by omega)
    have hall : (((optionHeaders second).filter (!isReserved ·.1)).filterMap stringHeader).length =
        ((optionHeaders second).filter (!isReserved ·.1)).length := by
      have hsame := hnames.length_eq
      omega
    have hstrings : ∀ m ∈ optionHeaders second, isReserved m.1 = false → ∃ s, m.2 = .string s := by
      intro m hm hother
      have hmem : m ∈ (optionHeaders second).filter (!isReserved ·.1) :=
        List.mem_filter.mpr ⟨hm, by simpa using hother⟩
      rw [List.length_filterMap_eq_countP, List.countP_eq_length] at hall
      obtain ⟨header, hheader⟩ := Option.isSome_iff_exists.mp (hall m hmem)
      exact ⟨header.2, congrArg Prod.snd ((stringHeader_eq_some_iff m header).mp hheader)⟩
    refine ⟨hstrings, ?_, ?_⟩
    · intro k hpassed hother
      have hk : k ∈ otherNames second :=
        hnames.mem_iff.mpr ((mem_runNames_iff k).mpr ⟨hpassed, hother⟩)
      exact (List.mem_filter.mp hk).1
    · rw [keptPairs_eq hstrings] at h
      exact (hperm_names hnames).symm.trans h
  · intro h
    obtain ⟨hstrings, hcovered, hoverrides⟩ := h
    have hnames : (otherNames second).Perm (runNames contentType second third) := by
      rw [List.perm_ext_iff_of_nodup nodup_otherNames nodup_runNames]
      intro k
      constructor
      · exact fun hk => otherNames_subset hk
      · intro hk
        obtain ⟨hpassed, hother⟩ := (mem_runNames_iff k).mp hk
        exact List.mem_filter.mpr ⟨hcovered k hpassed hother, by simpa using hother⟩
    rw [keptPairs_eq hstrings]
    exact (hperm_names hnames).trans hoverrides

/-- A header by its name in lower case and its value. -/
def pairOfFast (h : String × String) : String × Option String := (lowercase h.1, some h.2)

theorem isReserved_eq_false_iff (k : String) :
    isReserved k = false ↔ lowercase k ≠ "content-type" ∧ lowercase k ≠ "server" := by
  simp [isReserved]

/-- The headers the fast path keeps have other names than those it sets. -/
theorem keptPair_ne {p : String × Option String}
    (hp : p ∈ (((optionHeaders second).filterMap stringHeader).filter (!isReserved ·.1)).map
      pairOfFast) : p.1 ≠ "content-type" ∧ p.1 ≠ "server" := by
  obtain ⟨h, hmem, rfl⟩ := List.mem_map.mp hp
  have hother := (List.mem_filter.mp hmem).2
  exact (isReserved_eq_false_iff h.1).mp (by simpa using hother)

theorem headersAgree_iff :
    ((runHeaders contentType second third).map (pairOf e)).Perm
        ((fastHeaders contentType second).map pairOfFast) ↔
      HeadersAgree e contentType second third := by
  have hname : lowercase "content-type" = "content-type" := by decide
  have hdisjoint : ∀ p : String × Option String,
      decide (p.1 = "server") → decide (p.1 = "content-type") = false := by
    intro p hp
    rw [of_decide_eq_true hp]
    decide
  have hothers : ((runHeaders contentType second third).map (pairOf e)).filter
        (fun p => !decide (p.1 = "content-type") && !decide (p.1 = "server")) =
      ((runHeaders contentType second third).filter (!isReserved ·.1)).map (pairOf e) := by
    rw [List.filter_map]
    congr 1
    apply List.filter_congr
    intro m _
    rw [Bool.eq_iff_iff]
    simp only [Function.comp_apply, pairOf, isReserved, Bool.and_eq_true, Bool.not_eq_true',
      Bool.or_eq_false_iff]
    exact Iff.rfl
  rw [fastHeaders, List.map_cons, List.map_cons,
    perm_cons_cons_iff hdisjoint (decide_eq_true hname) (by decide)
      (fun p hp => by simpa using keptPair_ne hp), hothers]
  have hcontent : pairOfFast ("content-type", contentType) = ("content-type", some contentType) :=
    Prod.ext hname rfl
  have hserver : pairOfFast ("server", "TitanPL") = ("server", some "TitanPL") := by decide
  rw [hcontent, hserver, contentType_class_iff, server_class_iff]
  constructor
  · intro h
    obtain ⟨hct, hsv, hrest⟩ := h
    obtain ⟨hstrings, hcovered, hoverrides⟩ := others_class_iff.mp hrest
    exact ⟨hct, hsv, hstrings, hcovered, hoverrides⟩
  · intro h
    exact ⟨h.contentType, h.server,
      others_class_iff.mpr ⟨h.strings, h.covered, h.overrides⟩⟩

end Headers

/-! ### The responses -/

theorem status_extractResponseOptions_valid (second : StaticValue) :
    100 ≤ (extractResponseOptions second.toValue).status ∧
      (extractResponseOptions second.toValue).status < 1000 := by
  by_cases htakes : ∃ n, TakesStatus second n
  · obtain ⟨n, hn⟩ := htakes
    have hlow : 100 ≤ n := hn.1
    have hhigh : n ≤ 599 := hn.2.1
    rw [status_of_takesStatus hn]
    omega
  · rw [status_of_not_takesStatus fun n hn => htakes ⟨n, hn⟩]
    omega

theorem statusCode_valid (status : Option ℕ) :
    100 ≤ statusCode status ∧ statusCode status < 1000 := by
  unfold statusCode
  by_cases hcode : 100 ≤ status.getD 200 % 2 ^ 16 ∧ status.getD 200 % 2 ^ 16 < 1000
  · rw [if_pos hcode]
    exact hcode
  · rw [if_neg hcode]
    omega

section Responses

variable {e : Engine} {toVec : Value ℚ → Option String} {accepts : String → String → Bool}
  {method : ResponseMethod} {arguments : List StaticValue} {r : StaticResponse}

/-- An argument of a call, `undefined` where it is missing. -/
def argument (arguments : List StaticValue) (i : ℕ) : StaticValue :=
  (arguments[i]?).getD .undefined

theorem asStr_toValue_eq_some {v : StaticValue} {s : String} (h : v.toValue.asStr = some s) :
    v = .string s := by
  have hstring : stringHeader ("", v) = some ("", s) := by
    rw [stringHeader, h]
    rfl
  exact congrArg Prod.snd ((stringHeader_eq_some_iff ("", v) ("", s)).mp hstring)

/-- What is known of a call that the fast path has a response for. -/
theorem analyzeResponseCall_eq_some (h : analyzeResponseCall toVec method arguments = some r) :
    r.contentType = method.contentType ∧
      r.status = (extractResponseOptions (argument arguments 1).toValue).status ∧
      r.extraHeaders = (extractResponseOptions (argument arguments 1).toValue).headers ∧
      (method = .json ∨ ∃ s, argument arguments 0 = .string s) := by
  unfold analyzeResponseCall at h
  cases hbody : arguments[0]? with
  | none =>
    rw [hbody] at h
    cases h
  | some data =>
    rw [hbody] at h
    obtain ⟨body, hserialize, rfl⟩ := Option.map_eq_some_iff.mp h
    have hdata : argument arguments 0 = data := by rw [argument, hbody]; rfl
    have hstring : method = .json ∨ ∃ s, argument arguments 0 = .string s := by
      cases method with
      | json => exact .inl rfl
      | text => exact .inr ⟨body, hdata.trans (asStr_toValue_eq_some hserialize)⟩
      | html => exact .inr ⟨body, hdata.trans (asStr_toValue_eq_some hserialize)⟩
    -- a second argument that is missing reads like `undefined`
    unfold argument at hstring ⊢
    cases arguments[1]? with
    | none => exact ⟨rfl, rfl, rfl, hstring⟩
    | some opts => exact ⟨rfl, rfl, rfl, hstring⟩

theorem toAxumResponse_eq (h : analyzeResponseCall toVec method arguments = some r) :
    r.toAxumResponse accepts =
      (((fastHeaders method.contentType (argument arguments 1)).map pairOfFast).mapM
        (acceptPair accepts)).map fun headers =>
          ⟨(extractResponseOptions (argument arguments 1).toValue).status, headers, r.body⟩ := by
  obtain ⟨htype, hstatus, hheaders, _⟩ := analyzeResponseCall_eq_some h
  unfold StaticResponse.toAxumResponse buildResponse
  rw [hstatus, htype, hheaders, headers_extractResponseOptions,
    if_pos (status_extractResponseOptions_valid _), mapM_header]
  rfl

/-- What the handler makes of a response object. -/
theorem constructResponse_eq (r : ResponseObject) :
    ∃ body, (r.nativeFinishRequest e).bind (constructResponse accepts) =
      ((r.headers.map (pairOf e)).mapM (acceptPair accepts)).map fun headers =>
        ⟨statusCode ((r.status.numberValue e).map JsNumber.asU64), headers, body⟩ := by
  have hpairs : (r.headers.mapM (headerText e)).bind (List.mapM (header accepts)) =
      (r.headers.map (pairOf e)).mapM (acceptPair accepts) := mapM_headerText e r.headers
  rw [← hpairs]
  unfold ResponseObject.nativeFinishRequest
  cases r.headers.mapM (headerText e) with
  | none => exact ⟨"", rfl⟩
  | some headers =>
    refine ⟨(bodyText e r.body).getD "", ?_⟩
    simp only [Option.map_some, Option.bind_some, constructResponse, buildResponse,
      if_pos (statusCode_valid _)]

theorem dynamicResponse_eq (h : analyzeResponseCall toVec method arguments = some r) :
    ∃ body, dynamicResponse e accepts method arguments =
      (((runHeaders method.contentType (argument arguments 1) (argument arguments 2)).map
        (pairOf e)).mapM (acceptPair accepts)).map fun headers =>
          ⟨statusCode (((parseResponseOpts (argument arguments 1)
            (argument arguments 2)).status.numberValue e).map JsNumber.asU64), headers, body⟩ := by
  have hdata : ∃ body, responseBody e method (argument arguments 0) = some body := by
    cases (analyzeResponseCall_eq_some h).2.2.2 with
    | inl hjson =>
      subst hjson
      exact ⟨_, rfl⟩
    | inr hstring =>
      obtain ⟨s, hs⟩ := hstring
      rw [hs]
      cases method with
      | json => exact ⟨_, rfl⟩
      | text => exact ⟨_, rfl⟩
      | html => exact ⟨_, rfl⟩
  obtain ⟨body, hbody⟩ := hdata
  have hresponse : titanResponse e method (argument arguments 0) (argument arguments 1)
      (argument arguments 2) = some
        { status := (parseResponseOpts (argument arguments 1) (argument arguments 2)).status
          headers := runHeaders method.contentType (argument arguments 1) (argument arguments 2)
          body := body } := by
    unfold titanResponse
    rw [hbody]
    rfl
  have hdynamic : dynamicResponse e accepts method arguments =
      (titanResponse e method (argument arguments 0) (argument arguments 1)
        (argument arguments 2)).bind fun r =>
          (r.nativeFinishRequest e).bind (constructResponse accepts) := rfl
  rw [hdynamic, hresponse, Option.bind_some]
  exact constructResponse_eq _

/-! ### The agreement -/

/-- The headers a response always has are accepted. -/
structure AcceptsOwn (accepts : String → String → Bool) : Prop where
  contentType : ∀ method : ResponseMethod, accepts "content-type" method.contentType
  server : accepts "server" "TitanPL"

/-- A string the fast path keeps is no header. -/
def FastRejects (accepts : String → String → Bool) (second : StaticValue) : Prop :=
  ∃ k s, (k, .string s) ∈ optionHeaders second ∧ isReserved k = false ∧
    accepts (lowercase k) s = false

/-- A value that is passed has no text, or its text is no header. -/
def RunRejects (e : Engine) (accepts : String → String → Bool) (second third : StaticValue) :
    Prop :=
  ∃ k v, passedHeader second third k = some v ∧
    ∀ s, v.text e = some s → accepts (lowercase k) s = false

theorem mapM_acceptPair_eq_none_iff (ps : List (String × Option String)) :
    ps.mapM (acceptPair accepts) = none ↔ ∃ p ∈ ps, Rejected accepts p := by
  rw [← Option.not_isSome_iff_eq_none, mapM_acceptPair_isSome_iff, not_forall]
  apply exists_congr
  intro p
  rw [Classical.not_imp, not_not]

theorem fast_none_iff (haccepts : AcceptsOwn accepts) (second : StaticValue) :
    ((fastHeaders method.contentType second).map pairOfFast).mapM (acceptPair accepts) = none ↔
      FastRejects accepts second := by
  rw [mapM_acceptPair_eq_none_iff]
  constructor
  · intro hnone
    obtain ⟨p, hp, hrejected⟩ := hnone
    obtain ⟨header, hheader, rfl⟩ := List.mem_map.mp hp
    have hbad : accepts (lowercase header.1) header.2 = false := hrejected header.2 rfl
    rw [fastHeaders, List.mem_cons, List.mem_cons] at hheader
    rcases hheader with rfl | rfl | hkept
    · have hname : lowercase "content-type" = "content-type" := by decide
      rw [hname, haccepts.contentType method] at hbad
      cases hbad
    · have hname : lowercase "server" = "server" := by decide
      rw [hname, haccepts.server] at hbad
      cases hbad
    · obtain ⟨hmem, hother⟩ := List.mem_filter.mp hkept
      obtain ⟨m, hm, hstring⟩ := List.mem_filterMap.mp hmem
      rw [(stringHeader_eq_some_iff m header).mp hstring] at hm
      exact ⟨header.1, header.2, hm, by simpa using hother, hbad⟩
  · intro hrejects
    obtain ⟨k, s, hmem, hother, hbad⟩ := hrejects
    have hkept : (k, s) ∈ fastHeaders method.contentType second := by
      apply List.mem_cons_of_mem
      apply List.mem_cons_of_mem
      exact List.mem_filter.mpr ⟨List.mem_filterMap.mpr
        ⟨(k, .string s), hmem, (stringHeader_eq_some_iff _ (k, s)).mpr rfl⟩, by simpa using hother⟩
    refine ⟨_, List.mem_map_of_mem hkept, ?_⟩
    intro t ht
    cases ht
    exact hbad

theorem run_none_iff (haccepts : AcceptsOwn accepts) (second third : StaticValue) :
    ((runHeaders method.contentType second third).map (pairOf e)).mapM (acceptPair accepts) = none ↔
      RunRejects e accepts second third := by
  rw [mapM_acceptPair_eq_none_iff]
  constructor
  · intro hnone
    obtain ⟨p, hp, hrejected⟩ := hnone
    obtain ⟨m, hm, rfl⟩ := List.mem_map.mp hp
    cases (mem_runHeaders_iff m).mp hm with
    | inl hpassed => exact ⟨m.1, m.2, hpassed, hrejected⟩
    | inr hmissing =>
      have hown : accepts (lowercase m.1) method.contentType = false :=
        hrejected method.contentType (by rw [hmissing.2]; rfl)
      rw [hmissing.2, lowercase_contentType, haccepts.contentType method] at hown
      cases hown
  · intro hrejects
    obtain ⟨k, v, hpassed, hbad⟩ := hrejects
    exact ⟨_, List.mem_map_of_mem ((mem_runHeaders_iff (k, v)).mpr (.inl hpassed)), hbad⟩

/-- Two responses with headers that may be rejected. -/
theorem sameEnvelope_map_iff (headers headers' : Option (List (String × String)))
    (status status' : ℕ) (body body' : String) :
    SameEnvelope (headers.map (⟨status, ·, body⟩)) (headers'.map (⟨status', ·, body'⟩)) ↔
      (headers = none ∧ headers' = none) ∨
        ∃ hs hs', headers = some hs ∧ headers' = some hs' ∧ status = status' ∧ hs.Perm hs' := by
  cases headers with
  | none =>
    cases headers' with
    | none => simp [SameEnvelope]
    | some hs' => simp [SameEnvelope]
  | some hs =>
    cases headers' with
    | none => simp [SameEnvelope]
    | some hs' => simp [SameEnvelope]

/-- Headers that are the same up to order are accepted together. -/
theorem mapM_acceptPair_isSome_of_perm {ps ps' : List (String × Option String)} (h : ps.Perm ps') :
    (ps.mapM (acceptPair accepts)).isSome ↔ (ps'.mapM (acceptPair accepts)).isSome := by
  rw [mapM_acceptPair_isSome_iff, mapM_acceptPair_isSome_iff]
  apply forall_congr'
  intro p
  rw [h.mem_iff]

end Responses

/-- A header as a token and visible text. -/
def acceptsToken (name value : String) : Bool :=
  name.toList.all (fun c => c.isAlphanum || c = '-') && !name.toList.isEmpty &&
    value.toList.all fun c => 32 ≤ c.toNat && c.toNat < 127

/-- The conversions of empty objects. -/
def emptyEngine : Engine where
  toNumber _ := some .nan
  toText _ := some "[object Object]"
  stringify _ := some "\x7b\x7d"

theorem acceptsOwn_acceptsToken : AcceptsOwn acceptsToken where
  contentType method := by
    cases method with
    | json => decide
    | text => decide
    | html => decide
  server := by decide

/-- `t.response.json({}, { status: 201, headers: { Server: "TitanPL" } })` -/
def createdCall : List StaticValue :=
  [.object [], .object [("status", .number 201),
    ("headers", .object [("Server", .string "TitanPL")])]]

end FrameworkBenchmarks.TitanPl
