import FrameworkBenchmarks.TitanPl.RouteFile

/-!
# When the tables can be read

An entry is read if its key, that is its route, and its value are; an overwritten one is not written.
The keys of different registrations differ, and the path of a request alone is no key.
-/

namespace FrameworkBenchmarks.TitanPl

variable {N : Type} {readNumber : N → Option N} {config : JsValue N}
  {fastPaths : String → Bool}

/-! ### Loadable registrations -/

/-- A registration that `serde_json` reads from the file. -/
def Registration.Readable (readNumber : N → Option N) (r : Registration N) : Prop :=
  (decode r.route).isSome ∧
    match r.handling with
    | .reply value => (value.read readNumber 125).isSome
    | .action name => (decode name).isSome

/-- Both registrations assign the same entry of the table. -/
def Registration.Overwrites (r' r : Registration N) : Prop :=
  r'.method = r.method ∧ r'.route = r.route ∧ r'.dynamicEntry = none ∧ r.dynamicEntry = none

/-- The configuration and every registration that is not overwritten can be read. -/
def Loadable (readNumber : N → Option N) (config : JsValue N) (regs : List (Registration N)) : Prop :=
  (config.read readNumber 127).isSome ∧ ∀ before r after, regs = before ++ r :: after →
    (∀ r' ∈ after, ¬r'.Overwrites r) → r.Readable readNumber

/-! ### The tables of a loadable file -/

section Read

variable {α β : Type} {f : α → Option β}

theorem mapM_isSome_iff (l : List α) : (l.mapM f).isSome ↔ ∀ x ∈ l, (f x).isSome := by
  induction l with
  | nil => simp
  | cons x l ih =>
    rw [List.mapM_cons, List.forall_mem_cons, ← ih]
    cases hx : f x <;> cases hl : l.mapM f <;> simp

theorem mapM_cons_eq_some {x : α} {l : List α} {read : List β}
    (h : (x :: l).mapM f = some read) :
    ∃ y ys, f x = some y ∧ l.mapM f = some ys ∧ read = y :: ys := by
  rw [List.mapM_cons] at h
  cases hx : f x with
  | none => simp [hx] at h
  | some y =>
    cases hl : l.mapM f with
    | none => simp [hx, hl] at h
    | some ys =>
      rw [hx, hl] at h
      exact ⟨y, ys, rfl, rfl, (Option.some.inj h).symm⟩

theorem findSome?_filterMap {γ : Type} (g : β → Option γ) (l : List α) :
    (l.filterMap f).findSome? g = l.findSome? fun x => (f x).bind g := by
  induction l with
  | nil => rfl
  | cons x l ih =>
    cases hx : f x with
    | none => simp [hx, ih]
    | some y => simp [hx, List.findSome?_cons, ih]

end Read

theorem readEntry_eq_some {m : JsString × RouteEntry N} {route : String × RouteVal N}
    (h : readEntry readNumber m = some route) :
    m.1 = jsString route.1 ∧ route.2.type = m.2.type ∧
      m.2.value.read readNumber 125 = some route.2.value := by
  unfold readEntry at h
  cases hk : decode m.1 with
  | none => simp [hk] at h
  | some key =>
    cases hv : m.2.value.read readNumber 125 with
    | none => simp [hk, hv] at h
    | some value =>
      obtain rfl : (key, ⟨m.2.type, value⟩) = route := by simpa [hk, hv] using h
      exact ⟨(decode_eq_some_iff _ _).mp hk, rfl, rfl⟩

/-- Looking up in the table that was read. -/
theorem lookup_of_mapM_readEntry {routes : List (JsString × RouteEntry N)}
    {read : List (String × RouteVal N)} (h : routes.mapM (readEntry readNumber) = some read)
    (key : String) :
    read.lookup key = (routes.lookup (jsString key)).bind fun entry =>
      (entry.value.read readNumber 125).map fun value => ⟨entry.type, value⟩ := by
  induction routes generalizing read with
  | nil =>
    obtain rfl : [] = read := Option.some.inj h
    rfl
  | cons m routes ih =>
    obtain ⟨route, rest, hm, hroutes, rfl⟩ := mapM_cons_eq_some h
    obtain ⟨hkey, htype, hvalue⟩ := readEntry_eq_some hm
    obtain ⟨k, entry⟩ := m
    obtain ⟨name, val⟩ := route
    rw [List.lookup_cons, List.lookup_cons, ih hroutes]
    by_cases hsame : key = name
    · have hjs : jsString key = k := hsame ▸ hkey.symm
      obtain ⟨type, value⟩ := val
      obtain rfl : type = entry.type := htype
      rw [hjs, hsame]
      simp only [beq_self_eq_true, Option.bind_some, hvalue, Option.map_some]
    · have hjs : jsString key ≠ k := fun h => hsame (jsString_injective (h.trans hkey))
      simp only [beq_eq_false_iff_ne.mpr hsame, beq_eq_false_iff_ne.mpr hjs]

/-- The keys that were read are different. -/
theorem nodup_of_mapM_readEntry {routes : List (JsString × RouteEntry N)}
    {read : List (String × RouteVal N)} (h : routes.mapM (readEntry readNumber) = some read)
    (hnodup : (routes.map Prod.fst).Nodup) : (read.map Prod.fst).Nodup := by
  have hkeys : (read.map Prod.fst).map jsString = routes.map Prod.fst := by
    clear hnodup
    induction routes generalizing read with
    | nil =>
      obtain rfl : [] = read := Option.some.inj h
      rfl
    | cons m routes ih =>
      obtain ⟨route, rest, hm, hroutes, rfl⟩ := mapM_cons_eq_some h
      simp only [List.map_cons, ih hroutes, (readEntry_eq_some hm).1]
  rw [← hkeys] at hnodup
  exact hnodup.of_map jsString

/-- Looking up among the precomputed routes. -/
theorem lookup_precomputed (fastPaths : String → Bool) {routes : List (String × RouteVal N)}
    (hnodup : (routes.map Prod.fst).Nodup) (key : String) :
    (tables fastPaths routes []).precomputed.lookup key = (routes.lookup key).bind precompute := by
  change (routes.filterMap fun route => (precompute route.2).map (route.1, ·)).lookup key = _
  induction routes with
  | nil => rfl
  | cons route routes ih =>
    rw [List.map_cons, List.nodup_cons] at hnodup
    have ih := ih hnodup.2
    obtain ⟨name, val⟩ := route
    by_cases hsame : key = name
    · subst hsame
      have habsent : routes.lookup key = none := by
        rw [List.lookup_eq_none_iff]
        intro route hmem
        have hne : key ≠ route.1 := fun h => hnodup.1 (List.mem_map.mpr ⟨route, hmem, h.symm⟩)
        simpa using hne
      rw [habsent] at ih
      cases hval : precompute val with
      | none => simpa [List.filterMap_cons, hval] using ih
      | some p => simp [hval]
    · have hne : (key == name) = false := by simpa using hsame
      cases hval : precompute val with
      | none => simpa [List.filterMap_cons, hval, List.lookup_cons, hne] using ih
      | some p => simpa [List.filterMap_cons, hval, List.lookup_cons, hne] using ih

/-! ### Keys -/

theorem Method.text_injective : Function.Injective Method.text := by
  intro m m' h
  cases m <;> cases m' <;> first | rfl | exact absurd h (by decide)

theorem colon_notMem_text (m : Method) : JsChar.scalar ':' ∉ jsString m.text := by
  cases m <;> decide

/-- A token stays one in upper case. -/
theorem Request.token_toUpper (req : Request) : ':' ∉ req.method.toUpper.toList := by
  rw [String.toUpper, String.toList_map, List.mem_map]
  rintro ⟨c, hc, hup⟩
  unfold Char.toUpper at hup
  split at hup
  · next hlower =>
    have hval := congrArg (fun ch => ch.val.toNat) hup
    have hlow := UInt32.le_iff_toNat_le.mp hlower.1
    have hhigh := UInt32.le_iff_toNat_le.mp hlower.2
    simp only [UInt32.toNat_add, UInt32.toNat_sub] at hval
    simp at hlow hhigh hval
    omega
  · exact req.token (hup ▸ hc)

/-- The first colon of a key separates its parts. -/
theorem append_colon_inj {a b x y : JsString} (ha : JsChar.scalar ':' ∉ a)
    (hb : JsChar.scalar ':' ∉ b) :
    a ++ JsChar.scalar ':' :: x = b ++ JsChar.scalar ':' :: y ↔ a = b ∧ x = y := by
  induction a generalizing b with
  | nil =>
    cases b with
    | nil => simp
    | cons unit b =>
      have hne : JsChar.scalar ':' ≠ unit := fun h => hb (h ▸ List.mem_cons_self ..)
      simp [hne]
  | cons unit a ih =>
    cases b with
    | nil =>
      have hne : unit ≠ JsChar.scalar ':' := fun h => ha (h ▸ List.mem_cons_self ..)
      simp [hne]
    | cons unit' b =>
      have htail := ih (fun h => ha (List.mem_cons_of_mem _ h))
        fun h => hb (List.mem_cons_of_mem _ h)
      simp only [List.cons_append, List.cons.injEq, htail, and_assoc]

theorem routeKey_eq (m : Method) (route : JsString) :
    routeKey m route = jsString m.text ++ JsChar.scalar ':' :: route := by
  simp [routeKey, jsString]

/-- A key determines its method and its route. -/
theorem routeKey_inj (m m' : Method) (route route' : JsString) :
    routeKey m route = routeKey m' route' ↔ m = m' ∧ route = route' := by
  rw [routeKey_eq, routeKey_eq, append_colon_inj (colon_notMem_text m) (colon_notMem_text m')]
  constructor
  · rintro ⟨hmethod, hroute⟩
    exact ⟨Method.text_injective (jsString_injective hmethod), hroute⟩
  · rintro ⟨rfl, rfl⟩
    exact ⟨rfl, rfl⟩

/-- The key of a request is the key of its method and its literal route. -/
theorem routeKey_eq_strictKey_iff (m : Method) (route : JsString) (req : Request) :
    routeKey m route = jsString (req.method.toUpper ++ ":" ++ req.path.text) ↔
      m.text = req.method.toUpper ∧ route = jsString req.path.text := by
  have htoken : JsChar.scalar ':' ∉ jsString req.method.toUpper := by
    rw [jsString, List.mem_map]
    rintro ⟨c, hc, hcolon⟩
    exact req.token_toUpper (JsChar.scalar.inj hcolon ▸ hc)
  have hkey : jsString (req.method.toUpper ++ ":" ++ req.path.text) =
      jsString req.method.toUpper ++ JsChar.scalar ':' :: jsString req.path.text := by
    simp [jsString]
  rw [hkey, routeKey_eq, append_colon_inj (colon_notMem_text m) htoken]
  exact and_congr_left fun _ => ⟨fun h => jsString_injective h, fun h => h ▸ rfl⟩

/-- The path of a request is no key. -/
theorem routeKey_ne_path (m : Method) (route : JsString) (path : RequestPath) :
    routeKey m route ≠ jsString path.text := by
  intro h
  have hhead : (routeKey m route).head? = some (.scalar (if m = .get then 'G' else 'P')) := by
    cases m <;> rfl
  rw [h, jsString, List.head?_map] at hhead
  obtain hroot | htext | htext := path.rooted
  · rw [hroot] at hhead
    cases m <;> exact absurd hhead (by decide)
  · rw [htext] at hhead
    cases m <;> exact absurd hhead (by decide)
  · rw [htext] at hhead
    cases m <;> exact absurd hhead (by decide)

/-! ### Readable registrations -/

/-- What a registration assigns, with its key. -/
theorem Registration.entry_eq_some {r : Registration N} {m : JsString × RouteEntry N}
    (h : r.entry = some m) : m.1 = routeKey r.method r.route ∧ r.dynamicEntry = none := by
  obtain ⟨method, route, handling⟩ := r
  cases handling with
  | reply value =>
    obtain rfl := Option.some.inj h
    exact ⟨rfl, rfl⟩
  | action name =>
    by_cases hpattern : isPattern route
    · simp [entry, hpattern] at h
    · obtain rfl : (routeKey method route, ⟨"action", .string name⟩) = m := by
        simpa [entry, hpattern] using h
      exact ⟨rfl, if_neg hpattern⟩

/-- An entry is read exactly if its registration can be. -/
theorem readEntry_isSome_iff {r : Registration N} {m : JsString × RouteEntry N}
    (h : r.entry = some m) : (readEntry readNumber m).isSome ↔ r.Readable readNumber := by
  have hvalue : (readEntry readNumber m).isSome ↔
      (decode m.1).isSome ∧ (m.2.value.read readNumber 125).isSome := by
    unfold readEntry
    cases decode m.1 <;> cases m.2.value.read readNumber 125 <;> simp
  have hkey : (decode m.1).isSome ↔ (decode r.route).isSome := by
    rw [(Registration.entry_eq_some h).1, routeKey, ← jsString_append, decode_append_isSome]
    simp
  rw [hvalue, hkey, Registration.Readable]
  apply and_congr_right
  intro _
  obtain ⟨method, route, handling⟩ := r
  cases handling with
  | reply value =>
    obtain rfl := Option.some.inj h
    rfl
  | action name =>
    by_cases hpattern : isPattern route
    · simp [Registration.entry, hpattern] at h
    · obtain rfl : (routeKey method route, ⟨"action", .string name⟩) = m := by
        simpa [Registration.entry, hpattern] using h
      simp [JsValue.read]

/-- A dynamic route is read exactly if its registration can be. -/
theorem readDynamic_isSome_iff {r : Registration N} {entry : DynamicEntry}
    (h : r.dynamicEntry = some entry) : (readDynamic entry).isSome ↔ r.Readable readNumber := by
  obtain ⟨method, route, handling⟩ := r
  cases handling with
  | reply value => cases h
  | action name =>
    by_cases hpattern : isPattern route
    · obtain rfl : (⟨method, route, name⟩ : DynamicEntry) = entry := by
        simpa [Registration.dynamicEntry, hpattern] using h
      unfold readDynamic Registration.Readable
      cases hroute : decode route <;> cases hname : decode name <;> simp [hname]
    · simp [Registration.dynamicEntry, hpattern] at h

/-- A file can be read exactly if each of its parts can. -/
theorem loadable_iff (regs : List (Registration N)) :
    Loadable readNumber config regs ↔ (config.read readNumber 127).isSome ∧
      ((build regs).routes.mapM (readEntry readNumber)).isSome ∧
      ((build regs).flatDynamic.mapM readDynamic).isSome := by
  rw [Loadable, mapM_isSome_iff, mapM_isSome_iff]
  apply and_congr_right
  intro _
  constructor
  · intro hreadable
    constructor
    · intro m hm
      obtain ⟨before, r, after, hsplit, hentry, hafter⟩ := (mem_routes regs m).mp hm
      refine (readEntry_isSome_iff hentry).mpr (hreadable before r after hsplit ?_)
      rintro r' hr' ⟨hmethod, hroute, hassigns, -⟩
      obtain ⟨m', hentry', -⟩ | ⟨entry, -, hdynamic, -⟩ := addRoute_cases {} r'
      · apply hafter r' hr' m' hentry'
        rw [(Registration.entry_eq_some hentry').1, (Registration.entry_eq_some hentry).1, hmethod,
          hroute]
      · rw [hassigns] at hdynamic
        cases hdynamic
    · intro entry hentry
      obtain ⟨r, hr, hdynamic⟩ := (mem_flatDynamic regs entry).mp hentry
      obtain ⟨before, after, hsplit⟩ := List.append_of_mem hr
      refine (readDynamic_isSome_iff hdynamic).mpr (hreadable before r after hsplit ?_)
      rintro r' - ⟨-, -, -, hassigns⟩
      rw [hdynamic] at hassigns
      cases hassigns
  · rintro ⟨hroutes, hdynamics⟩ before r after hsplit hkept
    obtain ⟨m, hentry, -⟩ | ⟨entry, -, hdynamic, -⟩ := addRoute_cases {} r
    · refine (readEntry_isSome_iff hentry).mp (hroutes m ((mem_routes regs m).mpr
        ⟨before, r, after, hsplit, hentry, ?_⟩))
      intro r' hr' m' hentry' hsame
      obtain ⟨hkey, hassigns⟩ := Registration.entry_eq_some hentry
      obtain ⟨hkey', hassigns'⟩ := Registration.entry_eq_some hentry'
      rw [hkey, hkey', routeKey_inj] at hsame
      exact hkept r' hr' ⟨hsame.1, hsame.2, hassigns', hassigns⟩
    · refine (readDynamic_isSome_iff hdynamic).mp (hdynamics entry ((mem_flatDynamic regs entry).mpr
        ⟨r, ?_, hdynamic⟩))
      rw [hsplit]
      exact List.mem_append_right _ (List.mem_cons_self ..)

end FrameworkBenchmarks.TitanPl
