import FrameworkBenchmarks.TitanPl.RouteReading

/-!
# Resolution among the registrations

When the tables can be read, the searches of the handler are searches among the registrations: the
last literal one in the table, the first matching pattern in the dynamic routes.
-/

namespace FrameworkBenchmarks.TitanPl

variable {N : Type} {readNumber : N → Option N} {fastPaths : String → Bool} {config : JsValue N}

/-- The registration has the method and the literal route of a request. -/
def Registration.isLiteral (req : Request) (r : Registration N) : Bool :=
  r.method.text == req.method.toUpper && r.route == jsString req.path.text &&
    match r.handling with
    | .reply _ => true
    | .action _ => !isPattern r.route

/-- The registration is an action whose pattern matches a request: its name and the parameters. -/
def Registration.dynamicMatch (req : Request) (r : Registration N) :
    Option (JsString × List (String × String)) :=
  match r.handling with
  | .reply _ => none
  | .action name =>
    if isPattern r.route ∧ r.method.text = req.method.toUpper then
      ((decode r.route).bind (matchPattern · req.path.text)).map (name, ·)
    else none

/-! ### Resolution -/

/-- The answer of the registration with the literal route, unless the handler passes over it. -/
def literalOutcome (readNumber : N → Option N) (fastPaths : String → Bool) (r : Registration N) :
    Option (Outcome N) :=
  match r.handling with
  | .reply value =>
    if replyType value = "json" then (value.read readNumber 125).map .json
    else
      match value with
      | .string s => (decode s).map .text
      | _ => none
  | .action name =>
    (decode name).map fun n => if fastPaths n then .staticAction n else .execute n []

/-- The answer of the first pattern that matches. -/
def dynamicOutcome (regs : List (Registration N)) (req : Request) : Outcome N :=
  match regs.findSome? fun r => (r.dynamicMatch req).bind fun p => (decode p.1).map (·, p.2) with
  | some (name, params) => .execute name params
  | none => .notFound

/-- The answer to a request by a server whose tables have been read. -/
def resolve (readNumber : N → Option N) (fastPaths : String → Bool) (regs : List (Registration N))
    (req : Request) : Outcome N :=
  ((regs.reverse.find? (Registration.isLiteral req)).bind
    (literalOutcome readNumber fastPaths)).getD (dynamicOutcome regs req)

/-- A registration is literal for a request exactly if it assigns the entry of the request's key. -/
theorem isLiteral_iff (r : Registration N) (req : Request) : r.isLiteral req = true ↔
    ∃ m, r.entry = some m ∧ m.1 = jsString (req.method.toUpper ++ ":" ++ req.path.text) := by
  have hkey := routeKey_eq_strictKey_iff r.method r.route req
  obtain ⟨method, route, handling⟩ := r
  cases handling with
  | reply value =>
    simp only [Registration.isLiteral, Registration.entry, Bool.and_true, Bool.and_eq_true,
      beq_iff_eq, ← hkey, Option.some.injEq, exists_eq_left']
  | action name =>
    by_cases hpattern : isPattern route
    · simp [Registration.isLiteral, Registration.entry, hpattern]
    · simp only [Registration.isLiteral, Registration.entry, hpattern, Bool.not_false, Bool.and_true,
        Bool.and_eq_true, beq_iff_eq, ← hkey, Bool.false_eq_true, if_false, Option.some.injEq,
        exists_eq_left']

/-- The entry of a request's key is the one of the last literal registration. -/
theorem lookup_strictKey (regs : List (Registration N)) (req : Request) :
    (build regs).routes.lookup (jsString (req.method.toUpper ++ ":" ++ req.path.text)) =
      (regs.reverse.find? (Registration.isLiteral req)).bind fun r => r.entry.map Prod.snd := by
  rw [lookup_routes]
  generalize regs.reverse = l
  induction l with
  | nil => rfl
  | cons r l ih =>
    rw [List.findSome?_cons, List.find?_cons, ih]
    by_cases hliteral : r.isLiteral req = true
    · obtain ⟨m, hentry, hkey⟩ := (isLiteral_iff r req).mp hliteral
      simp [hliteral, hentry, hkey]
    · have hnone : (r.entry.bind fun entry =>
          if jsString (req.method.toUpper ++ ":" ++ req.path.text) = entry.1 then some entry.2
          else none) = none := by
        cases hentry : r.entry with
        | none => rfl
        | some m =>
          have hne : jsString (req.method.toUpper ++ ":" ++ req.path.text) ≠ m.1 := fun h =>
            hliteral ((isLiteral_iff r req).mpr ⟨m, hentry, h.symm⟩)
          simp [hne]
      rw [hnone]
      simp [hliteral]

/-- No entry is found under a path alone. -/
theorem lookup_path (regs : List (Registration N)) (path : RequestPath) :
    (build regs).routes.lookup (jsString path.text) = none := by
  rw [lookup_routes, List.findSome?_eq_none_iff]
  intro r _
  cases hentry : r.entry with
  | none => rfl
  | some m =>
    have hne : jsString path.text ≠ m.1 := by
      rw [(Registration.entry_eq_some hentry).1]
      exact (routeKey_ne_path r.method r.route path).symm
    simp [hne]

/-- The test of one dynamic route in the order of the handler. -/
def dynamicTest (req : Request) (entry : DynamicEntry) : Option (String × List (String × String)) :=
  if entry.method.text ≠ req.method.toUpper then none
  else (readDynamic entry).bind fun route =>
    (matchPattern route.pattern req.path.text).map (route.action, ·)

/-- The test of the dynamic route of a registration. -/
theorem dynamicTest_dynamicEntry (r : Registration N) (req : Request) :
    r.dynamicEntry.bind (dynamicTest req) =
      (r.dynamicMatch req).bind fun p => (decode p.1).map (·, p.2) := by
  obtain ⟨method, route, handling⟩ := r
  cases handling with
  | reply value => rfl
  | action name =>
    by_cases hpattern : isPattern route
    · by_cases hmethod : method.text = req.method.toUpper
      · simp only [Registration.dynamicEntry, Registration.dynamicMatch, hpattern, hmethod, if_true,
          and_self, Option.bind_some, dynamicTest, ne_eq, not_true_eq_false, if_false, readDynamic]
        cases hroute : decode route with
        | none => rfl
        | some pattern =>
          cases hname : decode name <;> cases hmatch : matchPattern pattern req.path.text <;>
            simp [hname, hmatch]
      · simp [Registration.dynamicEntry, Registration.dynamicMatch, hpattern, hmethod, dynamicTest]
    · simp [Registration.dynamicEntry, Registration.dynamicMatch, hpattern]

/-- Only the routes with the method of the request matter to the test. -/
theorem findSome?_dynamicTest_congr {entries entries' : List DynamicEntry} (req : Request)
    (h : ∀ method, entries.filter (·.method = method) = entries'.filter (·.method = method)) :
    entries.findSome? (dynamicTest req) = entries'.findSome? (dynamicTest req) := by
  by_cases hmethod : ∃ m : Method, m.text = req.method.toUpper
  · obtain ⟨m, hm⟩ := hmethod
    have hfilter : ∀ l : List DynamicEntry,
        l.findSome? (dynamicTest req) = (l.filter (·.method = m)).findSome? (dynamicTest req) := by
      intro l
      induction l with
      | nil => rfl
      | cons entry l ih =>
        by_cases hsame : entry.method = m
        · have hkeep : (entry :: l).filter (·.method = m) = entry :: l.filter (·.method = m) := by
            simp [hsame]
          rw [hkeep, List.findSome?_cons, List.findSome?_cons, ih]
        · have hne : entry.method.text ≠ req.method.toUpper := fun h =>
            hsame (Method.text_injective (h.trans hm.symm))
          simp [hsame, ih, dynamicTest, hne]
    rw [hfilter entries, hfilter entries', h m]
  · have hnone : ∀ l : List DynamicEntry, l.findSome? (dynamicTest req) = none := by
      intro l
      rw [List.findSome?_eq_none_iff]
      intro entry _
      exact if_pos fun h => hmethod ⟨entry.method, h⟩
    rw [hnone, hnone]

/-- Matching among the read dynamic routes is matching among the registrations. -/
theorem matchDynamicRoute_of_mapM (regs : List (Registration N)) (req : Request)
    {read : List DynamicRoute} (hread : (build regs).flatDynamic.mapM readDynamic = some read) :
    matchDynamicRoute req.method.toUpper req.path.text read =
      regs.findSome? fun r => (r.dynamicMatch req).bind fun p => (decode p.1).map (·, p.2) := by
  have hentries : matchDynamicRoute req.method.toUpper req.path.text read =
      (build regs).flatDynamic.findSome? (dynamicTest req) := by
    unfold matchDynamicRoute
    generalize (build regs).flatDynamic = entries at hread
    induction entries generalizing read with
    | nil =>
      obtain rfl : [] = read := Option.some.inj hread
      rfl
    | cons entry entries ih =>
      obtain ⟨route, rest, hentry, hrest, rfl⟩ := mapM_cons_eq_some hread
      have hmethod : route.method = entry.method.text := by
        unfold readDynamic at hentry
        cases hp : decode entry.pattern <;> cases ha : decode entry.action <;>
          simp only [hp, ha] at hentry <;> cases hentry
        rfl
      rw [List.findSome?_cons, List.findSome?_cons, ih hrest, dynamicTest, hentry, hmethod]
      rfl
  rw [hentries, findSome?_dynamicTest_congr req (filter_flatDynamic regs), findSome?_filterMap]
  simp only [dynamicTest_dynamicEntry]

/-- The handler takes the first answer among the fast path, the exact route and the patterns. -/
theorem handler_eq (state : AppState N) (req : Request) {route : Option (RouteVal N)}
    (hroute : ((state.routes.lookup (req.method.toUpper ++ ":" ++ req.path.text)).or
      (state.routes.lookup req.path.text)) = route) :
    handler state req =
      ((route.bind (fastPath state (req.method.toUpper ++ ":" ++ req.path.text))).or
        (route.bind exactRoute)).getD
        (match matchDynamicRoute req.method.toUpper req.path.text state.dynamicRoutes with
        | some (action, params) => .execute action params
        | none => .notFound) := by
  unfold handler
  simp only [hroute]
  cases route.bind (fastPath state (req.method.toUpper ++ ":" ++ req.path.text)) with
  | some outcome => rfl
  | none =>
    cases route.bind exactRoute with
    | some outcome => rfl
    | none => rfl

/-- The route that is read for the entry of a registration. -/
def readRoute (readNumber : N → Option N) (r : Registration N) : Option (RouteVal N) :=
  (r.entry.map Prod.snd).bind fun entry =>
    (entry.value.read readNumber 125).map fun value => ⟨entry.type, value⟩

/-- A text reply that is no string is not read as one. -/
theorem asStr_of_read_text {value : JsValue N} {depth : ℕ} {u : Value N}
    (htype : replyType value = "text") (hstring : ∀ s, value ≠ .string s)
    (hread : value.read readNumber depth = some u) : u.asStr = none := by
  cases value with
  | bool b =>
    obtain rfl : .bool b = u := Option.some.inj hread
    rfl
  | number n =>
    obtain ⟨m, -, rfl⟩ := Option.map_eq_some_iff.mp hread
    rfl
  | notFinite =>
    obtain rfl : .null = u := Option.some.inj hread
    rfl
  | string s => exact absurd rfl (hstring s)
  | null | array _ | object _ => exact absurd htype (by simp [replyType])

/-- The two phases of the handler give the answer of a registration, or both pass over it. -/
theorem fastPath_or_exactRoute (state : AppState N) {key : String} {r : Registration N}
    (hassigns : r.dynamicEntry = none) (hprecomputed : state.precomputed.lookup key =
      (readRoute readNumber r).bind precompute) :
    ((readRoute readNumber r).bind (fastPath state key)).or
        ((readRoute readNumber r).bind exactRoute) =
      literalOutcome readNumber state.fastPaths r := by
  obtain ⟨method, route, handling⟩ := r
  cases handling with
  | reply value =>
    have hread : readRoute readNumber ⟨method, route, .reply value⟩ =
        (value.read readNumber 125).map fun u => ⟨replyType value, u⟩ := rfl
    rw [hread] at hprecomputed ⊢
    rw [literalOutcome]
    cases hvalue : value.read readNumber 125 with
    | none =>
      cases value with
      | string s =>
        have hdecode : decode s = none := by simpa [JsValue.read] using hvalue
        simp [replyType, hdecode]
      | _ => simp [replyType, hvalue]
    | some u =>
      rw [hvalue] at hprecomputed
      by_cases htype : replyType value = "json"
      · simp [htype, precompute] at hprecomputed
        simp [htype, hvalue, fastPath, hprecomputed, PrecomputedRoute.outcome]
      · have htext : replyType value = "text" := by
          cases value <;> first | rfl | exact absurd rfl htype
        simp [htext, precompute] at hprecomputed
        cases value with
        | string s =>
          obtain ⟨t, ht, rfl⟩ := Option.map_eq_some_iff.mp hvalue
          simp [replyType, fastPath, hprecomputed, Value.asStr, PrecomputedRoute.outcome, ht]
        | null | array _ | object _ => exact absurd rfl htype
        | _ =>
          have hnone : u.asStr = none := asStr_of_read_text htext (by rintro s ⟨⟩) hvalue
          rw [hnone] at hprecomputed
          simp [replyType, fastPath, exactRoute, hprecomputed, replyOnTheFly, hnone]
  | action name =>
    by_cases hpattern : isPattern route
    · simp [Registration.dynamicEntry, hpattern] at hassigns
    · have hread : readRoute readNumber ⟨method, route, .action name⟩ =
          (decode name).map fun n => ⟨"action", .string n⟩ := by
        cases hname : decode name <;>
          simp [readRoute, Registration.entry, hpattern, JsValue.read, hname]
      rw [hread, literalOutcome]
      cases hname : decode name with
      | none => simp [hname]
      | some n =>
        by_cases hstatic : state.fastPaths n
        · simp [fastPath, Value.asStr, hname, hstatic]
        · simp [fastPath, exactRoute, Value.asStr, hname, hstatic]

/-- With readable tables a request is resolved among the registrations. -/
theorem dispatch_of_loadable (regs : List (Registration N)) (req : Request)
    (hload : Loadable readNumber config regs) :
    dispatch readNumber fastPaths config regs req = resolve readNumber fastPaths regs req := by
  obtain ⟨hconfig, hroutes, hdynamics⟩ := (loadable_iff regs).mp hload
  obtain ⟨config', hconfig⟩ := Option.isSome_iff_exists.mp hconfig
  obtain ⟨routes, hroutes⟩ := Option.isSome_iff_exists.mp hroutes
  obtain ⟨dynamics, hdynamics⟩ := Option.isSome_iff_exists.mp hdynamics
  have hpath : routes.lookup req.path.text = none := by
    rw [lookup_of_mapM_readEntry hroutes, lookup_path, Option.bind_none]
  have hkey := lookup_of_mapM_readEntry hroutes (req.method.toUpper ++ ":" ++ req.path.text)
  rw [lookup_strictKey, Option.bind_assoc] at hkey
  have hprecomputed := lookup_precomputed fastPaths
    (nodup_of_mapM_readEntry hroutes (nodup_routes regs))
    (req.method.toUpper ++ ":" ++ req.path.text)
  have hread : ∀ r : Registration N, ((r.entry.map Prod.snd).bind fun entry =>
      (entry.value.read readNumber 125).map fun value => (⟨entry.type, value⟩ : RouteVal N)) =
      readRoute readNumber r := fun _ => rfl
  simp only [hread] at hkey
  have hdynamic := matchDynamicRoute_of_mapM regs req hdynamics
  have hstate : loadRoutes readNumber fastPaths (start config regs) =
      tables fastPaths routes dynamics := by
    have h := loadRoutes_document readNumber fastPaths config (build regs)
    rw [hconfig, hroutes, hdynamics] at h
    exact h
  have hroute : ((routes.lookup (req.method.toUpper ++ ":" ++ req.path.text)).or
      (routes.lookup req.path.text)) =
      routes.lookup (req.method.toUpper ++ ":" ++ req.path.text) := by
    rw [hpath, Option.or_none]
  rw [dispatch, hstate, handler_eq _ _ hroute, resolve, dynamicOutcome, ← hdynamic, hkey]
  congr 1
  cases hfind : regs.reverse.find? (Registration.isLiteral req) with
  | none => rfl
  | some r =>
    rw [hkey, hfind] at hprecomputed
    obtain ⟨m, hentry, -⟩ := (isLiteral_iff r req).mp (List.find?_some hfind)
    exact fastPath_or_exactRoute (tables fastPaths routes dynamics)
      (Registration.entry_eq_some hentry).2 hprecomputed

/-- Without readable tables every request gets 404. -/
theorem dispatch_of_not_loadable (regs : List (Registration N)) (req : Request)
    (hload : ¬Loadable readNumber config regs) :
    dispatch readNumber fastPaths config regs req = .notFound := by
  have hstate : loadRoutes readNumber fastPaths (start config regs) = tables fastPaths [] [] := by
    have h := loadRoutes_document readNumber fastPaths config (build regs)
    rw [loadable_iff] at hload
    cases hconfig : config.read readNumber 127 with
    | none =>
      rw [hconfig] at h
      exact h
    | some config' =>
      cases hroutes : (build regs).routes.mapM (readEntry readNumber) with
      | none =>
        rw [hconfig, hroutes] at h
        exact h
      | some routes =>
        cases hdynamics : (build regs).flatDynamic.mapM readDynamic with
        | none =>
          rw [hconfig, hroutes, hdynamics] at h
          exact h
        | some dynamics => simp [hconfig, hroutes, hdynamics] at hload
  rw [dispatch, hstate]
  rfl

end FrameworkBenchmarks.TitanPl
