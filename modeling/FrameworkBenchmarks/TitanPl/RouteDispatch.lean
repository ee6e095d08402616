import FrameworkBenchmarks.TitanPl.RouteResolution

/-!
# Dispatch of a request

The specification resolves a request among the registrations themselves: the last one with its method
and literal route, else the first action whose pattern matches. The server agrees with it when its
tables can be read and the registration found is not a reply that the handler passes over.
-/

namespace FrameworkBenchmarks.TitanPl

variable {N : Type} {readNumber : N → Option N} {fastPaths : String → Bool} {config : JsValue N}

/-! ### Specification -/

/-- What a request is dispatched to. -/
inductive Target (N : Type) where
  | reply (value : JsValue N)
  | action (name : JsString)
  | notFound

/-- The last registration with the literal route of a request, else the first pattern. -/
def target (regs : List (Registration N)) (req : Request) : Target N :=
  match regs.reverse.find? (Registration.isLiteral req) with
  | some r =>
    match r.handling with
    | .reply value => .reply value
    | .action name => .action name
  | none =>
    match regs.findSome? (Registration.dynamicMatch req) with
    | some (name, _) => .action name
    | none => .notFound

/-- The answer is the one of the target: a reply's value, the action with its name, or 404. -/
def Outcome.Serves : Outcome N → Target N → Prop
  | .json u, .reply value => value = u.toJs
  | .text s, .reply value => value = .string (jsString s)
  | .staticAction n, .action name => name = jsString n
  | .execute n _, .action name => name = jsString n
  | .notFound, .notFound => True
  | _, _ => False

/-- The registration takes part in the dispatch of a request. -/
def Registration.Concerns (r : Registration N) (req : Request) : Prop :=
  r.isLiteral req = true ∨ (r.dynamicMatch req).isSome

/-- A request is served by its target, and leaving out a registration that does not concern it changes
nothing. -/
def Agrees (readNumber : N → Option N) (fastPaths : String → Bool) (config : JsValue N)
    (regs : List (Registration N)) (req : Request) : Prop :=
  (dispatch readNumber fastPaths config regs req).Serves (target regs req) ∧
    ∀ before r after, regs = before ++ r :: after → ¬r.Concerns req →
      dispatch readNumber fastPaths config regs req =
        dispatch readNumber fastPaths config (before ++ after) req

/-- A reply that the handler gives: a string, or an array, object or null with numbers that are read
back. -/
def Answerable (readNumber : N → Option N) (value : JsValue N) : Prop :=
  if replyType value = "json" then ∀ n ∈ value.numbers, ReadsBack readNumber n
  else ∃ s, value = .string s

/-! ### Agreement -/

/-- A registration that is looked at by nobody can be left out. -/
theorem resolve_append (before after : List (Registration N)) {r : Registration N} {req : Request}
    (h : ¬r.Concerns req) :
    resolve readNumber fastPaths (before ++ r :: after) req =
      resolve readNumber fastPaths (before ++ after) req := by
  have hliteral : r.isLiteral req = false := by
    cases hcase : r.isLiteral req with
    | false => rfl
    | true => exact absurd (.inl hcase) h
  have hdynamic : r.dynamicMatch req = none := by
    cases hcase : r.dynamicMatch req with
    | none => rfl
    | some p => exact absurd (.inr (by rw [hcase]; rfl)) h
  have hfind : (before ++ r :: after).reverse.find? (Registration.isLiteral req) =
      (before ++ after).reverse.find? (Registration.isLiteral req) := by
    simp [List.find?_append, hliteral]
  have hsome : dynamicOutcome (before ++ r :: after) req = dynamicOutcome (before ++ after) req := by
    simp only [dynamicOutcome, List.findSome?_append, List.findSome?_cons, hdynamic,
      Option.bind_none]
  rw [resolve, resolve, hfind, hsome]

/-- Without a registration that concerns it, a request meets none in either search. -/
theorem find_of_unconcerned {regs : List (Registration N)} {req : Request}
    (h : ∀ r ∈ regs, ¬r.Concerns req) :
    regs.reverse.find? (Registration.isLiteral req) = none ∧
      ∀ r ∈ regs, r.dynamicMatch req = none := by
  constructor
  · rw [List.find?_eq_none]
    intro r hr hliteral
    exact h r (List.mem_reverse.mp hr) (.inl hliteral)
  · intro r hr
    by_contra hne
    exact h r hr (.inr (Option.isSome_iff_ne_none.mpr hne))

theorem target_of_unconcerned {regs : List (Registration N)} {req : Request}
    (h : ∀ r ∈ regs, ¬r.Concerns req) : target regs req = .notFound := by
  obtain ⟨hfind, hmatch⟩ := find_of_unconcerned h
  rw [target, hfind, List.findSome?_eq_none_iff.mpr hmatch]

theorem dispatch_of_unconcerned {regs : List (Registration N)} {req : Request}
    (h : ∀ r ∈ regs, ¬r.Concerns req) :
    dispatch readNumber fastPaths config regs req = .notFound := by
  by_cases hload : Loadable readNumber config regs
  · obtain ⟨hfind, hmatch⟩ := find_of_unconcerned h
    have hnone : (regs.findSome? fun r =>
        (r.dynamicMatch req).bind fun p => (decode p.1).map (·, p.2)) = none := by
      rw [List.findSome?_eq_none_iff]
      intro r hr
      rw [hmatch r hr, Option.bind_none]
    rw [dispatch_of_loadable regs req hload, resolve, hfind, dynamicOutcome, hnone]
    rfl
  · exact dispatch_of_not_loadable regs req hload

/-- Only 404 serves a request without a target. -/
theorem Outcome.eq_notFound_of_serves {t : Target N} (h : (Outcome.notFound : Outcome N).Serves t) :
    t = .notFound := by
  cases t with
  | notFound => rfl
  | reply value => exact h.elim
  | action name => exact h.elim

/-- A request that some registration concerns has a target. -/
theorem target_ne_notFound {regs : List (Registration N)} {req : Request} {r : Registration N}
    (hr : r ∈ regs) (h : r.Concerns req) : target regs req ≠ .notFound := by
  unfold target
  cases hfind : regs.reverse.find? (Registration.isLiteral req) with
  | some r' =>
    cases hhandling : r'.handling <;> simp [hhandling]
  | none =>
    rw [List.find?_eq_none] at hfind
    rcases h with hliteral | hdynamic
    · exact absurd hliteral (hfind r (List.mem_reverse.mpr hr))
    · cases hsome : regs.findSome? (Registration.dynamicMatch req) with
      | some p => simp
      | none =>
        rw [List.findSome?_eq_none_iff] at hsome
        rw [hsome r hr] at hdynamic
        exact absurd hdynamic (by decide)

/-- The registrations a readable file needs are readable: the last literal one, and every pattern. -/
theorem Loadable.readable_literal {regs : List (Registration N)} {req : Request}
    (hload : Loadable readNumber config regs) {r : Registration N}
    (hfind : regs.reverse.find? (Registration.isLiteral req) = some r) : r.Readable readNumber := by
  obtain ⟨hliteral, later, earlier, hsplit, hlater⟩ := List.find?_eq_some_iff_append.mp hfind
  have hregs : regs = earlier.reverse ++ r :: later.reverse := by
    rw [← List.reverse_reverse regs, hsplit]
    simp
  refine hload.2 earlier.reverse r later.reverse hregs ?_
  rintro r' hr' ⟨hmethod, hroute, hassigns, -⟩
  have hnot := hlater r' (List.mem_reverse.mp hr')
  obtain ⟨m, hentry, hkey⟩ := (isLiteral_iff r req).mp hliteral
  obtain ⟨m', hentry', -⟩ | ⟨entry, -, hdynamic, -⟩ := addRoute_cases {} r'
  · have hliteral' : r'.isLiteral req = true := by
      refine (isLiteral_iff r' req).mpr ⟨m', hentry', ?_⟩
      rw [(Registration.entry_eq_some hentry').1, hmethod, hroute,
        ← (Registration.entry_eq_some hentry).1, hkey]
    simp [hliteral'] at hnot
  · rw [hassigns] at hdynamic
    cases hdynamic

theorem Loadable.decode_dynamicMatch {regs : List (Registration N)} {req : Request}
    (hload : Loadable readNumber config regs) {r : Registration N} (hr : r ∈ regs)
    {p : JsString × List (String × String)} (hmatch : r.dynamicMatch req = some p) :
    ∃ name, decode p.1 = some name := by
  obtain ⟨before, after, hsplit⟩ := List.append_of_mem hr
  obtain ⟨method, route, handling⟩ := r
  cases handling with
  | reply value => cases hmatch
  | action name =>
    by_cases hpattern : isPattern route ∧ method.text = req.method.toUpper
    · have hreadable := hload.2 before _ after hsplit (by
        rintro r' - ⟨-, -, -, hassigns⟩
        simp [Registration.dynamicEntry, hpattern.1] at hassigns)
      simp only [Registration.dynamicMatch, if_pos hpattern, Option.map_eq_some_iff] at hmatch
      obtain ⟨params, -, rfl⟩ := hmatch
      exact Option.isSome_iff_exists.mp hreadable.2
    · simp only [Registration.dynamicMatch, if_neg hpattern] at hmatch
      cases hmatch

/-- The first pattern that matches gives the answer of the target. -/
theorem dynamicOutcome_eq {regs : List (Registration N)} {req : Request}
    (hload : Loadable readNumber config regs) :
    dynamicOutcome regs req =
      match regs.findSome? (Registration.dynamicMatch req) with
      | some p =>
        match decode p.1 with
        | some name => .execute name p.2
        | none => .notFound
      | none => .notFound := by
  have hsome : ∀ l : List (Registration N), (∀ r ∈ l, r ∈ regs) →
      (l.findSome? fun r => (r.dynamicMatch req).bind fun p => (decode p.1).map (·, p.2)) =
        (l.findSome? (Registration.dynamicMatch req)).bind fun p => (decode p.1).map (·, p.2) := by
    intro l hl
    induction l with
    | nil => rfl
    | cons r l ih =>
      rw [List.findSome?_cons, List.findSome?_cons, ih fun r' hr' => hl r' (List.mem_cons_of_mem _ hr')]
      cases hmatch : r.dynamicMatch req with
      | none => rfl
      | some p =>
        obtain ⟨name, hname⟩ := hload.decode_dynamicMatch (hl r (List.mem_cons_self ..)) hmatch
        simp [hname]
  rw [dynamicOutcome, hsome regs fun _ hr => hr]
  cases regs.findSome? (Registration.dynamicMatch req) with
  | none => rfl
  | some p => cases hname : decode p.1 <;> simp [hname]

/-- With readable tables, a request is served by its target exactly if that is no reply which is
passed over or changed. -/
theorem resolve_serves_iff (fastPaths : String → Bool) {regs : List (Registration N)} {req : Request}
    (hload : Loadable readNumber config regs) :
    (resolve readNumber fastPaths regs req).Serves (target regs req) ↔
      ∀ value, target regs req = .reply value → Answerable readNumber value := by
  unfold resolve
  cases hfind : regs.reverse.find? (Registration.isLiteral req) with
  | none =>
    rw [Option.bind_none, Option.getD_none, dynamicOutcome_eq hload]
    cases hsome : regs.findSome? (Registration.dynamicMatch req) with
    | none =>
      have htarget : target regs req = .notFound := by simp [target, hfind, hsome]
      rw [htarget]
      exact iff_of_true trivial fun value h => by cases h
    | some p =>
      obtain ⟨r, hr, hmatch⟩ := List.exists_of_findSome?_eq_some hsome
      obtain ⟨name, hname⟩ := hload.decode_dynamicMatch hr hmatch
      have htarget : target regs req = .action p.1 := by simp [target, hfind, hsome]
      rw [htarget]
      simp only [hname]
      exact iff_of_true ((decode_eq_some_iff _ _).mp hname) fun value h => by cases h
  | some r =>
    have hreadable := (hload.readable_literal hfind).2
    rw [Option.bind_some]
    cases hhandling : r.handling with
    | action name =>
      rw [hhandling] at hreadable
      obtain ⟨n, hname⟩ := Option.isSome_iff_exists.mp hreadable
      have hjs := (decode_eq_some_iff _ _).mp hname
      have htarget : target regs req = .action name := by simp [target, hfind, hhandling]
      have houtcome : literalOutcome readNumber fastPaths r =
          some (if fastPaths n then .staticAction n else .execute n []) := by
        simp [literalOutcome, hhandling, hname]
      rw [htarget, houtcome, Option.getD_some]
      refine iff_of_true ?_ fun value h => by cases h
      split
      · exact hjs
      · exact hjs
    | reply value =>
      rw [hhandling] at hreadable
      obtain ⟨u, hread⟩ := Option.isSome_iff_exists.mp hreadable
      have htarget : target regs req = .reply value := by simp [target, hfind, hhandling]
      have hcondition : (∀ value', Target.reply value = .reply value' →
          Answerable readNumber value') ↔ Answerable readNumber value :=
        ⟨fun h => h value rfl, fun h value' heq => Target.reply.inj heq ▸ h⟩
      rw [htarget, hcondition]
      by_cases hjson : replyType value = "json"
      · have houtcome : literalOutcome readNumber fastPaths r = some (.json u) := by
          simp [literalOutcome, hhandling, hjson, hread]
        rw [houtcome, Option.getD_some, Answerable, if_pos hjson]
        exact eq_toJs_iff_of_read 125 value u hread
      · rw [Answerable, if_neg hjson]
        by_cases hstring : ∃ s, value = .string s
        · obtain ⟨s, rfl⟩ := hstring
          obtain ⟨t, ht, -⟩ := Option.map_eq_some_iff.mp hread
          have houtcome : literalOutcome readNumber fastPaths r = some (.text t) := by
            simp [literalOutcome, hhandling, hjson, ht]
          rw [houtcome, Option.getD_some, (decode_eq_some_iff _ _).mp ht]
          exact iff_of_true rfl ⟨jsString t, rfl⟩
        · have houtcome : literalOutcome readNumber fastPaths r = none := by
            cases value with
            | string s => exact absurd ⟨s, rfl⟩ hstring
            | _ => simp [literalOutcome, hhandling, hjson]
          have hserves : ¬(dynamicOutcome regs req).Serves (.reply value) := by
            unfold dynamicOutcome
            split <;> exact id
          rw [houtcome, Option.getD_none]
          exact iff_of_false hserves hstring

/-- A request is dispatched as specified, independently of the registrations that do not concern it,
exactly if no registration concerns it, or the file can be read, also without any one of those, and the
reply it is dispatched to is one that the handler gives. -/
theorem dispatch_agrees_iff (readNumber : N → Option N) (fastPaths : String → Bool)
    (config : JsValue N) (regs : List (Registration N)) (req : Request) :
    Agrees readNumber fastPaths config regs req ↔
      (∀ r ∈ regs, ¬r.Concerns req) ∨
      Loadable readNumber config regs ∧
        (∀ value, target regs req = .reply value → Answerable readNumber value) ∧
        ∀ before r after, regs = before ++ r :: after → ¬r.Concerns req →
          Loadable readNumber config (before ++ after) := by
  by_cases hconcerned : ∀ r ∈ regs, ¬r.Concerns req
  · refine iff_of_true ?_ (.inl hconcerned)
    have hnone : ∀ l : List (Registration N), (∀ r ∈ l, r ∈ regs) →
        dispatch readNumber fastPaths config l req = .notFound := by
      intro l hl
      exact dispatch_of_unconcerned fun r hr => hconcerned r (hl r hr)
    rw [Agrees, target_of_unconcerned hconcerned, hnone regs fun _ h => h]
    refine ⟨trivial, ?_⟩
    rintro before r after rfl -
    refine (hnone _ ?_).symm
    intro r' hr'
    rcases List.mem_append.mp hr' with hmem | hmem
    · exact List.mem_append_left _ hmem
    · exact List.mem_append_right _ (List.mem_cons_of_mem _ hmem)
  · rw [or_iff_right hconcerned]
    have htarget : target regs req ≠ .notFound := by
      obtain ⟨r, hr⟩ := not_forall.mp hconcerned
      obtain ⟨hmem, hconcerns⟩ := Classical.not_imp.mp hr
      exact target_ne_notFound hmem (not_not.mp hconcerns)
    by_cases hload : Loadable readNumber config regs
    · rw [Agrees, dispatch_of_loadable regs req hload, resolve_serves_iff fastPaths hload]
      rw [and_iff_right hload]
      apply and_congr_right
      intro hanswerable
      have hserves := (resolve_serves_iff fastPaths hload).mpr hanswerable
      apply forall_congr'; intro before
      apply forall_congr'; intro r
      apply forall_congr'; intro after
      apply forall_congr'; intro hsplit
      apply forall_congr'; intro hother
      constructor
      · intro hsame
        by_contra hnot
        rw [dispatch_of_not_loadable _ _ hnot] at hsame
        rw [hsame] at hserves
        exact htarget (Outcome.eq_notFound_of_serves hserves)
      · intro hload'
        rw [dispatch_of_loadable _ _ hload', hsplit]
        exact resolve_append before after hother
    · refine iff_of_false ?_ fun h => hload h.1
      rintro ⟨hserves, -⟩
      rw [dispatch_of_not_loadable _ _ hload] at hserves
      exact htarget (Outcome.eq_notFound_of_serves hserves)

/-- A reply with a number is passed over: the request of its route gets 404. -/
theorem number_reply_not_found :
    ¬Agrees (N := ℤ) some (fun _ => false) .null [⟨.get, jsString "/n", .reply (.number 5)⟩]
      ⟨"GET", by decide, ⟨"/n", .inl (by decide)⟩⟩ := by
  set r : Registration ℤ := ⟨.get, jsString "/n", .reply (.number 5)⟩ with hr
  set req : Request := ⟨"GET", by decide, ⟨"/n", .inl (by decide)⟩⟩
  have hload : Loadable some .null [r] := by
    refine ⟨rfl, ?_⟩
    intro before r' after hsplit _
    have hmem : r' ∈ [r] := hsplit ▸ List.mem_append_right _ (List.mem_cons_self ..)
    rw [List.mem_singleton.mp hmem]
    exact ⟨by simp [hr], rfl⟩
  have hliteral : r.isLiteral req = true := by decide +kernel
  have hfind : [r].reverse.find? (Registration.isLiteral req) = some r := by simp [hliteral]
  have htarget : target [r] req = .reply (.number 5) := by rw [target, hfind]
  rintro ⟨hserves, -⟩
  rw [dispatch_of_loadable _ _ hload, resolve_serves_iff (fun _ => false) hload] at hserves
  obtain ⟨s, hs⟩ : ∃ s, JsValue.number (5 : ℤ) = .string s := hserves _ htarget
  cases hs

end FrameworkBenchmarks.TitanPl
