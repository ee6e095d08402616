import FrameworkBenchmarks.Toolset.Verifications

/-!
# What the row checks look at

Which findings a row has, when its check raises, and which rows of a list are looked at before five
bad ones have been found.
-/

namespace FrameworkBenchmarks.Toolset

variable {S : Type} [DecidableEq S] (py : Python S)

/-- Whether `int` raises anything else than a `TypeError`. -/
def Python.intRaises (v : Value S) : Bool :=
  match py.int v with
  | .ok _ => false
  | .error (.typeError _) => false
  | .error _ => true

/-- Whether `int` returns a number. -/
def Python.isIntable (v : Value S) : Bool :=
  match py.int v with
  | .ok _ => true
  | .error _ => false

/-- Whether `int` returns a number from `lo`, if given, to 10,000. -/
def Python.isInRange (lo : Option ℤ) (v : Value S) : Bool :=
  match py.int v with
  | .ok n => n ≤ 10000 && lo.all (· ≤ n)
  | .error _ => false

/-- The values of `id` and `randomNumber`, if the object has both. -/
def rowValues (obj : Value S) : Option (Value S × Value S) :=
  match obj with
  | .dict entries => do
    let i ← (py.lowerKeys entries).lookup (py.lit "id")
    let rn ← (py.lowerKeys entries).lookup (py.lit "randomnumber")
    return (i, rn)
  | _ => none

/-- Whether an object has more keys than a row. -/
def hasExtraKeys (obj : Value S) : Bool :=
  match obj with
  | .dict entries => 2 < (py.lowerKeys entries).length
  | _ => false

/-- The check of a row does not raise. -/
def convertible (obj : Value S) : Bool :=
  hasExtraKeys py obj ||
    (rowValues py obj).all fun v => !py.intRaises v.1 && !py.intRaises v.2

/-- The check of a row finds nothing. -/
def clean (obj : Value S) : Bool :=
  !hasExtraKeys py obj &&
    (rowValues py obj).any fun v => py.isInRange (some 1) v.1 && py.isInRange none v.2

/-- The check of a row finds no failure. -/
def tolerated (obj : Value S) : Bool :=
  (rowValues py obj).any fun v => hasExtraKeys py obj || (py.isIntable v.1 && py.isIntable v.2)

/-- A property of the rows that have fewer than five bad ones before them. -/
def Examined (bad : ℕ) (P : Value S → Prop) (items : List (Value S)) : Prop :=
  ∀ pre e post, items = pre ++ e :: post → bad + pre.countP (fun o => !clean py o) < 5 → P e

@[simp] theorem examined_nil (bad : ℕ) (P : Value S → Prop) : Examined py bad P [] := by
  intro pre e post h
  simp at h

/-- The first row is looked at unless five bad ones have been found; then the others are. -/
theorem examined_cons (bad : ℕ) (P : Value S → Prop) (obj : Value S) (items : List (Value S)) :
    Examined py bad P (obj :: items) ↔
      (bad < 5 → P obj) ∧ Examined py (if clean py obj then bad else bad + 1) P items := by
  constructor
  · intro h
    refine ⟨fun hbad => h [] obj items rfl (by simpa using hbad), ?_⟩
    intro pre e post heq hbad
    refine h (obj :: pre) e post (by rw [heq, List.cons_append]) ?_
    rw [List.countP_cons]
    cases hc : clean py obj <;> simp [hc] at hbad ⊢ <;> omega
  · rintro ⟨hobj, hitems⟩ pre e post heq hbad
    cases pre with
    | nil =>
      obtain ⟨rfl, -⟩ := List.cons.inj heq
      exact hobj (by simpa using hbad)
    | cons o pre =>
      obtain ⟨rfl, rfl⟩ := List.cons.inj heq
      refine hitems pre e post rfl ?_
      rw [List.countP_cons] at hbad
      cases hc : clean py obj <;> simp [hc] at hbad ⊢ <;> omega

/-! ### One row -/

/-- A check returns problems, with a property. -/
def ReturnsWith (P : List Problem → Prop) (r : Except PyError (List Problem)) : Prop :=
  ∃ problems, r = .ok problems ∧ P problems

/-- No problem is a failure. -/
def NoFail (problems : List Problem) : Prop :=
  ∀ p ∈ problems, p.level ≠ .fail

/-- The required keys that are missing are the ones without a value. -/
theorem missing_eq_nil_iff (d : List (S × Value S)) :
    ((py.setOrder (requiredKeys py)).filter fun v => (d.lookup v).isNone) = [] ↔
      (d.lookup (py.lit "id")).isSome ∧ (d.lookup (py.lit "randomnumber")).isSome := by
  rw [List.filter_eq_nil_iff]
  simp [(py.setOrder_perm _).mem_iff, requiredKeys, Option.isSome_iff_ne_none]

/-- Without one of its keys, a row fails. -/
theorem verifyRandomnumberObject_of_missing {obj : Value S} (h : rowValues py obj = none)
    (url : String) (m : Level) :
    ∃ problems, verifyRandomnumberObject py obj url m = .ok problems ∧
      ∃ p ∈ problems, p.level = m := by
  cases obj with
  | dict entries =>
    have hne : ((py.setOrder (requiredKeys py)).filter fun v =>
        ((py.lowerKeys entries).lookup v).isNone) ≠ [] := by
      intro hnil
      obtain ⟨hi, hrn⟩ := (missing_eq_nil_iff py _).1 hnil
      obtain ⟨i, hi⟩ := Option.isSome_iff_exists.1 hi
      obtain ⟨rn, hrn⟩ := Option.isSome_iff_exists.1 hrn
      simp [rowValues, hi, hrn] at h
    obtain ⟨v, vs, hvs⟩ := List.exists_cons_of_ne_nil hne
    obtain ⟨p, problems, hp, hproblems⟩ : ∃ (p : Problem) (problems : List Problem),
        p.level = m ∧ keyProblems py (py.lowerKeys entries) url m = p :: problems := by
      rw [keyProblems, hvs]
      exact ⟨⟨m, _, url⟩, _, rfl, rfl⟩
    refine ⟨p :: problems, ?_, p, List.mem_cons_self, hp⟩
    rw [verifyRandomnumberObject, hproblems]
  | _ => exact ⟨_, rfl, _, List.mem_singleton_self _, rfl⟩

/-- The keys of a row that has its values: an extra key is all that can be found. -/
theorem keyProblems_of_row {entries : List (S × Value S)} {i rn : Value S}
    (h : rowValues py (.dict entries) = some (i, rn)) (url : String) (m : Level) :
    (py.lowerKeys entries).lookup (py.lit "id") = some i ∧
      (py.lowerKeys entries).lookup (py.lit "randomnumber") = some rn ∧
      ∃ p : Problem, p.level = .warn ∧ keyProblems py (py.lowerKeys entries) url m =
        if hasExtraKeys py (.dict entries) then [p] else [] := by
  obtain ⟨i', hi, h⟩ := Option.bind_eq_some_iff.1 h
  obtain ⟨rn', hrn, h⟩ := Option.bind_eq_some_iff.1 h
  obtain ⟨rfl, rfl⟩ := Prod.mk.inj (Option.some.inj h)
  have hmissing := (missing_eq_nil_iff py (py.lowerKeys entries)).2 (by simp [hi, hrn])
  refine ⟨hi, hrn, ⟨.warn, ?text, url⟩, rfl, ?_⟩
  rotate_left
  · rw [keyProblems, hmissing]
    simp only [List.map_nil, List.nil_append, hasExtraKeys, decide_eq_true_eq]
    exact rfl

/-- With extra keys, a row is not looked at further. -/
theorem verifyRandomnumberObject_of_extra {obj : Value S} {i rn : Value S}
    (h : rowValues py obj = some (i, rn)) (hextra : hasExtraKeys py obj = true) (url : String)
    (m : Level) :
    ∃ p, verifyRandomnumberObject py obj url m = .ok [p] ∧ p.level = .warn := by
  cases obj with
  | dict entries =>
    obtain ⟨-, -, p, hp, hkeys⟩ := keyProblems_of_row py h url m
    rw [if_pos hextra] at hkeys
    exact ⟨p, by rw [verifyRandomnumberObject, hkeys], hp⟩
  | _ => cases h

/-- Otherwise both values are looked at. -/
theorem verifyRandomnumberObject_of_row {obj : Value S} {i rn : Value S}
    (h : rowValues py obj = some (i, rn)) (hextra : hasExtraKeys py obj = false) (url : String)
    (m : Level) :
    verifyRandomnumberObject py obj url m = (do
      let idProblems ← checkId py i url m
      let rnProblems ← checkRandomnumber py rn url m
      return idProblems ++ rnProblems) := by
  cases obj with
  | dict entries =>
    obtain ⟨hi, hrn, p, -, hkeys⟩ := keyProblems_of_row py h url m
    rw [hextra] at hkeys
    rw [verifyRandomnumberObject, hi, hrn]
    simp only [hkeys, Bool.false_eq_true, if_false]
  | _ => cases h

/-! ### What the checks come to -/

section Int

variable {key : String} {warning : ℤ → Option String} {v : Value S} {url : String} {m : Level}

omit [DecidableEq S]

/-- The check of a value raises what `int` raises, but for a `TypeError`. -/
theorem checkInt_returns_iff :
    (∃ problems, checkInt py key warning v url m = .ok problems) ↔ py.intRaises v = false := by
  rw [checkInt, Python.intRaises]
  cases py.int v with
  | ok n => simp
  | error e => cases e <;> simp

/-- It finds nothing if there is a number and no warning about it. -/
theorem checkInt_eq_nil_iff :
    checkInt py key warning v url m = .ok [] ↔ ∃ n, py.int v = .ok n ∧ warning n = none := by
  rw [checkInt]
  cases py.int v with
  | ok n => cases hw : warning n <;> simp [hw]
  | error e => cases e <;> simp

/-- It finds no failure if there is a number. -/
theorem checkInt_noFail_iff :
    ReturnsWith NoFail (checkInt py key warning v url .fail) ↔ py.isIntable v = true := by
  rw [checkInt, Python.isIntable]
  cases py.int v with
  | ok n => cases hw : warning n <;> simp [ReturnsWith, NoFail]
  | error e => cases e <;> simp [ReturnsWith, NoFail]

/-- A warning that is given under a condition. -/
theorem checkInt_eq_nil_iff_of_ite {p : ℤ → Prop} [DecidablePred p] {text : ℤ → String} :
    checkInt py key (fun n => if p n then some (text n) else none) v url m = .ok [] ↔
      ∃ n, py.int v = .ok n ∧ ¬ p n := by
  rw [checkInt_eq_nil_iff]
  refine exists_congr fun n => and_congr_right fun _ => ?_
  by_cases hp : p n <;> simp [hp]

theorem checkId_eq_nil_iff :
    checkId py v url m = .ok [] ↔ py.isInRange (some 1) v = true := by
  rw [checkId, checkInt_eq_nil_iff_of_ite, Python.isInRange]
  cases py.int v with
  | ok n => simp
  | error e => simp

theorem checkRandomnumber_eq_nil_iff :
    checkRandomnumber py v url m = .ok [] ↔ py.isInRange none v = true := by
  rw [checkRandomnumber, checkInt_eq_nil_iff_of_ite, Python.isInRange]
  cases py.int v with
  | ok n => simp
  | error e => simp

/-- Two checks in sequence return if both do. -/
theorem returnsWith_seq {P : List Problem → Prop} {a b : Except PyError (List Problem)}
    (happend : ∀ l l', P (l ++ l') ↔ P l ∧ P l') :
    ReturnsWith P (do let l ← a; let l' ← b; return l ++ l') ↔ ReturnsWith P a ∧ ReturnsWith P b := by
  cases a with
  | error e => simp [ReturnsWith, bind, Except.bind]
  | ok l =>
    cases b with
    | error e => simp [ReturnsWith, bind, Except.bind]
    | ok l' => simp [ReturnsWith, bind, Except.bind, pure, Except.pure, happend]

end Int

/-- The check of a row returns if the row is convertible. -/
theorem verifyRandomnumberObject_returns_iff (obj : Value S) (url : String) (m : Level) :
    ReturnsWith (fun _ => True) (verifyRandomnumberObject py obj url m) ↔
      convertible py obj = true := by
  rw [convertible]
  cases hrow : rowValues py obj with
  | none =>
    obtain ⟨problems, hproblems, -⟩ := verifyRandomnumberObject_of_missing py hrow url m
    simp [ReturnsWith, hproblems]
  | some v =>
    cases hextra : hasExtraKeys py obj with
    | true =>
      obtain ⟨p, hp, -⟩ := verifyRandomnumberObject_of_extra py hrow hextra url m
      simp [ReturnsWith, hp]
    | false =>
      rw [verifyRandomnumberObject_of_row py hrow hextra, returnsWith_seq (by simp)]
      simp only [ReturnsWith, and_true, checkId, checkRandomnumber, checkInt_returns_iff]
      simp

/-- It finds nothing if the row is clean. -/
theorem verifyRandomnumberObject_eq_nil_iff (obj : Value S) (url : String) (m : Level) :
    verifyRandomnumberObject py obj url m = .ok [] ↔ clean py obj = true := by
  have hiff : ∀ r : Except PyError (List Problem), ReturnsWith (· = []) r ↔ r = .ok [] := by
    intro r
    simp [ReturnsWith]
  rw [clean]
  cases hrow : rowValues py obj with
  | none =>
    obtain ⟨problems, hproblems, p, hp, -⟩ := verifyRandomnumberObject_of_missing py hrow url m
    have hne : problems ≠ [] := List.ne_nil_of_mem hp
    simp [hproblems, hne]
  | some v =>
    cases hextra : hasExtraKeys py obj with
    | true =>
      obtain ⟨p, hp, -⟩ := verifyRandomnumberObject_of_extra py hrow hextra url m
      simp [hp]
    | false =>
      rw [verifyRandomnumberObject_of_row py hrow hextra, ← hiff, returnsWith_seq (by simp), hiff,
        hiff, checkId_eq_nil_iff, checkRandomnumber_eq_nil_iff]
      simp

/-- It finds no failure if the row is tolerated. -/
theorem verifyRandomnumberObject_noFail_iff (obj : Value S) (url : String) :
    ReturnsWith NoFail (verifyRandomnumberObject py obj url .fail) ↔ tolerated py obj = true := by
  rw [tolerated]
  cases hrow : rowValues py obj with
  | none =>
    obtain ⟨problems, hproblems, p, hp, hlevel⟩ :=
      verifyRandomnumberObject_of_missing py hrow url .fail
    have hfail : ¬ NoFail problems := fun h => h p hp hlevel
    simp [ReturnsWith, hproblems, hfail]
  | some v =>
    cases hextra : hasExtraKeys py obj with
    | true =>
      obtain ⟨p, hp, hlevel⟩ := verifyRandomnumberObject_of_extra py hrow hextra url .fail
      simp [ReturnsWith, hp, NoFail, hlevel]
    | false =>
      have happend : ∀ l l', NoFail (l ++ l') ↔ NoFail l ∧ NoFail l' := by
        intro l l'
        simp only [NoFail, List.mem_append, or_imp, forall_and]
      rw [verifyRandomnumberObject_of_row py hrow hextra, returnsWith_seq happend, checkId,
        checkRandomnumber, checkInt_noFail_iff, checkInt_noFail_iff]
      simp

/-! ### The rows of a list -/

/-- After five bad rows, none is looked at. -/
theorem examined_of_le {bad : ℕ} (h : 5 ≤ bad) (P : Value S → Prop) (items : List (Value S)) :
    Examined py bad P items := by
  intro pre e post _ hbad
  omega

/-- A row that is looked at counts as bad unless it is clean. -/
theorem verifyObjects_cons {url : String} {m : Level} {obj : Value S} {bad : ℕ}
    {findings : List Problem} (hbad : bad < 5)
    (h : verifyRandomnumberObject py obj url m = .ok findings) (items : List (Value S))
    (problems : List Problem) :
    verifyObjects py url m (obj :: items) bad problems =
      verifyObjects py url m items (if clean py obj then bad else bad + 1)
        (problems ++ findings) := by
  rw [verifyObjects, if_pos hbad, h]
  have hclean := verifyRandomnumberObject_eq_nil_iff py obj url m
  rw [h, Except.ok.injEq] at hclean
  cases findings with
  | nil => simp [hclean.1 rfl, bind, Except.bind]
  | cons p findings =>
    have hnot : ¬ clean py obj = true := fun hc => nomatch hclean.2 hc
    simp [hnot, bind, Except.bind]

/-- The loop over the rows returns problems of a kind if the rows that it looks at do. -/
theorem returnsWith_verifyObjects_iff {P : List Problem → Prop}
    (happend : ∀ l l', P (l ++ l') ↔ P l ∧ P l') (url : String) (m : Level)
    (items : List (Value S)) {bad : ℕ} {problems : List Problem} :
    ReturnsWith P (verifyObjects py url m items bad problems) ↔
      P problems ∧
        Examined py bad (fun obj => ReturnsWith P (verifyRandomnumberObject py obj url m)) items := by
  induction items generalizing bad problems with
  | nil => simp [verifyObjects, ReturnsWith, pure, Except.pure]
  | cons obj items ih =>
    rw [examined_cons]
    by_cases hbad : bad < 5
    · cases hobj : verifyRandomnumberObject py obj url m with
      | error e =>
        rw [verifyObjects, if_pos hbad, hobj]
        simp [ReturnsWith, bind, Except.bind, hbad]
      | ok findings =>
        rw [verifyObjects_cons py hbad hobj, ih, happend]
        simp [ReturnsWith, hbad, and_assoc]
    · rw [verifyObjects, if_neg hbad]
      have hle : 5 ≤ if clean py obj = true then bad else bad + 1 := by split <;> omega
      simp [ReturnsWith, pure, Except.pure, hbad, examined_of_le py hle]

end FrameworkBenchmarks.Toolset
