import FrameworkBenchmarks.Toolset.Examined

/-!
# When the checks return

A check of a body returns its problems unless it comes to a row whose values `int` raises on, and
the check of a greeting unless it has too many keys.
-/

namespace FrameworkBenchmarks.Toolset

variable {S : Type} [DecidableEq S] (py : Python S)

/-- A check returns problems. -/
def Returns (r : Except PyError (List Problem)) : Prop :=
  ∃ problems, r = .ok problems

/-- A greeting with so many keys that its check comes to the faulty call of `append`. -/
def oversized (jsonObject : Value S) : Bool :=
  (lowerItems py jsonObject).any fun items =>
    (items.lookup (py.lit "message")).isSome && 27 < items.length

/-- The body is missing, empty or invalid, or all rows that are looked at are convertible. -/
def BodyConvertible (body : Option (List UInt8)) : Prop :=
  match body with
  | none => True
  | some [] => True
  | some body =>
    match py.loads body with
    | .ok (.list response) => Examined py 0 (fun obj => convertible py obj = true) response
    | .ok response => convertible py response = true
    | .error (.valueError _) => True
    | .error _ => False

/-- The check of a greeting returns unless it is oversized. -/
theorem verifyHelloworldObject_returns_iff (jsonObject : Value S) (url : String) :
    Returns (verifyHelloworldObject py jsonObject url) ↔ oversized py jsonObject = false := by
  rw [verifyHelloworldObject, oversized]
  cases lowerItems py jsonObject with
  | none => simp [Returns]
  | some items =>
    cases hmessage : items.lookup (py.lit "message") with
    | none => simp [Returns, hmessage]
    | some message =>
      by_cases hlen : 27 < items.length
      · simp [Returns, hmessage, hlen, bind, Except.bind, throw, throwThe, MonadExceptOf.throw]
      · by_cases hm : message = py.lit "hello, world!" <;>
          simp [Returns, hmessage, hlen, hm, pure, Except.pure]

theorem returnsWith_true_iff (r : Except PyError (List Problem)) :
    ReturnsWith (fun _ => True) r ↔ Returns r := by
  simp [ReturnsWith, Returns]

/-- The loop over the rows returns if the rows that it looks at are convertible. -/
theorem verifyObjects_returns_iff (url : String) (m : Level) (items : List (Value S)) (bad : ℕ)
    (problems : List Problem) :
    Returns (verifyObjects py url m items bad problems) ↔
      Examined py bad (fun obj => convertible py obj = true) items := by
  rw [← returnsWith_true_iff, returnsWith_verifyObjects_iff py (by simp)]
  simp only [true_and, verifyRandomnumberObject_returns_iff]

/-- Adding to the problems returned changes nothing about it. -/
theorem returns_bind_pure_iff (r : Except PyError (List Problem))
    (f : List Problem → List Problem) : Returns (r >>= fun l => pure (f l)) ↔ Returns r := by
  cases r <;> simp [Returns, bind, Except.bind, pure, Except.pure]

/-- The check of a decoded body returns if the rows that it looks at are convertible. -/
theorem verifyRows_returns_iff (expectedLen : ℤ) (response : Value S) (url : String) (m : Level) :
    Returns (verifyRows py expectedLen response url m) ↔
      match response with
      | .list items => Examined py 0 (fun obj => convertible py obj = true) items
      | response => convertible py response = true := by
  cases response with
  | list items => exact verifyObjects_returns_iff py url m items 0 _
  | _ =>
    refine (returns_bind_pure_iff _ _).trans ?_
    rw [← returnsWith_true_iff, verifyRandomnumberObject_returns_iff]

/-- The check of a list of rows returns if the rows that it looks at are convertible. -/
theorem verifyRandomnumberList_returns_iff (expectedLen : ℤ) (body : Option (List UInt8))
    (url : String) (m : Level) :
    Returns (verifyRandomnumberList py expectedLen body url m) ↔ BodyConvertible py body := by
  rw [verifyRandomnumberList, BodyConvertible.eq_def]
  cases body with
  | none => exact iff_of_true ⟨_, rfl⟩ trivial
  | some bytes =>
    cases bytes with
    | nil => exact iff_of_true ⟨_, rfl⟩ trivial
    | cons b body =>
      simp only [basicBodyVerification]
      cases py.loads (b :: body) with
      | error e =>
        cases e with
        | valueError ve => exact iff_of_true ⟨_, rfl⟩ trivial
        | _ =>
          apply iff_of_false
          · rintro ⟨_, h⟩
            cases h
          · exact id
      | ok response =>
        refine (verifyRows_returns_iff py expectedLen response url m).trans ?_
        cases response <;> rfl

/-- So does the check of a body whose `queries` parameter is not a number. -/
theorem verifyStringyCase_returns_iff (q : S) (m : Level) (body : Option (List UInt8))
    (caseUrl : String) (headerProblems : List Problem) :
    Returns (verifyStringyCase py q m body caseUrl headerProblems) ↔ BodyConvertible py body := by
  rw [verifyStringyCase.eq_def]
  match body with
  | none => exact iff_of_true ⟨_, rfl⟩ trivial
  | some [] => exact iff_of_true ⟨_, rfl⟩ trivial
  | some (b :: body) =>
    exact (returns_bind_pure_iff _ _).trans (verifyRandomnumberList_returns_iff py 1 _ caseUrl m)

/-- The check of a query case raises what its check of the body raises, even if it is a
`ValueError`: then the body is checked once more. -/
theorem verifyQueryCase_returns_iff (q : S) (m : Level) (body : Option (List UInt8))
    (caseUrl : String) (checkUpdates : Bool) (headerProblems updateProblems : List Problem) :
    Returns (verifyQueryCase py q m body caseUrl checkUpdates headerProblems updateProblems) ↔
      BodyConvertible py body := by
  have hstringy := verifyStringyCase_returns_iff py q m body caseUrl headerProblems
  cases hq : py.intOfStr q with
  | none =>
    have hint : py.int (.str q) =
        .error (.valueError ("invalid literal for int() with base 10: " ++ py.str (.str q))) := by
      rw [Python.int, hq]
    rw [verifyQueryCase, hint]
    exact hstringy
  | some queries =>
    have hint : py.int (.str q) = .ok queries := by rw [Python.int, hq]
    have hlist := verifyRandomnumberList_returns_iff py (expectedLen queries) body caseUrl m
    rw [verifyQueryCase, hint]
    cases hbody : verifyRandomnumberList py (expectedLen queries) body caseUrl m with
    | ok problems =>
      rw [hbody] at hlist
      exact iff_of_true ⟨_, by simp [bind, Except.bind, hbody]; rfl⟩ (hlist.1 ⟨_, rfl⟩)
    | error e =>
      have hnot : ¬ BodyConvertible py body := fun h => by
        obtain ⟨problems, hproblems⟩ := hlist.2 h
        rw [hbody] at hproblems
        cases hproblems
      cases e with
      | valueError text =>
        refine Iff.trans ?_ hstringy
        simp only [bind, Except.bind, hbody]
        exact Iff.rfl
      | _ =>
        refine iff_of_false ?_ hnot
        simp only [bind, Except.bind, hbody]
        exact fun ⟨_, h⟩ => nomatch h

/-- The checks return problems for exactly the values that are not oversized, whose rows are
convertible, and for exactly the bodies of which all rows that are looked at are convertible. -/
theorem verifiers_return_iff :
    (∀ (jsonObject : Value S) (url : String),
      Returns (verifyHelloworldObject py jsonObject url) ↔ oversized py jsonObject = false) ∧
    (∀ (dbObject : Value S) (url : String) (m : Level),
      Returns (verifyRandomnumberObject py dbObject url m) ↔ convertible py dbObject = true) ∧
    (∀ (expectedLen : ℤ) (body : Option (List UInt8)) (url : String) (m : Level),
      Returns (verifyRandomnumberList py expectedLen body url m) ↔ BodyConvertible py body) ∧
    ∀ (q : S) (m : Level) (body : Option (List UInt8)) (caseUrl : String) (checkUpdates : Bool)
      (headerProblems updateProblems : List Problem),
      Returns (verifyQueryCase py q m body caseUrl checkUpdates headerProblems updateProblems) ↔
        BodyConvertible py body := by
  refine ⟨verifyHelloworldObject_returns_iff py, fun dbObject url m => ?_,
    verifyRandomnumberList_returns_iff py, verifyQueryCase_returns_iff py⟩
  rw [← returnsWith_true_iff, verifyRandomnumberObject_returns_iff]

/-- A row with a string that is not a number raises. -/
theorem verifyRandomnumberObject_raises : ¬ ∀ (py : Python String) (dbObject : Value String)
    (url : String) (m : Level), Returns (verifyRandomnumberObject py dbObject url m) := by
  intro h
  have hreturns := h (.ascii fun _ => .error .recursionError)
    (.dict [("id", .str "abc"), ("randomNumber", .int 5)]) "http://localhost/db" .fail
  rw [← returnsWith_true_iff, verifyRandomnumberObject_returns_iff] at hreturns
  exact absurd hreturns (by decide +kernel)

end FrameworkBenchmarks.Toolset
