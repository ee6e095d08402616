import FrameworkBenchmarks.Toolset.Examined

/-!
# What an accepted body is

A body without failures is a list of the right length, but not every row of it is one: rows are
looked at until five have had findings, a row with extra keys is not looked at further, and `int`
takes more than integers.
-/

namespace FrameworkBenchmarks.Toolset

variable {S : Type} [DecidableEq S] (py : Python S)

/-- Whether a value is a JSON integer. -/
def Value.isInt : Value S → Bool
  | .int _ => true
  | _ => false

/-- The object has a key, up to the case of letters, and only integers there. -/
def hasIntAt (entries : List (S × Value S)) (key : S) : Bool :=
  (entries.any fun e => py.lower e.1 = key) &&
    entries.all fun e => py.lower e.1 ≠ key || e.2.isInt

/-- A value is an object with the keys `id` and `randomNumber` whose values are integers. -/
def isRow (obj : Value S) : Bool :=
  match obj with
  | .dict entries =>
    hasIntAt py entries (py.lit "id") && hasIntAt py entries (py.lit "randomnumber")
  | _ => false

/-- A body decodes to a list of rows of the expected length. -/
def IsRowList (expectedLen : ℤ) (body : Option (List UInt8)) : Prop :=
  ∃ bytes response, body = some bytes ∧ py.loads bytes = .ok (.list response) ∧
    (response.length : ℤ) = expectedLen ∧ ∀ obj ∈ response, isRow py obj = true

/-- A body decodes to a list of objects of the expected length, all of them tolerated that are
looked at, but not all of them rows. -/
structure Deceptive (expectedLen : ℤ) (bytes : List UInt8) (response : List (Value S)) : Prop where
  bytes_ne : bytes ≠ []
  decodes : py.loads bytes = .ok (.list response)
  length : (response.length : ℤ) = expectedLen
  objects : ∀ obj ∈ response, obj.isDict = true
  examined : Examined py 0 (fun obj => tolerated py obj = true) response
  notRows : ∃ obj ∈ response, isRow py obj = false

theorem noFail_append (l l' : List Problem) : NoFail (l ++ l') ↔ NoFail l ∧ NoFail l' := by
  simp only [NoFail, List.mem_append, or_imp, forall_and]

/-- A problem with the whole list is reported under a condition. -/
theorem noFail_ite {p : Prop} [Decidable p] {text url : String} :
    NoFail (if p then [⟨.fail, text, url⟩] else []) ↔ ¬ p := by
  by_cases h : p <;> simp [NoFail, h]

/-- With a failure added, a check does not return without one. -/
theorem not_noFail_cons (r : Except PyError (List Problem)) {p : Problem} (hp : p.level = .fail) :
    ¬ ReturnsWith NoFail (r >>= fun l => pure (p :: l)) := by
  rintro ⟨problems, hproblems, hnoFail⟩
  cases r with
  | error e => cases hproblems
  | ok l =>
    obtain rfl := Except.ok.inj hproblems
    exact hnoFail p List.mem_cons_self hp

/-- A decoded body is accepted if it is a list of objects of the expected length, all of them
tolerated that are looked at. -/
theorem verifyRows_noFail_iff (expectedLen : ℤ) (response : Value S) (url : String) :
    ReturnsWith NoFail (verifyRows py expectedLen response url .fail) ↔
      ∃ items, response = .list items ∧ (items.length : ℤ) = expectedLen ∧
        (∀ obj ∈ items, obj.isDict = true) ∧
        Examined py 0 (fun obj => tolerated py obj = true) items := by
  cases response with
  | list items =>
    rw [verifyRows, returnsWith_verifyObjects_iff py noFail_append, noFail_append, noFail_ite,
      noFail_ite]
    simp only [verifyRandomnumberObject_noFail_iff, Value.list.injEq, exists_eq_left']
    simp only [ne_eq, not_not, List.any_eq_true, Bool.not_eq_true', not_exists, not_and,
      Bool.not_eq_false]
    tauto
  | _ =>
    exact iff_of_false (not_noFail_cons _ rfl) (by simp)

/-- A body is accepted if it decodes to a list of objects of the expected length, all of them
tolerated that are looked at. -/
theorem verifyRandomnumberList_noFail_iff (expectedLen : ℤ) (body : Option (List UInt8))
    (url : String) :
    ReturnsWith NoFail (verifyRandomnumberList py expectedLen body url .fail) ↔
      ∃ bytes response, body = some bytes ∧ bytes ≠ [] ∧ py.loads bytes = .ok (.list response) ∧
        (response.length : ℤ) = expectedLen ∧ (∀ obj ∈ response, obj.isDict = true) ∧
        Examined py 0 (fun obj => tolerated py obj = true) response := by
  rw [verifyRandomnumberList]
  match body with
  | none => simp [basicBodyVerification, ReturnsWith, NoFail, bind, Except.bind, pure, Except.pure]
  | some [] => simp [basicBodyVerification, ReturnsWith, NoFail, bind, Except.bind, pure, Except.pure]
  | some (b :: body) =>
    simp only [basicBodyVerification]
    cases hloads : py.loads (b :: body) with
    | error e =>
      cases e <;>
        simp [hloads, ReturnsWith, NoFail, bind, Except.bind, pure, Except.pure]
    | ok response =>
      refine (verifyRows_noFail_iff py expectedLen response url).trans ?_
      simp [hloads]

/-- An accepted body is a list of rows of the expected length exactly if it is not deceptive. -/
theorem verifyRandomnumberList_sound_iff (expectedLen : ℤ) (body : Option (List UInt8))
    (url : String) :
    (∀ problems, verifyRandomnumberList py expectedLen body url .fail = .ok problems →
      NoFail problems → IsRowList py expectedLen body) ↔
      ¬ ∃ bytes response, body = some bytes ∧ Deceptive py expectedLen bytes response := by
  have haccepted := verifyRandomnumberList_noFail_iff py expectedLen body url
  constructor
  · rintro hsound ⟨bytes, response, rfl, hd⟩
    obtain ⟨problems, hproblems, hnoFail⟩ :=
      haccepted.2 ⟨bytes, response, rfl, hd.bytes_ne, hd.decodes, hd.length, hd.objects, hd.examined⟩
    obtain ⟨bytes', response', hbytes, hdecodes, -, hrows⟩ := hsound problems hproblems hnoFail
    obtain rfl := Option.some.inj hbytes
    rw [hd.decodes] at hdecodes
    obtain rfl := Value.list.inj (Except.ok.inj hdecodes)
    obtain ⟨obj, hobj, hnot⟩ := hd.notRows
    rw [hrows obj hobj] at hnot
    cases hnot
  · intro hnone problems hproblems hnoFail
    obtain ⟨bytes, response, hbody, hne, hdecodes, hlength, hobjects, hexamined⟩ :=
      haccepted.1 ⟨problems, hproblems, hnoFail⟩
    refine ⟨bytes, response, hbody, hdecodes, hlength, fun obj hobj => ?_⟩
    by_contra hnot
    exact hnone ⟨bytes, response, hbody, hne, hdecodes, hlength, hobjects, hexamined,
      obj, hobj, by simpa using hnot⟩

/-- A row of a string and a boolean. -/
theorem string_accepted : ¬ ∀ (py : Python String) (expectedLen : ℤ)
    (body : Option (List UInt8)) (url : String) (problems : List Problem),
    verifyRandomnumberList py expectedLen body url .fail = .ok problems →
      NoFail problems → IsRowList py expectedLen body := by
  intro hsound
  let obj : Value String := .dict [("id", .str "5"), ("randomNumber", .bool true)]
  let bytes := "[\x7b\"id\": \"5\", \"randomNumber\": true\x7d]".toUTF8.toList
  let py : Python String := .ascii fun _ => .ok (.list [obj])
  obtain ⟨problems, hproblems, hnoFail⟩ :=
    (verifyRandomnumberList_noFail_iff py 1 (some bytes) "http://localhost/queries?queries=1").2
      ⟨bytes, [obj], rfl, by decide +kernel, rfl, rfl, by simp [obj, Value.isDict], by
        rw [examined_cons]
        exact ⟨fun _ => by decide +kernel, examined_nil _ _ _⟩⟩
  obtain ⟨_, response, -, hloads, -, hrows⟩ := hsound py 1 _ _ problems hproblems hnoFail
  obtain rfl := Value.list.inj (Except.ok.inj hloads)
  exact absurd (hrows obj (List.mem_singleton_self _)) (by decide +kernel)

end FrameworkBenchmarks.Toolset
