import FrameworkBenchmarks.Userver.SimpleConnection
import Mathlib.Data.List.TakeWhile

/-!
# Requests of a stream

The complete requests of a stream and the first error are found at fixed bytes, whatever the pieces are.
A piece answers the requests up to the first failure in it, and then keeps or loses what is buffered.
-/

namespace FrameworkBenchmarks.Userver

open Common

/-! ### Readings -/

/-- The url after some calls, and the urls of the requests that they complete. -/
def completedUrls : List UInt8 → List Callback → List UInt8 × List (List UInt8)
  | url, [] => (url, [])
  | _, .onMessageBegin :: callbacks => completedUrls [] callbacks
  | url, .onUrl data :: callbacks => completedUrls (url ++ data) callbacks
  | url, .onMessageComplete :: callbacks =>
    ((completedUrls url callbacks).1, url :: (completedUrls url callbacks).2)

/-- The complete requests of a stream with the positions of their last bytes, and the position of the
first error. -/
structure Reading where
  requests : List (ℕ × List UInt8)
  error : Option ℕ

section

variable {σ : Type} (llhttp : Llhttp σ)

/-- The reading of a stream that starts at a position. -/
def HttpParser.read : HttpParser σ → ℕ → List UInt8 → Reading
  | _, _, [] => ⟨[], none⟩
  | parser, pos, byte :: s =>
    let (callbacks, next) := llhttp.execute parser.parser byte
    let (url, urls) := completedUrls parser.url callbacks
    match next with
    | none => ⟨urls.map (Prod.mk pos), some pos⟩
    | some next =>
      let rest := HttpParser.read ⟨next, url⟩ (pos + 1) s
      ⟨urls.map (Prod.mk pos) ++ rest.requests, rest.error⟩

/-- The parser behind a stream without error. -/
def HttpParser.after : HttpParser σ → List UInt8 → Option (HttpParser σ)
  | parser, [] => some parser
  | parser, byte :: s =>
    (llhttp.execute parser.parser byte).2.bind fun next =>
      HttpParser.after ⟨next, (completedUrls parser.url (llhttp.execute parser.parser byte).1).1⟩ s

variable {llhttp} {parser parser' : HttpParser σ} {a : List UInt8}

theorem HttpParser.read_append (pos : ℕ) (b : List UInt8) (h : parser.after llhttp a = some parser') :
    parser.read llhttp pos (a ++ b) =
      ⟨(parser.read llhttp pos a).requests ++ (parser'.read llhttp (pos + a.length) b).requests,
        (parser'.read llhttp (pos + a.length) b).error⟩ := by
  induction a generalizing parser pos with
  | nil =>
    obtain rfl : parser = parser' := Option.some.inj h
    rfl
  | cons byte a ih =>
    rw [HttpParser.after] at h
    cases hnext : (llhttp.execute parser.parser byte).2 with
    | none =>
      rw [hnext] at h
      cases h
    | some next =>
      rw [hnext] at h
      simp only [List.cons_append, HttpParser.read, hnext, ih (pos + 1) h, List.append_assoc,
        List.length_cons, Nat.add_comm, Nat.add_left_comm]

theorem HttpParser.read_append_of_error (pos : ℕ) (b : List UInt8) (h : parser.after llhttp a = none) :
    parser.read llhttp pos (a ++ b) = parser.read llhttp pos a := by
  induction a generalizing parser pos with
  | nil => cases h
  | cons byte a ih =>
    rw [HttpParser.after] at h
    cases hnext : (llhttp.execute parser.parser byte).2 with
    | none => simp only [List.cons_append, HttpParser.read, hnext]
    | some next =>
      rw [hnext] at h
      simp only [List.cons_append, HttpParser.read, hnext, ih (pos + 1) h]

theorem HttpParser.after_eq_none_iff (pos : ℕ) :
    parser.after llhttp a = none ↔ (parser.read llhttp pos a).error ≠ none := by
  induction a generalizing parser pos with
  | nil => simp [HttpParser.after, HttpParser.read]
  | cons byte a ih =>
    rw [HttpParser.after]
    cases hnext : (llhttp.execute parser.parser byte).2 with
    | none => simp [HttpParser.read, hnext]
    | some next =>
      simp only [HttpParser.read, hnext]
      exact ih (pos + 1)

/-- The positions lie in the stream. -/
theorem HttpParser.read_bounds (llhttp : Llhttp σ) (parser : HttpParser σ) (pos : ℕ) (a : List UInt8) :
    (∀ request ∈ (parser.read llhttp pos a).requests, pos ≤ request.1 ∧ request.1 < pos + a.length) ∧
      ∀ e, (parser.read llhttp pos a).error = some e → pos ≤ e ∧ e < pos + a.length := by
  induction a generalizing parser pos with
  | nil => simp [HttpParser.read]
  | cons byte a ih =>
    cases hnext : (llhttp.execute parser.parser byte).2 with
    | none => simp [HttpParser.read, hnext]
    | some next =>
      simp only [HttpParser.read, hnext, List.length_cons]
      obtain ⟨hrequests, herror⟩ :=
        ih ⟨next, (completedUrls parser.url (llhttp.execute parser.parser byte).1).1⟩ (pos + 1)
      constructor
      · intro request hrequest
        cases List.mem_append.mp hrequest with
        | inl hhere =>
          obtain ⟨url, _, rfl⟩ := List.mem_map.mp hhere
          simp
        | inr hrest =>
          have := hrequests request hrest
          omega
      · intro e he
        have := herror e he
        omega

end

/-! ### Failures -/

section

variable (p : List UInt8 → Bool)

/-- The requests before the first one that is refused. -/
def Reading.preceding (reading : Reading) : List (ℕ × List UInt8) :=
  reading.requests.takeWhile fun request => p request.2

/-- The position of the first request that is refused, or else of the error. -/
def Reading.failure (reading : Reading) : Option ℕ :=
  match reading.requests.dropWhile fun request => p request.2 with
  | [] => reading.error
  | request :: _ => some request.1

variable {p}

theorem Reading.preceding_of_all {reading : Reading} (h : ∀ request ∈ reading.requests, p request.2 = true) :
    reading.preceding p = reading.requests ∧ reading.failure p = reading.error := by
  constructor
  · exact List.takeWhile_eq_self_iff.mpr h
  · rw [Reading.failure, List.dropWhile_eq_nil_iff.mpr h]

theorem Reading.failure_eq_none_iff {reading : Reading} : reading.failure p = none ↔
    (∀ request ∈ reading.requests, p request.2 = true) ∧ reading.error = none := by
  constructor
  · intro h
    cases hdrop : reading.requests.dropWhile fun request => p request.2 with
    | cons request rest =>
      rw [Reading.failure, hdrop] at h
      cases h
    | nil =>
      rw [Reading.failure, hdrop] at h
      exact ⟨List.dropWhile_eq_nil_iff.mp hdrop, h⟩
  · rintro ⟨hall, herror⟩
    rw [(Reading.preceding_of_all hall).2, herror]

/-- More requests behind a failure change nothing. -/
theorem Reading.append_of_failure {requests more : List (ℕ × List UInt8)} {error : Option ℕ}
    (error' : Option ℕ) (h : ∃ request ∈ requests, p request.2 = false) :
    (Reading.mk (requests ++ more) error).preceding p = (Reading.mk requests error').preceding p ∧
      (Reading.mk (requests ++ more) error).failure p = (Reading.mk requests error').failure p := by
  induction requests with
  | nil =>
    obtain ⟨request, hmem, _⟩ := h
    cases hmem
  | cons request requests ih =>
    cases hp : p request.2 with
    | false => simp [Reading.preceding, Reading.failure, hp]
    | true =>
      have hrest : ∃ request ∈ requests, p request.2 = false := by
        obtain ⟨refused, hmem, hrefused⟩ := h
        cases List.mem_cons.mp hmem with
        | inl heq =>
          rw [heq, hp] at hrefused
          cases hrefused
        | inr hmem => exact ⟨refused, hmem, hrefused⟩
      obtain ⟨hpreceding, hfailure⟩ := ih hrest
      simp only [Reading.preceding, Reading.failure] at hpreceding hfailure
      simp only [Reading.preceding, Reading.failure, List.cons_append, List.takeWhile_cons,
        List.dropWhile_cons, hp, if_true, hpreceding, hfailure, and_self]

/-- Requests in front that are not refused. -/
theorem Reading.append_of_all {requests more : List (ℕ × List UInt8)} {error : Option ℕ}
    (h : ∀ request ∈ requests, p request.2 = true) :
    (Reading.mk (requests ++ more) error).preceding p =
        requests ++ (Reading.mk more error).preceding p ∧
      (Reading.mk (requests ++ more) error).failure p = (Reading.mk more error).failure p := by
  constructor
  · exact List.takeWhile_append_of_pos h
  · simp only [Reading.failure]
    rw [List.dropWhile_append_of_pos h]

section

variable {σ : Type} {llhttp : Llhttp σ} {parser parser' : HttpParser σ} {a : List UInt8} {pos : ℕ}

/-- Without a failure in its first part, a stream fails where its second part does. -/
theorem HttpParser.read_append_of_failure_none (b : List UInt8)
    (h : (parser.read llhttp pos a).failure p = none) :
    ∃ parser', parser.after llhttp a = some parser' ∧
      (parser.read llhttp pos (a ++ b)).preceding p =
        (parser.read llhttp pos a).requests ++
          (parser'.read llhttp (pos + a.length) b).preceding p ∧
      (parser.read llhttp pos (a ++ b)).failure p =
        (parser'.read llhttp (pos + a.length) b).failure p := by
  obtain ⟨hall, herror⟩ := Reading.failure_eq_none_iff.mp h
  cases hafter : parser.after llhttp a with
  | none => exact absurd herror ((HttpParser.after_eq_none_iff pos).mp hafter)
  | some parser' =>
    rw [HttpParser.read_append pos b hafter]
    exact ⟨parser', rfl, Reading.append_of_all hall⟩

/-- With a failure in its first part, a stream fails there. -/
theorem HttpParser.read_append_of_failure (b : List UInt8) {f : ℕ}
    (h : (parser.read llhttp pos a).failure p = some f) :
    (parser.read llhttp pos (a ++ b)).preceding p = (parser.read llhttp pos a).preceding p ∧
      (parser.read llhttp pos (a ++ b)).failure p = some f := by
  cases hafter : parser.after llhttp a with
  | none =>
    rw [HttpParser.read_append_of_error pos b hafter]
    exact ⟨rfl, h⟩
  | some parser' =>
    have herror : (parser.read llhttp pos a).error = none := by
      by_contra herror
      rw [(HttpParser.after_eq_none_iff pos).mpr herror] at hafter
      cases hafter
    have hrefused : ∃ request ∈ (parser.read llhttp pos a).requests, p request.2 = false := by
      by_contra hnone
      simp only [not_exists, not_and, Bool.not_eq_false] at hnone
      rw [Reading.failure_eq_none_iff.mpr ⟨hnone, herror⟩] at h
      cases h
    rw [HttpParser.read_append pos b hafter, ← h]
    exact Reading.append_of_failure _ hrefused

/-- The positions are in order. -/
theorem HttpParser.read_ordered (llhttp : Llhttp σ) (parser : HttpParser σ) (pos : ℕ) (a : List UInt8) :
    ((parser.read llhttp pos a).requests.Pairwise fun earlier later => earlier.1 ≤ later.1) ∧
      ∀ e, (parser.read llhttp pos a).error = some e →
        ∀ request ∈ (parser.read llhttp pos a).requests, request.1 ≤ e := by
  induction a generalizing parser pos with
  | nil => simp [HttpParser.read]
  | cons byte a ih =>
    have hhere (urls : List (List UInt8)) :
        (urls.map (Prod.mk pos)).Pairwise fun earlier later => earlier.1 ≤ later.1 := by
      rw [List.pairwise_map]
      exact List.pairwise_of_forall fun _ _ => Nat.le_refl pos
    cases hnext : (llhttp.execute parser.parser byte).2 with
    | none =>
      simp only [HttpParser.read, hnext]
      constructor
      · exact hhere _
      · rintro e he request hrequest
        obtain ⟨url, _, rfl⟩ := List.mem_map.mp hrequest
        exact le_of_eq (Option.some.inj he)
    | some next =>
      simp only [HttpParser.read, hnext]
      let parser' : HttpParser σ :=
        ⟨next, (completedUrls parser.url (llhttp.execute parser.parser byte).1).1⟩
      obtain ⟨hrequests, herror⟩ := ih parser' (pos + 1)
      obtain ⟨hbounds, hbound⟩ := HttpParser.read_bounds llhttp parser' (pos + 1) a
      constructor
      · apply List.pairwise_append.mpr
        refine ⟨hhere _, hrequests, ?_⟩
        intro earlier hearlier later hlater
        obtain ⟨url, _, rfl⟩ := List.mem_map.mp hearlier
        exact Nat.le_of_succ_le (hbounds later hlater).1
      · intro e he request hrequest
        cases List.mem_append.mp hrequest with
        | inl hmem =>
          obtain ⟨url, _, rfl⟩ := List.mem_map.mp hmem
          exact Nat.le_of_succ_le (hbound e he).1
        | inr hmem => exact herror e he request hmem

/-- A request is answered before the failure. -/
theorem HttpParser.le_failure {f : ℕ} (h : (parser.read llhttp pos a).failure p = some f)
    {request : ℕ × List UInt8} (hrequest : request ∈ (parser.read llhttp pos a).preceding p) :
    request.1 ≤ f := by
  obtain ⟨hordered, herror⟩ := HttpParser.read_ordered llhttp parser pos a
  cases hdrop : (parser.read llhttp pos a).requests.dropWhile fun request => p request.2 with
  | nil =>
    rw [Reading.failure, hdrop] at h
    exact herror f h request (List.takeWhile_subset _ hrequest)
  | cons refused rest =>
    rw [Reading.failure, hdrop] at h
    rw [← List.takeWhile_append_dropWhile (p := fun request : ℕ × List UInt8 => p request.2)
      (l := (parser.read llhttp pos a).requests), hdrop, List.pairwise_append] at hordered
    obtain rfl : refused.1 = f := Option.some.inj h
    exact hordered.2.2 request hrequest refused List.mem_cons_self

/-- The failure lies in the stream. -/
theorem HttpParser.failure_bounds {f : ℕ} (h : (parser.read llhttp pos a).failure p = some f) :
    pos ≤ f ∧ f < pos + a.length := by
  obtain ⟨hrequests, herror⟩ := HttpParser.read_bounds llhttp parser pos a
  cases hdrop : (parser.read llhttp pos a).requests.dropWhile fun request => p request.2 with
  | nil =>
    rw [Reading.failure, hdrop] at h
    exact herror f h
  | cons refused rest =>
    rw [Reading.failure, hdrop] at h
    have hmem : refused ∈ (parser.read llhttp pos a).requests := by
      apply List.dropWhile_subset fun request => p request.2
      rw [hdrop]
      exact List.mem_cons_self
    obtain rfl : refused.1 = f := Option.some.inj h
    exact hrequests refused hmem

end

end

end FrameworkBenchmarks.Userver
