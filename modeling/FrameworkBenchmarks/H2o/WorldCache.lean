import FrameworkBenchmarks.H2o.RandomIds
import FrameworkBenchmarks.H2o.World

/-!
# The cache of the world table

A thread of the h2o server keeps the world table in a cache with one entry, which a query of the whole
table fills. The cache is created by the first request that finds none, together with the query, and
it is destroyed if the query fails; while it exists, no other query is started.

The cache comes from a library: an entry is found while it was set less than `CACHE_DURATION` ago.
-/

namespace FrameworkBenchmarks.H2o.WorldCache

open World (MultipleQueryCtx QueryResult)

def CACHE_DURATION : ℕ := 3600000

/-- An entry of the cache: the time at which it was set and the random number of each id. -/
structure CacheEntry where
  setAt : ℕ
  table : List ℕ
  deriving DecidableEq

/-- `request_handler_thread_data_t`: the cache, if there is one, with its entry, and the number of
populate queries in flight, whose contexts are alike. -/
structure ThreadData where
  worldCache : Option (Option CacheEntry) := none
  inFlight : ℕ := 0
  deriving DecidableEq

/-- What becomes of a populate query in the call that submits it: it is accepted, it is accepted and
its error callback runs at once, or it is refused. -/
inductive Submission where
  | accepted
  | failed
  | refused
  deriving DecidableEq

/-- `h2o_cache_fetch` -/
def cacheFetch (now : ℕ) (entry : Option CacheEntry) : Option CacheEntry :=
  entry.filter fun e => now < e.setAt + CACHE_DURATION

/-- The table of a populate context, all zero. -/
def zeroTable : List ℕ := List.replicate (MAX_ID + 1) 0

/-- `on_populate_cache_error`, for a query that is not in flight any more. -/
def onPopulateCacheError (data : ThreadData) : ThreadData := { data with worldCache := none }

/-- What a call of `fetch_from_cache` leaves: the data of the thread, the context of the request, and
whether an entry was found and whether a submission failed. -/
structure Fetched where
  data : ThreadData
  ctx : MultipleQueryCtx
  usable : Bool
  submissionFailed : Bool

/-- The submission of a populate query for the cache just created. -/
def submitPopulate (data : ThreadData) (submission : Submission) : ThreadData × Bool :=
  let data := { data with worldCache := some none }
  match submission with
  | .accepted => ({ data with inFlight := data.inFlight + 1 }, false)
  | .failed => (onPopulateCacheError data, true)
  | .refused => (onPopulateCacheError data, true)

/-- `fetch_from_cache`; `none` is the failed assertion about an id. -/
def fetchFromCache (now : ℕ) (data : ThreadData) (ctx : MultipleQueryCtx) (submission : Submission) :
    Option Fetched :=
  match data.worldCache with
  | some entry =>
    match cacheFetch now entry with
    | some e =>
      if ∀ r ∈ ctx.res, r.id ≤ MAX_ID then
        let res := ctx.res.map fun r => { r with randomNumber := e.table.getD r.id 0 }
        some ⟨data, { ctx with res := res, numResult := ctx.numQuery }, true, false⟩
      else none
    | none => some ⟨data, ctx, false, false⟩
  | none =>
    let (data, failed) := submitPopulate data submission
    some ⟨data, ctx, false, failed⟩

/-- The rows of the table written over the zeros. -/
def fillTable (rows : List QueryResult) : List ℕ :=
  rows.foldl (fun table r => table.set r.id r.randomNumber) zeroTable

/-- What happens on a thread that matters to the cache. -/
inductive Event where
  /-- a request for cached queries -/
  | request (now : ℕ) (ctx : MultipleQueryCtx) (submission : Submission)
  /-- the rows of a populate query -/
  | populated (now : ℕ) (rows : List QueryResult)
  /-- another result of a populate query, an error or a timeout -/
  | populateFailed

/-- One event; `none` if it cannot happen or an assertion fails. -/
def step (data : ThreadData) : Event → Option ThreadData
  | .request now ctx submission => (fetchFromCache now data ctx submission).map Fetched.data
  | .populated now rows =>
    if data.inFlight = 0 ∨ data.worldCache = none then none
    else if ∀ r ∈ rows, r.id ≤ MAX_ID ∧ r.randomNumber < 2 ^ 16 then
      some ⟨some (some ⟨now, fillTable rows⟩), data.inFlight - 1⟩
    else none
  | .populateFailed =>
    if data.inFlight = 0 then none
    else some (onPopulateCacheError { data with inFlight := data.inFlight - 1 })

def run (data : ThreadData) : List Event → Option ThreadData
  | [] => some data
  | event :: events => (step data event).bind fun data => run data events

/-! ### Repopulation -/

/-- A call that finds no entry leaves a populate query in flight, or submitted one in vain. -/
def Repopulates (fetched : Fetched) : Prop :=
  fetched.usable = false → 0 < fetched.data.inFlight ∨ fetched.submissionFailed = true

/-- Every request of a run that finds no entry sees to its repopulation. -/
def AlwaysRepopulates : ThreadData → List Event → Prop
  | _, [] => True
  | data, event :: events =>
    (∀ now ctx submission fetched, event = .request now ctx submission →
      fetchFromCache now data ctx submission = some fetched → Repopulates fetched) ∧
    ∀ data', step data event = some data' → AlwaysRepopulates data' events

/-- A request comes while the table that was set is fresh. -/
def InTime : Event → Event → Prop
  | .populated setAt _, .request now _ _ => now < setAt + CACHE_DURATION
  | _, _ => True

variable {data data' : ThreadData} {event : Event} {events : List Event}

/-- The states in which nothing has been cached: no cache, or an empty one with its query. -/
def Unpopulated (data : ThreadData) : Prop :=
  data = ⟨none, 0⟩ ∨ data = ⟨some none, 1⟩

theorem run_cons (h : (run data (event :: events)).isSome) :
    ∃ data', step data event = some data' ∧ (run data' events).isSome := by
  obtain ⟨final, hfinal⟩ := Option.isSome_iff_exists.mp h
  obtain ⟨data', hstep, hrun⟩ := Option.bind_eq_some_iff.mp hfinal
  exact ⟨data', hstep, Option.isSome_iff_exists.mpr ⟨final, hrun⟩⟩

theorem alwaysRepopulates_cons (h : step data event = some data') :
    AlwaysRepopulates data (event :: events) ↔
      (∀ now ctx submission fetched, event = .request now ctx submission →
        fetchFromCache now data ctx submission = some fetched → Repopulates fetched) ∧
      AlwaysRepopulates data' events := by
  refine and_congr_right fun _ => ⟨fun hall => hall data' h, fun hall data'' hstep => ?_⟩
  rwa [Option.some.inj (hstep.symm.trans h)]

/-- A call while there is a cache only looks for the entry. -/
theorem fetchFromCache_some {now n : ℕ} {entry : Option CacheEntry} {ctx : MultipleQueryCtx}
    {submission : Submission} {fetched : Fetched}
    (h : fetchFromCache now ⟨some entry, n⟩ ctx submission = some fetched) :
    fetched.data = ⟨some entry, n⟩ ∧ fetched.usable = (cacheFetch now entry).isSome ∧
      fetched.submissionFailed = false := by
  simp only [fetchFromCache] at h
  cases hfetch : cacheFetch now entry with
  | none =>
    rw [hfetch] at h
    obtain rfl := Option.some.inj h
    exact ⟨rfl, rfl, rfl⟩
  | some e =>
    simp only [hfetch, Option.ite_none_right_eq_some] at h
    obtain ⟨-, h⟩ := h
    obtain rfl := Option.some.inj h
    exact ⟨rfl, rfl, rfl⟩

theorem isSome_cacheFetch (now : ℕ) (e : CacheEntry) :
    (cacheFetch now (some e)).isSome = decide (now < e.setAt + CACHE_DURATION) := by
  rw [cacheFetch, Option.filter_some]
  split <;> simp [*]

/-- Once the table has been cached nothing else happens to the cache, and a request finds no entry
exactly when the table is not fresh any more. -/
theorem alwaysRepopulates_populated {e : CacheEntry}
    (h : (run ⟨some (some e), 0⟩ events).isSome) :
    AlwaysRepopulates ⟨some (some e), 0⟩ events ↔
      ∀ now ctx submission, .request now ctx submission ∈ events → now < e.setAt + CACHE_DURATION := by
  induction events with
  | nil => simp [AlwaysRepopulates]
  | cons event events ih =>
    obtain ⟨data', hstep, hrun⟩ := run_cons h
    rw [alwaysRepopulates_cons hstep]
    cases event with
    | request now ctx submission =>
      obtain ⟨fetched, hfetch, rfl⟩ := Option.map_eq_some_iff.mp hstep
      obtain ⟨hdata, husable, hfailed⟩ := fetchFromCache_some hfetch
      rw [isSome_cacheFetch] at husable
      rw [hdata] at hrun ⊢
      rw [ih hrun]
      constructor
      · rintro ⟨hfirst, hrest⟩ now' ctx' submission' hmem
        rcases List.mem_cons.mp hmem with heq | hmem
        · obtain ⟨rfl, rfl, rfl⟩ := Event.request.inj heq
          by_contra hlate
          have hgood := hfirst _ _ _ _ rfl hfetch (by rw [husable, decide_eq_false hlate])
          rw [hdata, hfailed] at hgood
          simp at hgood
        · exact hrest _ _ _ hmem
      · intro hall
        refine ⟨fun now' ctx' submission' fetched' heq hfetch' hnone => ?_,
          fun _ _ _ hmem => hall _ _ _ (List.mem_cons_of_mem _ hmem)⟩
        obtain ⟨rfl, rfl, rfl⟩ := Event.request.inj heq
        obtain rfl := Option.some.inj (hfetch.symm.trans hfetch')
        rw [husable, decide_eq_true (hall _ _ _ List.mem_cons_self)] at hnone
        cases hnone
    | populated now rows => simp [step] at hstep
    | populateFailed => simp [step] at hstep

/-- Nothing but requests happens while the table is cached. -/
theorem inTime_of_populated {e : CacheEntry} (h : (run ⟨some (some e), 0⟩ events).isSome) :
    events.Pairwise InTime := by
  induction events with
  | nil => exact List.Pairwise.nil
  | cons event events ih =>
    obtain ⟨data', hstep, hrun⟩ := run_cons h
    cases event with
    | request now ctx submission =>
      obtain ⟨fetched, hfetch, rfl⟩ := Option.map_eq_some_iff.mp hstep
      rw [(fetchFromCache_some hfetch).1] at hrun
      exact List.Pairwise.cons (fun _ _ => trivial) (ih hrun)
    | populated now rows => simp [step] at hstep
    | populateFailed => simp [step] at hstep

/-- The first call creates the cache and submits the query, and the submission is either in flight or
failed, with no cache left. -/
theorem fetchFromCache_none {now : ℕ} {ctx : MultipleQueryCtx} {submission : Submission}
    {fetched : Fetched} (h : fetchFromCache now ⟨none, 0⟩ ctx submission = some fetched) :
    Repopulates fetched ∧ Unpopulated fetched.data := by
  obtain rfl := Option.some.inj h
  cases submission with
  | accepted => exact ⟨fun _ => Or.inl Nat.one_pos, Or.inr rfl⟩
  | failed => exact ⟨fun _ => Or.inr rfl, Or.inl rfl⟩
  | refused => exact ⟨fun _ => Or.inr rfl, Or.inl rfl⟩

/-- A request before the table is cached. -/
theorem Unpopulated.request {now : ℕ} {ctx : MultipleQueryCtx} {submission : Submission}
    {fetched : Fetched} (h : Unpopulated data)
    (hfetch : fetchFromCache now data ctx submission = some fetched) :
    Repopulates fetched ∧ Unpopulated fetched.data := by
  rcases h with rfl | rfl
  · exact fetchFromCache_none hfetch
  · obtain ⟨hdata, -, -⟩ := fetchFromCache_some hfetch
    rw [Repopulates, hdata]
    exact ⟨fun _ => Or.inl Nat.one_pos, Or.inr rfl⟩

/-- In every run of a thread, each request that finds no entry sees to its repopulation if and only if
no request comes when a table that was set is not fresh any more. -/
theorem alwaysRepopulates_iff (h : Unpopulated data) (hrun : (run data events).isSome) :
    AlwaysRepopulates data events ↔ events.Pairwise InTime := by
  induction events generalizing data with
  | nil => simp [AlwaysRepopulates]
  | cons event events ih =>
    obtain ⟨data', hstep, hrun'⟩ := run_cons hrun
    rw [alwaysRepopulates_cons hstep, List.pairwise_cons]
    cases event with
    | request now ctx submission =>
      obtain ⟨fetched, hfetch, rfl⟩ := Option.map_eq_some_iff.mp hstep
      rw [ih (h.request hfetch).2 hrun']
      refine and_congr_left fun _ => iff_of_true ?_ fun _ _ => trivial
      intro now' ctx' submission' fetched' heq hfetch'
      obtain ⟨rfl, rfl, rfl⟩ := Event.request.inj heq
      exact (h.request hfetch').1
    | populated now rows =>
      rcases h with rfl | rfl
      · simp [step] at hstep
      · have hdata : data' = ⟨some (some ⟨now, fillTable rows⟩), 0⟩ := by
          simp only [step] at hstep
          split at hstep
          · cases hstep
          · split at hstep
            · exact (Option.some.inj hstep).symm
            · cases hstep
        subst hdata
        rw [alwaysRepopulates_populated hrun']
        constructor
        · rintro ⟨-, hall⟩
          refine ⟨fun later hmem => ?_, inTime_of_populated hrun'⟩
          cases later with
          | request now' ctx submission => exact hall now' ctx submission hmem
          | populated => trivial
          | populateFailed => trivial
        · rintro ⟨hall, -⟩
          exact ⟨fun _ _ _ _ heq => (nomatch heq), fun now' ctx submission hmem => hall _ hmem⟩
    | populateFailed =>
      rcases h with rfl | rfl
      · simp [step] at hstep
      · have hdata : data' = ⟨none, 0⟩ := (Option.some.inj hstep).symm
        subst hdata
        rw [ih (Or.inl rfl) hrun']
        exact and_congr_left fun _ => iff_of_true (fun _ _ _ _ heq => nomatch heq) fun _ _ => trivial

/-- On a thread from its start, each request that finds no entry sees to its repopulation if and only
if no request comes when a table that was set is not fresh any more. -/
theorem repopulates_iff_inTime {events : List Event} (hrun : (run {} events).isSome) :
    AlwaysRepopulates {} events ↔ events.Pairwise InTime :=
  alwaysRepopulates_iff (Or.inl rfl) hrun

/-- A request for one id. -/
def requestOne (now : ℕ) : Event :=
  .request now ⟨false, [], 1, 0, 0, false, true, false, false, [⟨1, 0⟩]⟩ .accepted

theorem repopulates_iff_inTime_one : AlwaysRepopulates {} [requestOne 0, .populated 5 [⟨1, 7⟩], requestOne 9] ↔
    [requestOne 0, .populated 5 [⟨1, 7⟩], requestOne 9].Pairwise InTime :=
  repopulates_iff_inTime (by rfl)

/-- An hour after the table was set, a request finds no entry and starts no query. -/
theorem never_repopulated :
    ¬AlwaysRepopulates {} [requestOne 0, .populated 5 [⟨1, 7⟩], requestOne 3600005] := by
  intro h
  have hlast := (((h.2 _ rfl).2 _ rfl).1 _ _ _ _ rfl rfl) rfl
  simp at hlast

end FrameworkBenchmarks.H2o.WorldCache
