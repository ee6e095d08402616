import FrameworkBenchmarks.Mormot.AsyncWorld

/-!
# Responses to asynchronous world requests

Each event moves one request on and leaves the others as they are.
-/

namespace FrameworkBenchmarks.Mormot.Async

open Common

section Steps

variable {s s' : Server} {request context count : ℕ} {kind : Kind} {rows : List (Option World)}

theorem length_collected (rows : List (Option World)) : (collected rows).length = rows.length :=
  List.length_map _

/-- The next row takes the place of the first record that is still empty. -/
theorem stored_collected (h : rows.length < count) (row : Option World) :
    Server.stored (collected rows ++ List.replicate (count - rows.length) ⟨0, 0⟩) rows.length row =
      collected (rows ++ [row]) ++ List.replicate (count - (rows ++ [row]).length) ⟨0, 0⟩ := by
  have hsplit : List.replicate (count - rows.length) (⟨0, 0⟩ : World) =
      ⟨0, 0⟩ :: List.replicate (count - (rows.length + 1)) ⟨0, 0⟩ := by
    rw [← List.replicate_succ]
    congr 1
    omega
  have hconcat : collected (rows ++ [row]) = collected rows ++ [row.getD ⟨0, 0⟩] := by
    simp [collected]
  rw [hsplit, hconcat, List.length_append, List.length_singleton]
  cases row with
  | none => simp [Server.stored]
  | some world => simp [Server.stored, ← length_collected rows]

theorem view_eq_iff {v : View} : s.view request = v ↔ s.worlds request = v.world ∧
    s.pending.filter (fun statement => statement.request = request) = v.pending ∧
    s.unsent request = v.unsent ∧ s.rows request = v.rows ∧ s.executed request = v.executed ∧
    s.responses request = v.responses := by
  cases v
  exact View.mk.injEq .. ▸ Iff.rfl

theorem Progress.view {v : View} (h : Progress request context kind v)
    (hview : s.worlds request = v.world ∧
      s.pending.filter (fun statement => statement.request = request) = v.pending ∧
      s.unsent request = v.unsent ∧ s.rows request = v.rows ∧ s.executed request = v.executed ∧
      s.responses request = v.responses) : Progress request context kind (s.view request) := by
  rw [view_eq_iff.mpr hview]
  exact h

/-- What does not concern a request leaves it as it is. -/
theorem view_eq (hworlds : s'.worlds request = s.worlds request)
    (hpending : s'.pending.filter (fun statement => statement.request = request) =
      s.pending.filter fun statement => statement.request = request)
    (hunsent : s'.unsent request = s.unsent request) (hrows : s'.rows request = s.rows request)
    (hexecuted : s'.executed request = s.executed request)
    (hresponses : s'.responses request = s.responses request) :
    s'.view request = s.view request := by
  rw [Server.view, Server.view, hworlds, hpending, hunsent, hrows, hexecuted, hresponses]

theorem filter_concat_of_ne (statement : Statement) (h : statement.request ≠ request)
    (pending : List Statement) :
    (pending ++ [statement]).filter (fun statement => statement.request = request) =
      pending.filter fun statement => statement.request = request := by
  simp [h]

theorem filter_concat_self (statement : Statement) (h : statement.request = request)
    (pending : List Statement) :
    (pending ++ [statement]).filter (fun statement => statement.request = request) =
      pending.filter (fun statement => statement.request = request) ++ [statement] := by
  simp [h]

/-- A request that is known moves on. -/
theorem Served.move (h : Served s) (hrequests : s'.requests = s.requests)
    (hothers : ∀ other, other ≠ request → s'.view other = s.view other)
    (hknown : s.requests[request]? = some (context, kind))
    (hprogress : Progress request context kind (s'.view request))
    (hlock : ∀ owner n, s'.lock = some (owner, n) → 0 < n) : Served s' where
  progress other c k hother := by
    rw [hrequests] at hother
    by_cases hsame : other = request
    · subst hsame
      rw [hknown] at hother
      cases hother
      exact hprogress
    · rw [hothers other hsame]
      exact h.progress other c k hother
  blank other hother := by
    rw [hrequests] at hother
    have hne : other ≠ request := by
      rintro rfl
      rw [List.getElem?_eq_none hother] at hknown
      cases hknown
    rw [hothers other hne]
    exact h.blank other hother
  lock := hlock

/-- A request comes. -/
theorem Served.add (h : Served s) (hrequests : s'.requests = s.requests ++ [(context, kind)])
    (hothers : ∀ other, other ≠ s.requests.length → s'.view other = s.view other)
    (hprogress : Progress s.requests.length context kind (s'.view s.requests.length))
    (hlock : ∀ owner n, s'.lock = some (owner, n) → 0 < n) : Served s' where
  progress other c k hother := by
    rw [hrequests] at hother
    by_cases hsame : other = s.requests.length
    · subst hsame
      rw [List.getElem?_concat_length] at hother
      cases hother
      exact hprogress
    · rw [hothers other hsame]
      rcases Nat.lt_or_gt_of_ne hsame with hlt | hgt
      · rw [List.getElem?_append_left hlt] at hother
        exact h.progress other c k hother
      · rw [List.getElem?_eq_none (by rw [List.length_append]; exact hgt)] at hother
        cases hother
  blank other hother := by
    rw [hrequests, List.length_append] at hother
    have hlt : s.requests.length < other := hother
    rw [hothers other (by omega)]
    exact h.blank other hlt.le
  lock := hlock

theorem Served.asyncdb (h : Served s) (context id : ℕ) (hlock : s.lock = none) :
    ∃ s', s.next (.asyncdb context id) = some s' ∧ Served s' := by
  obtain ⟨hworld, hpending, -, hrows, hexecuted, hresponses⟩ :=
    view_eq_iff.mp (h.blank s.requests.length le_rfl)
  refine ⟨_, rfl, h.add rfl (fun other hother => ?_)
    ((Progress.asking id).view ⟨hworld, ?_, ?_, hrows, hexecuted, hresponses⟩) h.lock⟩
  · exact view_eq rfl (filter_concat_of_ne (.asyncdb _ context id) (Ne.symm hother) _) rfl rfl rfl
      rfl
  · exact (filter_concat_self (.asyncdb _ context id) rfl _).trans (congrArg (· ++ _) hpending)
  · simp only [Server.unsent, hlock]

/-- A request for worlds takes the lock. -/
theorem Served.queries (h : Served s) (context : ℕ) {count : ℕ} (update : Bool)
    (hlock : s.lock = none) (hcount : 0 < count) : Served (s.queries context count update) := by
  obtain ⟨-, hpending, -, hrows, hexecuted, hresponses⟩ :=
    view_eq_iff.mp (h.blank s.requests.length le_rfl)
  refine h.add rfl (fun other hother => ?_) ((Progress.reading update count [] count []
    (fun statement hmem => absurd hmem List.not_mem_nil) (by simp) hcount).view
    ⟨?_, hpending, ?_, hrows, hexecuted, hresponses⟩) ?_
  · refine view_eq (PartialMap.insert_of_ne _ _ hother) rfl ?_ rfl rfl rfl
    simp only [Server.unsent, Server.queries, hlock, if_neg (Ne.symm hother)]
  · exact PartialMap.insert_self _ _ _
  · simp only [Server.unsent, Server.queries, if_true]
  · intro owner n hsome
    cases hsome
    exact hcount

/-- A request that asks for something is known. -/
theorem Served.known (h : Served s) (request : ℕ) (hview : s.view request ≠ .blank) :
    ∃ context kind, s.requests[request]? = some (context, kind) ∧
      Progress request context kind (s.view request) := by
  cases hknown : s.requests[request]? with
  | none => exact absurd (h.blank request (List.getElem?_eq_none_iff.mp hknown)) hview
  | some r => exact ⟨r.1, r.2, rfl, h.progress request r.1 r.2 hknown⟩

theorem Served.send (h : Served s) (id : ℕ) (hlock : s.lock ≠ none) :
    ∃ s', s.next (.send id) = some s' ∧ Served s' := by
  obtain ⟨⟨owner, n⟩, howner⟩ := Option.ne_none_iff_exists'.mp hlock
  obtain ⟨n, rfl⟩ : ∃ m, n = m + 1 := Nat.exists_eq_add_one.mpr (h.lock owner n howner)
  have hunsent : s.unsent owner = n + 1 := by simp only [Server.unsent, howner, if_true]
  obtain ⟨context, kind, hknown, hprogress⟩ := h.known owner fun hblank => by
    have hzero := (view_eq_iff.mp hblank).2.2.1
    rw [hunsent] at hzero
    cases hzero
  generalize hview : s.view owner = v at hprogress
  obtain ⟨hworld, hpending, hleft, hrows, hexecuted, hresponses⟩ := view_eq_iff.mp hview
  rw [hunsent] at hleft
  cases hprogress with
  | reading update count pending unsent rows hselects hcount hopen =>
    obtain rfl : n + 1 = unsent := hleft
    have hnext : s.next (.send id) = some { s with
        lock := if n = 0 then none else some (owner, n)
        pending := s.pending ++ [.select owner context id] } := by
      simp only [Server.next, howner, hworld, Option.map_some]
    refine ⟨_, hnext, ?_⟩
    refine h.move rfl (fun other hother => ?_) hknown ((Progress.reading update count
      (pending ++ [.select owner context id]) n rows ?_ ?_ hopen).view
      ⟨hworld, ?_, ?_, hrows, hexecuted, hresponses⟩) ?_
    · refine view_eq rfl (filter_concat_of_ne (.select _ context id) (Ne.symm hother) _) ?_ rfl rfl
        rfl
      simp only [Server.unsent, howner, if_neg (Ne.symm hother)]
      split
      · rename_i heq
        split at heq
        · cases heq
        · cases heq
          rw [if_neg (Ne.symm hother)]
      · rfl
    · intro statement hmem
      rcases List.mem_append.mp hmem with hmem | hmem
      · exact hselects statement hmem
      · exact ⟨id, List.mem_singleton.mp hmem⟩
    · rw [List.length_append, List.length_singleton]
      omega
    · exact (filter_concat_self (.select _ context id) rfl _).trans (congrArg (· ++ _) hpending)
    · simp only [Server.unsent]
      split
      · rename_i heq
        split at heq
        · cases heq
        · cases heq
          rw [if_pos rfl]
      · rename_i heq
        split at heq
        · symm
          assumption
        · cases heq
    · intro owner' n' hsome
      split at hsome
      · cases hsome
      · cases hsome
        omega
  | updating rows res hres => cases hleft
  | asking id => cases hleft
  | done kind rows executed response hanswered => cases hleft

theorem filter_cons_of_ne (statement : Statement) (h : statement.request ≠ request)
    (pending : List Statement) :
    (statement :: pending).filter (fun statement => statement.request = request) =
      pending.filter fun statement => statement.request = request := by
  simp [h]

theorem filter_cons_self (statement : Statement) (h : statement.request = request)
    (pending : List Statement) :
    (statement :: pending).filter (fun statement => statement.request = request) =
      statement :: pending.filter fun statement => statement.request = request := by
  simp [h]

/-- The first statement is of a request that waits for it. -/
theorem Served.head (h : Served s) {statement : Statement} {rest : List Statement}
    (hpending : s.pending = statement :: rest) : ∃ context kind v,
      s.requests[statement.request]? = some (context, kind) ∧
        Progress statement.request context kind v ∧ s.view statement.request = v ∧
        v.pending = statement :: rest.filter fun other => other.request = statement.request := by
  have hself : (s.view statement.request).pending =
      statement :: rest.filter fun other => other.request = statement.request :=
    (congrArg _ hpending).trans (filter_cons_self statement rfl rest)
  obtain ⟨context, kind, hknown, hprogress⟩ := h.known statement.request fun hblank => by
    rw [hblank] at hself
    cases hself
  exact ⟨context, kind, _, hknown, hprogress, rfl, hself⟩

/-- The statements of the other requests stay where they are. -/
theorem filter_rest {statement : Statement} {rest : List Statement}
    (hpending : s.pending = statement :: rest) {other : ℕ} (hother : other ≠ statement.request) :
    rest.filter (fun statement => statement.request = other) =
      s.pending.filter fun statement => statement.request = other := by
  rw [hpending, filter_cons_of_ne statement (Ne.symm hother)]

/-- The update is done. -/
theorem Served.answerUpdate (h : Served s) {params : Params} {rest : List Statement}
    (hpending : s.pending = .update request context params :: rest) (row : Option World)
    (numbers : ℕ → ℤ) : ∃ s', s.next (.answer row numbers) = some s' ∧ Served s' := by
  obtain ⟨context', kind, v, hknown, hprogress, hview, hown⟩ := h.head hpending
  obtain ⟨hworld, -, hunsent, hrows, hexecuted, hresponses⟩ := view_eq_iff.mp hview
  cases hprogress with
  | updating rows res hres =>
    obtain ⟨hstatement, hrest⟩ := List.cons.inj hown
    cases hstatement
    have hnext : s.next (.answer row numbers) = some { s with
        pending := rest
        responses := Function.update s.responses request
          (s.responses request ++ [(context, .worlds res)])
        worlds := s.worlds.erase request } := by
      simp only [request_update] at hworld
      simp only [Server.next, hpending, Server.onRes, request_update, hworld, Option.map_some,
        Server.asyncResponse]
    refine ⟨_, hnext, h.move rfl (fun other hother => ?_) hknown ((Progress.done
      (.asyncupdates rows.length) rows [paramsOf res] (.worlds res) ⟨rfl, res, hres, rfl, rfl⟩).view
      ⟨PartialMap.erase_self _ _, hrest.symm, hunsent, hrows, hexecuted, ?_⟩) h.lock⟩
    · exact view_eq (PartialMap.erase_of_ne _ hother) (filter_rest hpending hother) rfl rfl rfl
        (Function.update_of_ne hother _ _)
    · exact (Function.update_self _ _ _).trans (congrArg (· ++ _) hresponses)
  | reading update count pending unsent rows hselects hcount hopen =>
    obtain ⟨id, hid⟩ := hselects _ (hown ▸ List.mem_cons_self)
    cases hid
  | asking id => cases (List.cons.inj hown).1
  | done kind rows executed response hanswered => cases hown

theorem Served.answerAsyncdb (h : Served s) {id : ℕ} {rest : List Statement}
    (hpending : s.pending = .asyncdb request context id :: rest) (row : Option World)
    (numbers : ℕ → ℤ) : ∃ s', s.next (.answer row numbers) = some s' ∧ Served s' := by
  obtain ⟨context', kind, v, hknown, hprogress, hview, hown⟩ := h.head hpending
  obtain ⟨hworld, -, hunsent, hrows, hexecuted, hresponses⟩ := view_eq_iff.mp hview
  cases hprogress with
  | asking id' =>
    obtain ⟨hstatement, hrest⟩ := List.cons.inj hown
    cases hstatement
    have hnext : s.next (.answer row numbers) = some (Server.onAsyncDb { s with
        pending := rest
        rows := Function.update s.rows request (s.rows request ++ [row]) } request context
        row) := by
      simp only [Server.next, hpending, request_asyncdb]
    refine ⟨_, hnext, h.move rfl (fun other hother => ?_) hknown ((Progress.done .asyncdb [row] [] _
      ⟨rfl, row, rfl, rfl⟩).view ⟨hworld, hrest.symm, hunsent, ?_, hexecuted, ?_⟩) h.lock⟩
    · exact view_eq rfl (filter_rest hpending hother) rfl (Function.update_of_ne hother _ _) rfl
        (Function.update_of_ne hother _ _)
    · exact (Function.update_self _ _ _).trans (congrArg (· ++ _) hrows)
    · exact (Function.update_self _ _ _).trans (congrArg (· ++ _) hresponses)
  | reading update count pending unsent rows hselects hcount hopen =>
    obtain ⟨id, hid⟩ := hselects _ (hown ▸ List.mem_cons_self)
    cases hid
  | updating rows res hres => cases (List.cons.inj hown).1
  | done kind rows executed response hanswered => cases hown

/-- The random numbers that are drawn do not change the ids. -/
theorem map_id_mapIdx (res : List World) (numbers : ℕ → ℤ) :
    (res.mapIdx fun i (world : World) => { world with randomNumber := numbers i }).map World.id =
      res.map World.id := by
  apply List.ext_getElem
  · simp
  · intro i hi hi'
    simp

/-- A row comes, or something else instead of it. -/
theorem Served.answerSelect (h : Served s) {id : ℕ} {rest : List Statement}
    (hpending : s.pending = .select request context id :: rest) (row : Option World)
    (numbers : ℕ → ℤ) : ∃ s', s.next (.answer row numbers) = some s' ∧ Served s' := by
  obtain ⟨context', kind, v, hknown, hprogress, hview, hown⟩ := h.head hpending
  obtain ⟨hworld, -, hunsent, hrows, hexecuted, hresponses⟩ := view_eq_iff.mp hview
  cases hprogress with
  | reading update count pending unsent rows hselects hcount hopen =>
    obtain ⟨id', hid⟩ := hselects _ (hown ▸ List.mem_cons_self)
    cases hid
    simp only [request_select] at hworld hown hrows hresponses hexecuted hunsent
    have hlength : (rows ++ [row]).length = rows.length + 1 := by simp
    have hrest :
        pending.length = (rest.filter fun other => other.request = request).length + 1 := by
      rw [hown]
      rfl
    let res := collected (rows ++ [row]) ++ List.replicate (count - (rows ++ [row]).length) ⟨0, 0⟩
    let w : AsyncWorld := ⟨context, res, count, rows.length + 1, update⟩
    let s₁ : Server := { s with
      pending := rest
      rows := Function.update s.rows request (rows ++ [row])
      worlds := s.worlds.insert request w }
    have hothers : ∀ other, other ≠ request → s₁.view other = s.view other := fun other hother =>
      view_eq (PartialMap.insert_of_ne _ _ hother) (filter_rest hpending hother) rfl
        (Function.update_of_ne hother _ _) rfl rfl
    have hstep : s.next (.answer row numbers) =
        if rows.length + 1 = count then
          if update then s₁.doUpdates request numbers else s₁.onRes request context
        else some s₁ := by
      have hroom : rows.length < (collected rows ++
          List.replicate (count - rows.length) (⟨0, 0⟩ : World)).length := by
        rw [List.length_append, length_collected, List.length_replicate]
        omega
      simp only [Server.next, hpending, Server.onQueries, request_select, hworld, hrows,
        Option.bind_some, if_pos hroom]
      rw [stored_collected hopen row]
    by_cases hlast : rows.length + 1 = count
    · have hdone : rest.filter (fun other => other.request = request) = [] ∧ unsent = 0 := by
        rw [← List.length_eq_zero_iff]
        omega
      have hres : res = collected (rows ++ [row]) := by
        simp only [res, hlength, hlast, Nat.sub_self, List.replicate_zero, List.append_nil]
      rw [if_pos hlast] at hstep
      have hworld₁ : s₁.worlds request = some w := PartialMap.insert_self _ _ _
      cases update with
      | true =>
        let numbered := res.mapIdx fun i world => ({ world with randomNumber := numbers i } : World)
        have hids : numbered.map World.id = (collected (rows ++ [row])).map World.id := by
          rw [← hres]
          exact map_id_mapIdx res numbers
        have hnext : s.next (.answer row numbers) = some { s₁ with
            worlds := s₁.worlds.insert request { w with res := numbered }
            bound := paramsOf numbered
            pending := rest ++ [.update request context (paramsOf numbered)]
            executed := Function.update s.executed request
              (s.executed request ++ [paramsOf numbered]) } := by
          rw [hstep, if_pos rfl, Server.doUpdates, hworld₁, Option.map_some]
          rfl
        refine ⟨_, hnext, h.move rfl (fun other hother => ?_) hknown ?_ h.lock⟩
        · refine Eq.trans ?_ (hothers other hother)
          exact view_eq (PartialMap.insert_of_ne _ _ hother)
            (filter_concat_of_ne (.update request context (paramsOf numbered)) (Ne.symm hother)
              rest) rfl rfl (Function.update_of_ne hother _ _) rfl
        · have hprogress : Progress request context _ _ := .updating
            (rows ++ [row]) numbered hids
          rw [hlength, hlast] at hprogress
          refine hprogress.view ⟨?_, ?_, hunsent.trans hdone.2, Function.update_self _ _ _, ?_,
            hresponses⟩
          · simp only [PartialMap.insert_self, w, hlast]
          · exact (filter_concat_self (.update request context (paramsOf numbered)) rfl rest).trans
              (congrArg (· ++ _) hdone.1)
          · exact (Function.update_self _ _ _).trans (congrArg (· ++ _) hexecuted)
      | false =>
        have hnext : s.next (.answer row numbers) = some
            { s₁.asyncResponse request context (.worlds res) with worlds := s₁.worlds.erase request } := by
          rw [hstep, if_neg (by decide), Server.onRes, hworld₁, Option.map_some]
        refine ⟨_, hnext, h.move rfl (fun other hother => ?_) hknown ((Progress.done
          (.asyncqueries count) (rows ++ [row]) [] (.worlds res)
          ⟨hlength.trans hlast, rfl, congrArg _ hres⟩).view ⟨PartialMap.erase_self _ _, hdone.1,
            hunsent.trans hdone.2, Function.update_self _ _ _, hexecuted, ?_⟩) h.lock⟩
        · refine Eq.trans ?_ (hothers other hother)
          exact view_eq (PartialMap.erase_of_ne _ hother) rfl rfl rfl rfl
            (Function.update_of_ne hother _ _)
        · exact (Function.update_self _ _ _).trans (congrArg (· ++ _) hresponses)
    · rw [if_neg hlast] at hstep
      have hprogress : Progress request context _ _ := .reading update count
        (rest.filter fun other => other.request = request) unsent (rows ++ [row])
        (fun statement hmem => hselects statement (hown ▸ List.mem_cons_of_mem _ hmem)) (by omega)
        (by omega)
      refine ⟨s₁, hstep, h.move rfl hothers hknown (hprogress.view ⟨?_, rfl, hunsent,
        Function.update_self _ _ _, hexecuted, hresponses⟩) h.lock⟩
      simp only [s₁, PartialMap.insert_self, w, hlength, res]
  | updating rows res hres => cases (List.cons.inj hown).1
  | asking id => cases (List.cons.inj hown).1
  | done kind rows executed response hanswered => cases hown

theorem Served.step (h : Served s) {e : Event} (hallowed : s.Allowed e) :
    ∃ s', s.next e = some s' ∧ Served s' := by
  cases e with
  | asyncdb context id => exact h.asyncdb context id hallowed
  | asyncqueries context count =>
    exact ⟨_, rfl, h.queries context false hallowed.1 hallowed.2⟩
  | asyncupdates context count =>
    exact ⟨_, rfl, h.queries context true hallowed.1 hallowed.2⟩
  | send id => exact h.send id hallowed
  | answer row numbers =>
    obtain ⟨statement, rest, hpending⟩ := List.exists_cons_of_ne_nil hallowed
    cases statement with
    | select request context id => exact h.answerSelect hpending row numbers
    | update request context params => exact h.answerUpdate hpending row numbers
    | asyncdb request context id => exact h.answerAsyncdb hpending row numbers

theorem served_start : Served .start where
  progress request context kind hknown := by cases hknown
  blank request _ := rfl
  lock owner n hsome := by cases hsome

/-- What the clients and the heap can rely on between two events. -/
structure Guarantees (s : Server) : Prop where
  /-- no callback comes to an object that is freed, and no row finds no place -/
  proceeds : ∀ e, s.Allowed e → (s.next e).isSome
  /-- a request is answered at most once, on its own connection, with its own rows and numbers, and
  its object is gone then -/
  answered : ∀ request response, response ∈ s.responses request → ∃ context kind,
    s.requests[request]? = some (context, kind) ∧ s.responses request = [response] ∧
      response.1 = context ∧ Answered (s.rows request) (s.executed request) kind response.2 ∧
      s.worlds request = none
  /-- a request that was not answered still has something on its way or to be sent -/
  waiting : ∀ request context kind, s.requests[request]? = some (context, kind) →
    s.responses request = [] →
      (∃ statement ∈ s.pending, statement.request = request) ∨ ∃ n, s.lock = some (request, n)

theorem Served.guarantees (h : Served s) : Guarantees s where
  proceeds e hallowed := by
    obtain ⟨s', hnext, -⟩ := h.step hallowed
    rw [hnext]
    rfl
  answered request response hmem := by
    obtain ⟨context, kind, hknown, hprogress⟩ := h.known request fun hblank => by
      rw [(view_eq_iff.mp hblank).2.2.2.2.2] at hmem
      cases hmem
    generalize hview : s.view request = v at hprogress
    obtain ⟨hworld, -, -, hrows, hexecuted, hresponses⟩ := view_eq_iff.mp hview
    rw [hresponses] at hmem
    cases hprogress with
    | done kind rows executed response' hanswered =>
      obtain rfl := List.mem_singleton.mp hmem
      refine ⟨context, kind, hknown, hresponses, rfl, ?_, hworld⟩
      rw [hrows, hexecuted]
      exact hanswered
    | reading => cases hmem
    | updating => cases hmem
    | asking => cases hmem
  waiting request context kind hknown hnone := by
    have hprogress := h.progress request context kind hknown
    generalize hview : s.view request = v at hprogress
    obtain ⟨-, hpending, hunsent, -, -, hresponses⟩ := view_eq_iff.mp hview
    have hfirst : ∀ statement, statement ∈ v.pending →
        ∃ statement ∈ s.pending, statement.request = request := by
      intro statement hmem
      rw [← hpending, List.mem_filter] at hmem
      exact ⟨statement, hmem.1, of_decide_eq_true hmem.2⟩
    cases hprogress with
    | reading update count pending unsent rows hselects hcount hopen =>
      cases pending with
      | cons statement pending => exact .inl (hfirst statement List.mem_cons_self)
      | nil =>
        have hleft : s.unsent request ≠ 0 := by
          intro hzero
          have hunsent : unsent = 0 := hunsent.symm.trans hzero
          rw [hunsent, List.length_nil] at hcount
          omega
        cases hlock : s.lock with
        | none => exact absurd (by simp only [Server.unsent, hlock]) hleft
        | some lock =>
          by_cases howner : lock.1 = request
          · exact .inr ⟨lock.2, by rw [← howner]⟩
          · exact absurd (by simp only [Server.unsent, hlock, if_neg howner]) hleft
    | updating rows res hres => exact .inl (hfirst _ List.mem_cons_self)
    | asking id => exact .inl (hfirst _ List.mem_cons_self)
    | done kind rows executed response hanswered =>
      rw [hnone] at hresponses
      cases hresponses

/-- In every order of requests, selects and results, each request gets one response, on its own
connection and after everything that it asked for, with its own rows and the numbers that were
stored; its object is freed then, and never used again. -/
theorem async_requests_answered {events : List Event}
    (hrun : GuardedRun Server.next Server.Allowed .start events s) : Guarantees s :=
  (hrun.invariant (I := Served) (fun s e s' hs hallowed hnext => by
    obtain ⟨s'', hnext', hs''⟩ := hs.step hallowed
    rw [hnext] at hnext'
    cases hnext'
    exact hs'') served_start).guarantees

/-- An update and a query whose second row does not come, one within the other. -/
theorem async_requests_answered_sample : ∃ s : Server,
    s.responses 0 = [(8, .worlds [⟨5, 70⟩])] ∧ s.executed 0 = [([5], [70])] ∧
      s.responses 1 = [(9, .worlds [⟨3, 1⟩, ⟨0, 0⟩])] ∧ Guarantees s := by
  obtain ⟨s, hrun, h₀, hexecuted, h₁⟩ : ∃ s : Server,
      GuardedRun Server.next Server.Allowed .start
        [.asyncupdates 8 1, .send 5, .asyncqueries 9 2, .send 3, .answer (some ⟨5, 2⟩) fun _ => 70,
          .send 4, .answer (some ⟨3, 1⟩) fun _ => 0, .answer none fun _ => 0,
          .answer none fun _ => 0] s ∧
      s.responses 0 = [(8, .worlds [⟨5, 70⟩])] ∧ s.executed 0 = [([5], [70])] ∧
      s.responses 1 = [(9, .worlds [⟨3, 1⟩, ⟨0, 0⟩])] := by
    exact ⟨_, (guardedRun_of_execGuarded rfl).mono fun s e => of_decide_eq_true, rfl, rfl, rfl⟩
  exact ⟨s, h₀, hexecuted, h₁, async_requests_answered hrun⟩

end Steps

end FrameworkBenchmarks.Mormot.Async
