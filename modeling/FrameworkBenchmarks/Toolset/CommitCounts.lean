import FrameworkBenchmarks.Common.GuardedRun
import FrameworkBenchmarks.Common.PartialMap

/-!
# Counting commits in threads

`Results.__count_commits` starts a thread for each framework and joins the oldest one when there are
four. A thread stores its count under the loop variable `framework`, which belongs to the enclosing
function: it is read when the thread is done. What the git command returns for a directory is a
parameter.
-/

namespace FrameworkBenchmarks.Toolset

open Common

/-- A thread of `count_commit`. The function is not told for which framework it was started. -/
structure CountThread where
  startedFor : String
  directory : String
deriving DecidableEq

/-- Where the main thread stands. -/
inductive CountPoint where
  /-- before the next item of `frameworks.items()` -/
  | loop
  /-- the loop variables are bound, the thread is not started yet -/
  | body (directory : String)
  /-- `threads[0].join()`, with four threads in the list -/
  | join
  /-- the loop that waits for the remaining threads -/
  | joinAll (remaining : List CountThread)
  | finished
deriving DecidableEq

/-- The variables of `__count_commits`, and the threads that have not ended. -/
structure CountCommits where
  todo : List CountThread
  framework : Option String
  point : CountPoint
  threads : List CountThread
  running : List CountThread
  jsonResult : PartialMap String ℕ

/-- What happens next: the main thread goes on, or a thread ends. -/
inductive CountStep where
  | main
  | complete (t : CountThread)

/-- The items of the dictionary `frameworks`, with the directory of their first test. -/
def CountCommits.init (frameworks : List CountThread) : CountCommits where
  todo := frameworks
  framework := none
  point := .loop
  threads := []
  running := []
  jsonResult := .empty

namespace CountCommits

/-- A step of the main thread; a join waits until the thread has ended. -/
def main (s : CountCommits) : Option CountCommits :=
  match s.point with
  | .loop =>
    match s.todo with
    | [] => some { s with point := .joinAll s.threads }
    | item :: todo =>
      some { s with todo := todo, framework := some item.startedFor, point := .body item.directory }
  | .body directory =>
    match s.framework with
    | none => none
    | some framework =>
      let t : CountThread := ⟨framework, directory⟩
      let threads := s.threads ++ [t]
      some { s with
        running := t :: s.running
        threads := threads
        point := if threads.length ≥ 4 then .join else .loop }
  | .join =>
    match s.threads with
    | [] => none
    | t :: threads => if t ∈ s.running then none else some { s with threads := threads, point := .loop }
  | .joinAll [] => some { s with point := .finished }
  | .joinAll (t :: remaining) =>
    if t ∈ s.running then none else some { s with point := .joinAll remaining }
  | .finished => none

/-- `count_commit`: the result of the command is stored if there is one. -/
def countCommit (commitCount : String → Option ℕ) (s : CountCommits) (t : CountThread) :
    Option CountCommits :=
  if t ∈ s.running then
    match commitCount t.directory with
    | none => some { s with running := s.running.erase t }
    | some n =>
      match s.framework with
      | none => none
      | some framework =>
        some { s with running := s.running.erase t, jsonResult := s.jsonResult.insert framework n }
  else none

/-- A step of the program. -/
def next (commitCount : String → Option ℕ) (s : CountCommits) : CountStep → Option CountCommits
  | .main => s.main
  | .complete t => s.countCommit commitCount t

end CountCommits

/-- Every framework whose command succeeds has the count of its own directory. -/
def Attributed (commitCount : String → Option ℕ) (frameworks : List CountThread)
    (jsonResult : PartialMap String ℕ) : Prop :=
  ∀ t ∈ frameworks, ∀ n, commitCount t.directory = some n → jsonResult t.startedFor = some n

/-- A thread that has a count to store ends before the loop goes on to another framework. -/
def OnTime (commitCount : String → Option ℕ) (s : CountCommits) : CountStep → Prop
  | .main => True
  | .complete t => commitCount t.directory ≠ none → s.framework = some t.startedFor

namespace CountCommits

variable {commitCount : String → Option ℕ} {frameworks : List CountThread} {s s' : CountCommits}

/-- What is not started yet. -/
def unstarted (s : CountCommits) : List CountThread :=
  match s.point, s.framework with
  | .body directory, some framework => ⟨framework, directory⟩ :: s.todo
  | _, _ => s.todo

/-- What the main thread still waits for. -/
def toJoin (s : CountCommits) : List CountThread :=
  match s.point with
  | .joinAll remaining => remaining
  | .finished => []
  | _ => s.threads

/-- So far every thread that has ended has stored its count under its own framework. -/
structure Punctual (commitCount : String → Option ℕ) (frameworks : List CountThread)
    (s : CountCommits) : Prop where
  started : ∃ started, frameworks = started ++ s.unstarted ∧
    (∀ t ∈ s.running, t ∈ started) ∧
    ∀ t ∈ started, t ∉ s.running → s.jsonResult t.startedFor = commitCount t.directory
  /-- an item is bound while its thread is not started -/
  bound : ∀ directory, s.point = .body directory → s.framework ≠ none
  nodup : s.running.Nodup
  awaited : ∀ t ∈ s.running, t ∈ s.toJoin
  todo : ∀ n, s.point = .joinAll n ∨ s.point = .finished → s.todo = []
  untouched : ∀ t, t ∈ s.running ∨ t ∈ s.unstarted → s.jsonResult t.startedFor = none

section Main

/-- Nothing has been started. -/
theorem punctual_init : Punctual commitCount frameworks (init frameworks) where
  started := ⟨[], rfl, by simp [init], by simp⟩
  bound := by simp [init]
  nodup := List.nodup_nil
  awaited := by simp [init]
  todo := by simp [init]
  untouched := fun _ _ => rfl

/-- A step that starts no thread and ends none. -/
theorem Punctual.move (h : Punctual commitCount frameworks s) (hrunning : s'.running = s.running)
    (hresult : s'.jsonResult = s.jsonResult) (hunstarted : s'.unstarted = s.unstarted)
    (hbound : ∀ directory, s'.point = .body directory → s'.framework ≠ none)
    (hawaited : ∀ t ∈ s.running, t ∈ s'.toJoin)
    (htodo : ∀ n, s'.point = .joinAll n ∨ s'.point = .finished → s'.todo = []) :
    Punctual commitCount frameworks s' := by
  refine ⟨?_, hbound, ?_, ?_, htodo, ?_⟩
  · rw [hrunning, hresult, hunstarted]
    exact h.started
  · rw [hrunning]
    exact h.nodup
  · rw [hrunning]
    exact hawaited
  · rw [hrunning, hresult, hunstarted]
    exact h.untouched

/-- A join does not concern the threads that are running. -/
theorem Punctual.mem_rest {t : CountThread} {rest : List CountThread}
    (h : Punctual commitCount frameworks s) (hjoin : s.toJoin = t :: rest) (ht : t ∉ s.running) :
    ∀ u ∈ s.running, u ∈ rest := by
  intro u hu
  have hmem := h.awaited u hu
  rw [hjoin] at hmem
  refine (List.mem_cons.mp hmem).resolve_left fun heq => ?_
  exact ht (heq ▸ hu)

/-- A thread is started once, for each framework. -/
theorem Punctual.start {t : CountThread} (h : Punctual commitCount frameworks s)
    (hkeys : (frameworks.map (·.startedFor)).Nodup) (hunstarted : s.unstarted = t :: s.todo)
    (hjoin : s.toJoin = s.threads) (hrunning : s'.running = t :: s.running)
    (hresult : s'.jsonResult = s.jsonResult) (hunstarted' : s'.unstarted = s.todo)
    (hjoin' : s'.toJoin = s.threads ++ [t])
    (hpoint : s'.point = .join ∨ s'.point = .loop) : Punctual commitCount frameworks s' := by
  obtain ⟨started, hitems, hstarted, hresults⟩ := h.started
  have hnot : t ∉ started := by
    intro hmem
    have hnodup := hkeys.of_map
    rw [hitems, hunstarted] at hnodup
    exact (List.nodup_append.mp hnodup).2.2 _ hmem _ List.mem_cons_self rfl
  refine ⟨⟨started ++ [t], ?_, ?_, ?_⟩, ?_, ?_, ?_, ?_, ?_⟩
  · rw [hitems, hunstarted, hunstarted', List.append_assoc, List.singleton_append]
  · intro u hu
    rw [hrunning] at hu
    rcases List.mem_cons.mp hu with rfl | hu
    · exact List.mem_append_right _ List.mem_cons_self
    · exact List.mem_append_left _ (hstarted u hu)
  · intro u hu hdone
    rw [hrunning, List.mem_cons, not_or] at hdone
    have hold := (List.mem_append.mp hu).resolve_right fun hlast => hdone.1 (List.mem_singleton.mp hlast)
    rw [hresult]
    exact hresults u hold hdone.2
  · intro directory hbody
    rcases hpoint with hjoin | hloop
    · cases hjoin.symm.trans hbody
    · cases hloop.symm.trans hbody
  · rw [hrunning]
    exact List.nodup_cons.mpr ⟨fun hmem => hnot (hstarted _ hmem), h.nodup⟩
  · intro u hu
    rw [hrunning] at hu
    rw [hjoin']
    rcases List.mem_cons.mp hu with rfl | hu
    · exact List.mem_append_right _ List.mem_cons_self
    · exact List.mem_append_left _ (hjoin ▸ h.awaited u hu)
  · intro n hn
    rcases hpoint with hjoin | hloop
    · simp [hjoin] at hn
    · simp [hloop] at hn
  · intro u hu
    rw [hresult]
    apply h.untouched
    rw [hrunning, hunstarted'] at hu
    rw [hunstarted]
    rcases hu with hrun | htodo
    · rcases List.mem_cons.mp hrun with rfl | hrun
      · exact .inr List.mem_cons_self
      · exact .inl hrun
    · exact .inr (List.mem_cons_of_mem _ htodo)

/-- The main thread changes no result. -/
theorem Punctual.main (h : Punctual commitCount frameworks s)
    (hkeys : (frameworks.map (·.startedFor)).Nodup) (hnext : s.main = some s') :
    Punctual commitCount frameworks s' := by
  rw [CountCommits.main] at hnext
  cases hpoint : s.point with
  | loop =>
    have hunstarted : s.unstarted = s.todo := by rw [unstarted, hpoint]
    have hjoin : s.toJoin = s.threads := by rw [toJoin, hpoint]
    cases htodo : s.todo with
    | nil =>
      simp only [hpoint, htodo] at hnext
      cases hnext
      exact h.move rfl rfl (hunstarted.trans htodo).symm (by simp) (fun u hu => hjoin ▸ h.awaited u hu)
        fun _ _ => rfl
    | cons item todo =>
      simp only [hpoint, htodo] at hnext
      cases hnext
      exact h.move rfl rfl (hunstarted.trans htodo).symm (by simp) (fun u hu => hjoin ▸ h.awaited u hu)
        (by simp)
  | body directory =>
    cases hframework : s.framework with
    | none => exact absurd hframework (h.bound directory hpoint)
    | some framework =>
      simp only [hpoint, hframework] at hnext
      have hunstarted : s.unstarted = ⟨framework, directory⟩ :: s.todo := by
        rw [unstarted, hpoint, hframework]
      have hjoin : s.toJoin = s.threads := by rw [toJoin, hpoint]
      cases hnext
      split
      · exact h.start hkeys hunstarted hjoin rfl rfl rfl rfl (.inl rfl)
      · exact h.start hkeys hunstarted hjoin rfl rfl rfl rfl (.inr rfl)
  | join =>
    have hunstarted : s.unstarted = s.todo := by rw [unstarted, hpoint]
    have hjoin : s.toJoin = s.threads := by rw [toJoin, hpoint]
    cases hthreads : s.threads with
    | nil =>
      simp only [hpoint, hthreads] at hnext
      cases hnext
    | cons t rest =>
      simp only [hpoint, hthreads] at hnext
      split at hnext
      · cases hnext
      · rename_i hdone
        cases hnext
        exact h.move rfl rfl hunstarted.symm (by simp) (h.mem_rest (hjoin.trans hthreads) hdone) (by simp)
  | joinAll remaining =>
    have hunstarted : s.unstarted = s.todo := by rw [unstarted, hpoint]
    have hjoin : s.toJoin = remaining := by rw [toJoin, hpoint]
    have htodo := h.todo remaining (.inl hpoint)
    cases remaining with
    | nil =>
      simp only [hpoint] at hnext
      cases hnext
      refine h.move rfl rfl hunstarted.symm (by simp) (fun u hu => ?_) fun _ _ => htodo
      have hmem := h.awaited u hu
      rw [hjoin] at hmem
      cases hmem
    | cons t remaining =>
      simp only [hpoint] at hnext
      split at hnext
      · cases hnext
      · rename_i hdone
        cases hnext
        exact h.move rfl rfl hunstarted.symm (by simp) (h.mem_rest hjoin hdone) fun _ _ => htodo
  | finished =>
    simp only [hpoint] at hnext
    cases hnext

end Main

section Complete

/-- Two different threads were started for different frameworks. -/
theorem eq_of_startedFor (hkeys : (frameworks.map (·.startedFor)).Nodup) {t u : CountThread}
    (ht : t ∈ frameworks) (hu : u ∈ frameworks) (heq : t.startedFor = u.startedFor) : t = u :=
  List.inj_on_of_nodup_map hkeys ht hu heq

/-- A thread that ends in time stores its count under its own framework. -/
theorem Punctual.complete {t : CountThread} (h : Punctual commitCount frameworks s)
    (hkeys : (frameworks.map (·.startedFor)).Nodup) (htime : OnTime commitCount s (.complete t))
    (hnext : s.countCommit commitCount t = some s') : Punctual commitCount frameworks s' := by
  obtain ⟨started, hitems, hstarted, hresults⟩ := h.started
  have hmem : ∀ u, u ∈ started ∨ u ∈ s.unstarted → u ∈ frameworks := by
    intro u hu
    rw [hitems]
    exact List.mem_append.mpr hu
  rw [countCommit] at hnext
  split at hnext
  · rename_i ht
    obtain ⟨hrunning, hown, hothers, hpoint, hframework, htodo, hthreads⟩ :
        s'.running = s.running.erase t ∧ s'.jsonResult t.startedFor = commitCount t.directory ∧
        (∀ u ∈ frameworks, u ≠ t → s'.jsonResult u.startedFor = s.jsonResult u.startedFor) ∧
        s'.point = s.point ∧ s'.framework = s.framework ∧ s'.todo = s.todo ∧
        s'.threads = s.threads := by
      cases hcount : commitCount t.directory with
      | none =>
        simp only [hcount] at hnext
        cases hnext
        exact ⟨rfl, h.untouched t (.inl ht), fun _ _ _ => rfl, rfl, rfl, rfl, rfl⟩
      | some n =>
        have hframework := htime (by simp [hcount])
        simp only [hcount, hframework] at hnext
        cases hnext
        refine ⟨rfl, by simp, fun u hu hne => ?_, rfl, hframework.symm, rfl, rfl⟩
        apply PartialMap.insert_of_ne
        intro heq
        exact hne (eq_of_startedFor hkeys hu (hmem t (.inl (hstarted t ht))) heq)
    have hunstarted : s'.unstarted = s.unstarted := by
      rw [unstarted, unstarted, hpoint, hframework, htodo]
    have hjoin : s'.toJoin = s.toJoin := by
      rw [toJoin, toJoin, hpoint, hthreads]
    refine ⟨⟨started, hunstarted ▸ hitems, ?_, ?_⟩, ?_, ?_, ?_, ?_, ?_⟩
    · intro u hu
      rw [hrunning] at hu
      exact hstarted u (List.mem_of_mem_erase hu)
    · intro u hu hdone
      by_cases heq : u = t
      · rw [heq]
        exact hown
      · rw [hothers u (hmem u (.inl hu)) heq]
        apply hresults u hu
        rw [hrunning] at hdone
        exact fun hrun => hdone ((List.mem_erase_of_ne heq).mpr hrun)
    · rw [hpoint, hframework]
      exact h.bound
    · rw [hrunning]
      exact h.nodup.erase t
    · intro u hu
      rw [hrunning] at hu
      rw [hjoin]
      exact h.awaited u (List.mem_of_mem_erase hu)
    · rw [hpoint, htodo]
      exact h.todo
    · intro u hu
      rw [hrunning, hunstarted] at hu
      have hne : u ≠ t := by
        rintro rfl
        rcases hu with hrun | hunst
        · exact h.nodup.not_mem_erase hrun
        · have hnodup := hkeys.of_map
          rw [hitems] at hnodup
          exact (List.nodup_append.mp hnodup).2.2 _ (hstarted _ ht) _ hunst rfl
      have hin : u ∈ frameworks := by
        rcases hu with hrun | hunst
        · exact hmem u (.inl (hstarted u (List.mem_of_mem_erase hrun)))
        · exact hmem u (.inr hunst)
      rw [hothers u hin hne]
      exact h.untouched u (hu.imp_left List.mem_of_mem_erase)
  · cases hnext

/-- At the end all threads have been joined. -/
theorem Punctual.attributed (h : Punctual commitCount frameworks s) (hend : s.point = .finished) :
    Attributed commitCount frameworks s.jsonResult := by
  obtain ⟨started, hitems, -, hresults⟩ := h.started
  have hjoin : s.toJoin = [] := by rw [toJoin, hend]
  have htodo := h.todo [] (.inr hend)
  intro t ht n hn
  have hstarted : t ∈ started := by
    rw [hitems, unstarted, hend, htodo, List.append_nil] at ht
    exact ht
  rw [hresults t hstarted fun hrun => ?_, hn]
  have hmem := h.awaited t hrun
  rw [hjoin] at hmem
  cases hmem

end Complete

section Late

/-- The framework of a thread has no entry and will not be bound again. -/
structure Lost (t : CountThread) (s : CountCommits) : Prop where
  framework : s.framework ≠ some t.startedFor
  todo : ∀ u ∈ s.todo, u.startedFor ≠ t.startedFor
  result : s.jsonResult t.startedFor = none

theorem Lost.main {t : CountThread} (h : Lost t s) (hnext : s.main = some s') : Lost t s' := by
  rw [CountCommits.main] at hnext
  cases hpoint : s.point with
  | loop =>
    cases htodo : s.todo with
    | nil =>
      simp only [hpoint, htodo] at hnext
      cases hnext
      exact ⟨h.framework, by simp, h.result⟩
    | cons item todo =>
      simp only [hpoint, htodo] at hnext
      cases hnext
      have hne := h.todo item (by simp [htodo])
      exact ⟨fun heq => hne (Option.some.inj heq),
        fun u hu => h.todo u (htodo ▸ List.mem_cons_of_mem _ hu), h.result⟩
  | body directory =>
    cases hframework : s.framework with
    | none =>
      simp only [hpoint, hframework] at hnext
      cases hnext
    | some framework =>
      simp only [hpoint, hframework] at hnext
      cases hnext
      exact ⟨h.framework ∘ hframework.trans, h.todo, h.result⟩
  | join =>
    cases hthreads : s.threads with
    | nil =>
      simp only [hpoint, hthreads] at hnext
      cases hnext
    | cons u rest =>
      simp only [hpoint, hthreads] at hnext
      split at hnext
      · cases hnext
      · cases hnext
        exact ⟨h.framework, h.todo, h.result⟩
  | joinAll remaining =>
    cases remaining with
    | nil =>
      simp only [hpoint] at hnext
      cases hnext
      exact ⟨h.framework, h.todo, h.result⟩
    | cons u remaining =>
      simp only [hpoint] at hnext
      split at hnext
      · cases hnext
      · cases hnext
        exact ⟨h.framework, h.todo, h.result⟩
  | finished =>
    simp only [hpoint] at hnext
    cases hnext

theorem Lost.complete {t u : CountThread} (h : Lost t s) (hnext : s.countCommit commitCount u = some s') :
    Lost t s' := by
  rw [countCommit] at hnext
  split at hnext
  · cases hcount : commitCount u.directory with
    | none =>
      simp only [hcount] at hnext
      cases hnext
      exact ⟨h.framework, h.todo, h.result⟩
    | some n =>
      cases hframework : s.framework with
      | none =>
        simp only [hcount, hframework] at hnext
        cases hnext
      | some framework =>
        simp only [hcount, hframework] at hnext
        cases hnext
        refine ⟨fun heq => h.framework (hframework.trans heq), h.todo, ?_⟩
        rw [← h.result]
        apply PartialMap.insert_of_ne
        rintro rfl
        exact h.framework hframework
  · cases hnext

/-- A thread that ends too late leaves its own framework without an entry. -/
theorem Punctual.lost {t : CountThread} (h : Punctual commitCount frameworks s)
    (hkeys : (frameworks.map (·.startedFor)).Nodup) (hlate : s.framework ≠ some t.startedFor)
    (hnext : s.countCommit commitCount t = some s') :
    t ∈ frameworks ∧ Lost t s' := by
  obtain ⟨started, hitems, hstarted, -⟩ := h.started
  have ht : t ∈ s.running := by
    by_contra hnot
    rw [countCommit, if_neg hnot] at hnext
    cases hnext
  have hmem : t ∈ frameworks := by
    rw [hitems]
    exact List.mem_append_left _ (hstarted t ht)
  have htodo : ∀ u ∈ s.todo, u ∈ s.unstarted := by
    intro u hu
    rw [unstarted]
    split
    · exact List.mem_cons_of_mem _ hu
    · exact hu
  refine ⟨hmem, Lost.complete ⟨hlate, fun u hu heq => ?_, h.untouched t (.inl ht)⟩ hnext⟩
  have hin : u ∈ frameworks := by
    rw [hitems]
    exact List.mem_append_right _ (htodo u hu)
  obtain rfl := eq_of_startedFor hkeys hin hmem heq
  have hnodup := hkeys.of_map
  rw [hitems] at hnodup
  exact (List.nodup_append.mp hnodup).2.2 _ (hstarted _ ht) _ (htodo _ hu) rfl

end Late

section Runs

variable {labels : List CountStep}

theorem Lost.run {t : CountThread} (hrun : Run (next commitCount) s labels s') (h : Lost t s) :
    Lost t s' := by
  apply hrun.invariant _ h
  intro s label s'' hlost _ hnext
  cases label with
  | main => exact hlost.main hnext
  | complete u => exact hlost.complete hnext

/-- A run is in time all along, or it loses a framework whose command succeeds. -/
theorem Punctual.run (hkeys : (frameworks.map (·.startedFor)).Nodup)
    (hrun : Run (next commitCount) s labels s') (h : Punctual commitCount frameworks s) :
    (GuardedRun (next commitCount) (OnTime commitCount) s labels s' ∧
      Punctual commitCount frameworks s') ∨
    ((∃ t ∈ frameworks, commitCount t.directory ≠ none ∧ Lost t s') ∧
      ¬GuardedRun (next commitCount) (OnTime commitCount) s labels s') := by
  induction hrun with
  | nil s => exact .inl ⟨.nil s, h⟩
  | @cons s s₁ s' label labels _ hnext hrest ih =>
    by_cases htime : OnTime commitCount s label
    · have hpunctual : Punctual commitCount frameworks s₁ := by
        cases label with
        | main => exact h.main hkeys hnext
        | complete t => exact h.complete hkeys htime hnext
      refine (ih hpunctual).imp (And.imp_left (.cons htime hnext)) (And.imp_right fun hnot hguarded => ?_)
      cases hguarded with
      | cons _ hnext' hrest' =>
        cases hnext.symm.trans hnext'
        exact hnot hrest'
    · refine .inr ⟨?_, fun hguarded => ?_⟩
      · cases label with
        | main => exact absurd trivial htime
        | complete t =>
          obtain ⟨hcount, hlate⟩ := Classical.not_imp.mp htime
          obtain ⟨hmem, hlost⟩ := h.lost hkeys hlate hnext
          exact ⟨t, hmem, hcount, Lost.run hrest hlost⟩
      · cases hguarded with
        | cons htime' => exact htime htime'

end Runs

end CountCommits

open CountCommits

/-- When `__count_commits` is done, every framework whose command succeeds has the count of its own
directory, exactly if no thread with a count outlived the round of the loop that started it, the last
round apart. -/
theorem attributed_iff {commitCount : String → Option ℕ} {frameworks : List CountThread}
    {labels : List CountStep} {s : CountCommits} (hkeys : (frameworks.map (·.startedFor)).Nodup)
    (hrun : Run (next commitCount) (init frameworks) labels s) (hend : s.point = .finished) :
    Attributed commitCount frameworks s.jsonResult ↔
      GuardedRun (next commitCount) (OnTime commitCount) (init frameworks) labels s := by
  rcases punctual_init.run hkeys hrun with ⟨hguarded, hpunctual⟩ | ⟨⟨t, ht, hcount, hlost⟩, hnot⟩
  · exact iff_of_true (hpunctual.attributed hend) hguarded
  · refine iff_of_false (fun hattributed => ?_) hnot
    obtain ⟨n, hn⟩ := Option.ne_none_iff_exists'.mp hcount
    have hresult := hattributed t ht n hn
    rw [hlost.result] at hresult
    cases hresult

/-- Two frameworks. -/
def twoDirectories : List CountThread := [⟨"h2o", "frameworks/C/h2o"⟩, ⟨"lwan", "frameworks/C/lwan"⟩]

def countTwo (directory : String) : Option ℕ :=
  if directory = "frameworks/C/h2o" then some 30 else some 12

/-- Each thread ends before the loop goes on. -/
theorem attributed_in_time : ∃ s : CountCommits,
    s.jsonResult "h2o" = some 30 ∧ s.jsonResult "lwan" = some 12 ∧
      GuardedRun (next countTwo) (OnTime countTwo) (init twoDirectories)
        [.main, .main, .complete ⟨"h2o", "frameworks/C/h2o"⟩, .main, .main,
          .complete ⟨"lwan", "frameworks/C/lwan"⟩, .main, .main, .main, .main] s := by
  obtain ⟨s, hrun, hend, hfirst, hsecond⟩ : ∃ s : CountCommits, Run (next countTwo) (init twoDirectories)
      [.main, .main, .complete ⟨"h2o", "frameworks/C/h2o"⟩, .main, .main,
        .complete ⟨"lwan", "frameworks/C/lwan"⟩, .main, .main, .main, .main] s ∧
      s.point = .finished ∧ s.jsonResult "h2o" = some 30 ∧ s.jsonResult "lwan" = some 12 :=
    exists_run_of_exec (by decide +kernel)
  refine ⟨s, hfirst, hsecond, (attributed_iff (by decide +kernel) hrun hend).mp fun t ht n hn => ?_⟩
  rcases List.mem_pair.mp ht with rfl | rfl
  · rw [hfirst, ← hn]
    rfl
  · rw [hsecond, ← hn]
    rfl

/-- The first thread ends when the loop has gone on to the second framework: the count of the first
directory is stored for the second framework, until its own thread ends, and the first framework gets
no count. -/
theorem attributed_late : ∃ s : CountCommits, s.point = .finished ∧
    Run (next countTwo) (init twoDirectories)
      [.main, .main, .main, .complete ⟨"h2o", "frameworks/C/h2o"⟩, .main,
        .complete ⟨"lwan", "frameworks/C/lwan"⟩, .main, .main, .main, .main] s ∧
    ¬Attributed countTwo twoDirectories s.jsonResult := by
  obtain ⟨s, hrun, hend, hfirst⟩ : ∃ s : CountCommits, Run (next countTwo) (init twoDirectories)
      [.main, .main, .main, .complete ⟨"h2o", "frameworks/C/h2o"⟩, .main,
        .complete ⟨"lwan", "frameworks/C/lwan"⟩, .main, .main, .main, .main] s ∧
      s.point = .finished ∧ s.jsonResult "h2o" = none :=
    exists_run_of_exec (by decide +kernel)
  refine ⟨s, hend, hrun, fun hattributed => ?_⟩
  have hresult := hattributed ⟨"h2o", "frameworks/C/h2o"⟩ List.mem_cons_self 30 rfl
  rw [hfirst] at hresult
  cases hresult

end FrameworkBenchmarks.Toolset
