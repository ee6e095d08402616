import Mathlib.Logic.Basic

/-!
# Guarded runs of a labelled partial step function

A system is a partial function `next : σ → ℓ → Option σ`. A guarded run takes a list of labels in
order and satisfies a side condition in the state before each step; with the trivial condition it is
an arbitrary run. An invariant that every guarded step keeps holds in every state such a run reaches.
-/

namespace FrameworkBenchmarks.Common

variable {σ ℓ : Type*}

/-- A run that takes the labels in order, each one permitted by the guard in the state before it. -/
inductive GuardedRun (next : σ → ℓ → Option σ) (guard : σ → ℓ → Prop) : σ → List ℓ → σ → Prop
  | nil (s : σ) : GuardedRun next guard s [] s
  | cons {s s' s'' : σ} {l : ℓ} {ls : List ℓ} (hguard : guard s l) (hnext : next s l = some s')
      (hrest : GuardedRun next guard s' ls s'') : GuardedRun next guard s (l :: ls) s''

/-- An arbitrary run: no step is excluded. -/
abbrev Run (next : σ → ℓ → Option σ) : σ → List ℓ → σ → Prop :=
  GuardedRun next fun _ _ => True

variable {next : σ → ℓ → Option σ} {guard guard' : σ → ℓ → Prop}

/-- An invariant kept by every guarded step is kept by every guarded run. -/
theorem GuardedRun.invariant {I : σ → Prop}
    (hstep : ∀ s l s', I s → guard s l → next s l = some s' → I s')
    {s s' : σ} {ls : List ℓ} (hrun : GuardedRun next guard s ls s') (hs : I s) : I s' := by
  induction hrun with
  | nil s => exact hs
  | cons hguard hnext _ ih => exact ih (hstep _ _ _ hs hguard hnext)

/-- A run under a stronger guard is a run under a weaker one. -/
theorem GuardedRun.mono (hweak : ∀ s l, guard s l → guard' s l) {s s' : σ} {ls : List ℓ}
    (hrun : GuardedRun next guard s ls s') : GuardedRun next guard' s ls s' := by
  induction hrun with
  | nil s => exact .nil s
  | cons hguard hnext _ ih => exact .cons (hweak _ _ hguard) hnext ih

/-- A run can be extended by a step at its end. -/
theorem GuardedRun.snoc {s s' s'' : σ} {ls : List ℓ} {l : ℓ} (hrun : GuardedRun next guard s ls s')
    (hguard : guard s' l) (hnext : next s' l = some s'') :
    GuardedRun next guard s (ls ++ [l]) s'' := by
  induction hrun with
  | nil s => exact .cons hguard hnext (.nil s'')
  | cons hguard' hnext' _ ih => exact .cons hguard' hnext' (ih hguard hnext)

/-- Two runs, one after the other. -/
theorem GuardedRun.append {s s' s'' : σ} {ls ls' : List ℓ} (hrun : GuardedRun next guard s ls s')
    (hrun' : GuardedRun next guard s' ls' s'') : GuardedRun next guard s (ls ++ ls') s'' := by
  induction hrun with
  | nil s => exact hrun'
  | cons hguard hnext _ ih => exact .cons hguard hnext (ih hrun')

/-- Execute a list of labels, stopping as soon as one step is unavailable. -/
def exec (next : σ → ℓ → Option σ) : σ → List ℓ → Option σ
  | s, [] => some s
  | s, l :: ls => (next s l).bind fun s' => exec next s' ls

/-- Executing the labels successfully is an arbitrary run. -/
theorem run_of_exec {s s' : σ} {ls : List ℓ} (h : exec next s ls = some s') : Run next s ls s' := by
  induction ls generalizing s with
  | nil =>
    obtain rfl : s = s' := by simpa [exec] using h
    exact .nil s
  | cons l ls ih =>
    obtain ⟨middle, hnext, hrest⟩ := Option.bind_eq_some_iff.mp h
    exact .cons trivial hnext (ih hrest)

/-- Execute the labels, checking a decidable guard before each step. -/
def execGuarded (next : σ → ℓ → Option σ) (guard : σ → ℓ → Bool) : σ → List ℓ → Option σ
  | s, [] => some s
  | s, l :: ls => if guard s l then (next s l).bind fun s' => execGuarded next guard s' ls else none

/-- A checked execution is a guarded run. -/
theorem guardedRun_of_execGuarded {check : σ → ℓ → Bool} {s s' : σ} {ls : List ℓ}
    (h : execGuarded next check s ls = some s') :
    GuardedRun next (fun s l => check s l = true) s ls s' := by
  induction ls generalizing s with
  | nil =>
    obtain rfl : s = s' := by simpa [execGuarded] using h
    exact .nil s
  | cons l ls ih =>
    by_cases hcheck : check s l = true
    · simp only [execGuarded, if_pos hcheck] at h
      obtain ⟨middle, hnext, hrest⟩ := Option.bind_eq_some_iff.mp h
      exact .cons hcheck hnext (ih hrest)
    · simp [execGuarded, hcheck] at h

/-- A run whose last state has been checked. -/
theorem exists_run_of_exec {P : σ → Prop} [DecidablePred P] {s : σ} {ls : List ℓ}
    (h : (exec next s ls).any (fun s' => decide (P s')) = true) : ∃ s', Run next s ls s' ∧ P s' := by
  obtain ⟨s', hexec, hP⟩ := (Option.any_eq_true _ _).mp h
  exact ⟨s', run_of_exec hexec, of_decide_eq_true hP⟩

/-- A guarded run whose last state has been checked. -/
theorem exists_guardedRun_of_exec {check : σ → ℓ → Bool} {P : σ → Prop} [DecidablePred P] {s : σ}
    {ls : List ℓ} (h : (execGuarded next check s ls).any (fun s' => decide (P s')) = true) :
    ∃ s', GuardedRun next (fun s l => check s l = true) s ls s' ∧ P s' := by
  obtain ⟨s', hexec, hP⟩ := (Option.any_eq_true _ _).mp h
  exact ⟨s', guardedRun_of_execGuarded hexec, of_decide_eq_true hP⟩

end FrameworkBenchmarks.Common
