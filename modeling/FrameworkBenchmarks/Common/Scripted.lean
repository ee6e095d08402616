import Mathlib.Data.Nat.Notation
import Mathlib.Logic.Basic

/-!
# Programs that ask an environment

A program over a state `σ` reads answers of type `ε` from a script, one after the other, and may get
stuck: when the script has ended, on an answer of the wrong kind, or because an operation has no
meaning in the state at hand. The weakest liberal precondition says what holds of every result a
program can have, whatever the environment answers.
-/

namespace FrameworkBenchmarks.Common

variable {σ ε α β γ : Type}

/-- A program over a state that reads a script of answers. -/
abbrev Scripted (σ ε α : Type) := StateT σ (StateT (List ε) Option) α

namespace Scripted

/-- Run a program on a script; the answers that were not read are returned. -/
def exec (x : Scripted σ ε α) (s : σ) (script : List ε) : Option ((α × σ) × List ε) :=
  (x.run s).run script

/-- The program without any result. -/
def stuck : Scripted σ ε α := fun _ _ => none

/-- Read the next answer. -/
def ask : Scripted σ ε ε := fun s script =>
  match script with
  | [] => none
  | answer :: rest => some ((answer, s), rest)

/-- Continue with the value of an option, or get stuck. -/
def need : Option α → Scripted σ ε α
  | none => stuck
  | some a => pure a

/-- Read the next answer, which must be of the expected kind. -/
def expect (pick : ε → Option α) : Scripted σ ε α := do
  need (pick (← ask))

/-- Repeat a program at most `fuel` times, until it returns a final value. -/
def repeatUpTo (body : α → Scripted σ ε (α ⊕ β)) : ℕ → α → Scripted σ ε β
  | 0, _ => stuck
  | fuel + 1, a => do
    match ← body a with
    | .inl a' => repeatUpTo body fuel a'
    | .inr b => pure b

/-- A loop whose every round reads an answer: the script bounds the number of rounds. -/
def loop (body : α → Scripted σ ε (α ⊕ β)) (a : α) : Scripted σ ε β := fun s script =>
  repeatUpTo body (script.length + 1) a s script

section Execution

variable {s : σ} {script : List ε}

@[simp] theorem exec_stuck : (stuck : Scripted σ ε α).exec s script = none := rfl

@[simp] theorem exec_get_bind {f : σ → Scripted σ ε β} :
    (get >>= f).exec s script = (f s).exec s script := rfl

@[simp] theorem exec_modify_bind {g : σ → σ} {f : PUnit → Scripted σ ε β} :
    (modify g >>= f).exec s script = (f ⟨⟩).exec (g s) script := rfl

theorem exec_need_bind {o : Option α} {a : α} {f : α → Scripted σ ε β} (h : o = some a) :
    (need o >>= f).exec s script = (f a).exec s script := by
  rw [h]
  rfl

@[simp] theorem exec_ask_bind {e : ε} {f : ε → Scripted σ ε β} :
    (ask >>= f).exec s (e :: script) = (f e).exec s script := rfl

@[simp] theorem exec_pure {a : α} :
    (pure a : Scripted σ ε α).exec s script = some ((a, s), script) := rfl

@[simp] theorem exec_modify {g : σ → σ} :
    (modify g : Scripted σ ε PUnit).exec s script = some ((⟨⟩, g s), script) := rfl

/-- A program that begins by reading an answer has read one of the expected kind. -/
theorem of_exec_expect_bind {pick : ε → Option α} {f : α → Scripted σ ε β}
    {result : (β × σ) × List ε} (h : (expect pick >>= f).exec s script = some result) :
    ∃ e rest a, script = e :: rest ∧ pick e = some a ∧ (f a).exec s rest = some result := by
  cases script with
  | nil => exact nomatch h
  | cons e rest =>
    simp only [expect, bind_assoc, exec_ask_bind] at h
    cases hpick : pick e with
    | none =>
      rw [hpick] at h
      exact nomatch h
    | some a =>
      rw [exec_need_bind hpick] at h
      exact ⟨e, rest, a, rfl, hpick, h⟩

end Execution

/-- Every result the program can have in the state satisfies the postcondition. -/
def wlp (x : Scripted σ ε α) (Q : α → σ → Prop) (s : σ) : Prop :=
  ∀ script a s' rest, x.exec s script = some ((a, s'), rest) → Q a s'

section Rules

variable {Q Q' : α → σ → Prop} {s : σ}

theorem wlp_of_exec {x : Scripted σ ε α} (h : x.wlp Q s) {script rest : List ε} {a : α} {s' : σ}
    (hexec : x.exec s script = some ((a, s'), rest)) : Q a s' :=
  h script a s' rest hexec

/-- A weaker postcondition. -/
theorem wlp_mono {x : Scripted σ ε α} (h : x.wlp Q s) (hweak : ∀ a s', Q a s' → Q' a s') :
    x.wlp Q' s :=
  fun script a s' rest hexec => hweak a s' (h script a s' rest hexec)

@[simp] theorem wlp_pure (a : α) : (pure a : Scripted σ ε α).wlp Q s ↔ Q a s := by
  constructor
  · intro h
    exact h [] a s [] rfl
  · intro h script a' s' rest hexec
    obtain ⟨⟨rfl, rfl⟩, -⟩ : (a = a' ∧ s = s') ∧ script = rest := by
      simpa [exec] using hexec
    exact h

@[simp] theorem wlp_stuck : (stuck : Scripted σ ε α).wlp Q s ↔ True :=
  iff_true_intro fun _ _ _ _ hexec => by simp [exec, stuck, StateT.run] at hexec

/-- Sequential composition. -/
theorem wlp_bind {x : Scripted σ ε α} {f : α → Scripted σ ε β} {R : β → σ → Prop}
    (h : x.wlp (fun a s' => (f a).wlp R s') s) : (x >>= f).wlp R s := by
  intro script b s'' rest' hexec
  simp only [exec, StateT.run_bind] at hexec
  obtain ⟨⟨⟨a, s'⟩, rest⟩, hx, hf⟩ := Option.bind_eq_some_iff.mp hexec
  exact h script a s' rest hx rest b s'' rest' hf

/-- Calling a program whose results are known. -/
theorem wlp_step {x : Scripted σ ε α} {f : α → Scripted σ ε β} {R : β → σ → Prop}
    (h : x.wlp Q s) (hrest : ∀ a s', Q a s' → (f a).wlp R s') : (x >>= f).wlp R s :=
  wlp_bind (wlp_mono h hrest)

@[simp] theorem wlp_get_bind {f : σ → Scripted σ ε β} {R : β → σ → Prop} :
    (get >>= f).wlp R s ↔ (f s).wlp R s :=
  Iff.rfl

@[simp] theorem wlp_modify_bind {g : σ → σ} {f : PUnit → Scripted σ ε β} {R : β → σ → Prop} :
    (modify g >>= f).wlp R s ↔ (f ⟨⟩).wlp R (g s) :=
  Iff.rfl

@[simp] theorem wlp_modify {g : σ → σ} {R : PUnit → σ → Prop} :
    (modify g : Scripted σ ε PUnit).wlp R s ↔ R ⟨⟩ (g s) := by
  constructor
  · exact fun h => h [] ⟨⟩ (g s) [] rfl
  · intro h script a s' rest hexec
    obtain ⟨rfl, -⟩ : g s = s' ∧ script = rest := by
      simpa [exec] using hexec
    exact h

@[simp] theorem wlp_ask_bind {f : ε → Scripted σ ε β} {R : β → σ → Prop} :
    (ask >>= f).wlp R s ↔ ∀ e, (f e).wlp R s := by
  constructor
  · exact fun h e script => h (e :: script)
  · intro h script
    cases script with
    | nil => exact fun _ _ _ hexec => nomatch hexec
    | cons e script => exact h e script

@[simp] theorem wlp_need_bind {o : Option α} {f : α → Scripted σ ε β} {R : β → σ → Prop} :
    (need o >>= f).wlp R s ↔ ∀ a, o = some a → (f a).wlp R s := by
  cases o with
  | none => exact ⟨fun _ _ h => (nomatch h), fun _ _ _ _ _ hexec => (nomatch hexec)⟩
  | some a =>
    constructor
    · rintro h _ ⟨⟩
      exact h
    · exact fun h => h a rfl

/-- Any answer of the expected kind may come. -/
theorem wlp_expect_bind {pick : ε → Option α} {f : α → Scripted σ ε β} {R : β → σ → Prop}
    (h : ∀ a e, pick e = some a → (f a).wlp R s) : (expect pick >>= f).wlp R s := by
  simp only [expect, bind_assoc, wlp_ask_bind, wlp_need_bind]
  exact fun e a => h a e

@[simp] theorem wlp_stuck_bind {f : α → Scripted σ ε β} {R : β → σ → Prop} :
    ((stuck : Scripted σ ε α) >>= f).wlp R s ↔ True :=
  iff_true_intro fun _ _ _ _ hexec => nomatch hexec

/-- A loop keeps its invariant until it ends. -/
theorem wlp_loop {R : β → σ → Prop} {body : α → Scripted σ ε (α ⊕ β)} (I : α → σ → Prop)
    (hbody : ∀ a s, I a s →
      (body a).wlp (fun r s' => match r with
        | .inl a' => I a' s'
        | .inr b => R b s') s)
    {a : α} (h : I a s) : (loop body a).wlp R s := by
  have hfuel : ∀ fuel a s, I a s → (repeatUpTo body fuel a).wlp R s := by
    intro fuel
    induction fuel with
    | zero =>
      intro a s _
      exact wlp_stuck.mpr trivial
    | succ fuel ih =>
      intro a s hI
      refine wlp_bind (wlp_mono (hbody a s hI) fun r s' hr => ?_)
      cases r with
      | inl a' => exact ih a' s' hr
      | inr b => exact wlp_pure b |>.mpr hr
  intro script b s' rest hexec
  exact hfuel (script.length + 1) a s h script b s' rest hexec

end Rules

end Scripted

end FrameworkBenchmarks.Common
