import FrameworkBenchmarks.Zebra.Composition
import FrameworkBenchmarks.Common.GuardedRun
import Mathlib.Order.WellFounded

/-!
# The runs of a request

However many of the tasks that a request awaits are complete when it asks for them, the state
machine comes to what the pipeline does without nodes: the response is written once, and the task of
the request is set once.
-/

namespace FrameworkBenchmarks.Zebra

open Common

variable {C V : Type} [DecidableEq C] {values : ℕ → V} {final : Option (State C)}
  {m m' : Machine C V}

section Invariant

/-- A stream is what the response is written from. -/
def BindType.isStream : BindType → Bool
  | .stream _ => true
  | _ => false

/-- The handler goes on from the node that is set, to the final state. -/
def HandlerOk (values : ℕ → V) (final : Option (State C)) (m : Machine C V) (awaited : ℕ)
    (current : Zapp C V) : Prop :=
  ∃ next fail, m.dNode.next = some next ∧ m.dNode.fail = some fail ∧
    ((current.eval values awaited m.state).bind fun out =>
      if out.1 then next.eval values out.2.1 out.2.2 else fail.eval values out.2.1 out.2.2) = final

/-- Nothing is awaited, and the task of the request is not set. -/
structure Busy (m : Machine C V) : Prop where
  pending : m.pending = false
  amb : m.amb = 0
  released : m.released = 0

/-- What `Continue` will find. -/
def Suspended (values : ℕ → V) (final : Option (State C)) (m : Machine C V) : Prop :=
  match m.currentState with
  | .start => False
  | .bindUnit => HandlerOk values final m m.awaited m.bindUnit
  | .bindGen => HandlerOk values final m (m.awaited + 1) (m.bindGen (values m.awaited))
  | .complete => final = some m.state ∧ m.state.bindType.isStream = false
  | .completeRelease => final = some m.state ∧ m.state.bindType.isStream = true

/-- The task of the request is set, and a stream was given back. -/
structure Answered (final : Option (State C)) (m : Machine C V) : Prop where
  pending : m.pending = false
  amb : m.amb = 1
  released : m.released = if m.state.bindType.isStream then 1 else 0
  final : final = some m.state

/-- A request between two events, by what its thread is about to do. -/
def MachineOk (values : ℕ → V) (final : Option (State C)) (m : Machine C V) : Prop :=
  match m.code with
  | .apply node => Busy m ∧ node.eval values m.awaited m.state = final
  | .handler current => Busy m ∧ HandlerOk values final m m.awaited current
  | .idle => (m.pending = true ∧ m.amb = 0 ∧ m.released = 0 ∧ Suspended values final m) ∨
      Answered final m
  | .raised => Busy m ∧ final = none

end Invariant

section Steps

theorem MachineOk.goOn (hbusy : Busy m) {result : Bool}
    (h : HandlerOk values final m m.awaited (.ret result)) :
    MachineOk values final (m.goOn result) := by
  obtain ⟨next, fail, hnext, hfail, hfinal⟩ := h
  cases result with
  | true =>
    rw [Machine.goOn, if_pos rfl, hnext]
    exact ⟨⟨hbusy.pending, hbusy.amb, hbusy.released⟩, hfinal⟩
  | false =>
    rw [Machine.goOn, if_neg Bool.false_ne_true, hfail]
    exact ⟨⟨hbusy.pending, hbusy.amb, hbusy.released⟩, hfinal⟩

theorem MachineOk.proceed (hbusy : Busy m) {current : Zapp C V}
    (h : HandlerOk values final m m.awaited current) :
    MachineOk values final (m.proceed values current) := by
  have hbusy' : m.pending = false ∧ m.amb = 0 ∧ m.released = 0 :=
    ⟨hbusy.pending, hbusy.amb, hbusy.released⟩
  cases current with
  | ret result => exact .goOn hbusy h
  | call fn continuation =>
    obtain ⟨next, fail, hnext, hfail, hfinal⟩ := h
    rw [Zapp.eval] at hfinal
    rw [Machine.proceed]
    cases hfn : fn m.state with
    | some state =>
      rw [hfn] at hfinal
      exact ⟨⟨hbusy'.1, hbusy'.2.1, hbusy'.2.2⟩, next, fail, hnext, hfail, hfinal⟩
    | none =>
      rw [hfn] at hfinal
      exact ⟨⟨hbusy'.1, hbusy'.2.1, hbusy'.2.2⟩, hfinal.symm⟩
  | look continuation => exact ⟨⟨hbusy'.1, hbusy'.2.1, hbusy'.2.2⟩, h⟩
  | bindUnit continuation => exact ⟨⟨hbusy'.1, hbusy'.2.1, hbusy'.2.2⟩, h⟩
  | bindGen continuation => exact ⟨⟨hbusy'.1, hbusy'.2.1, hbusy'.2.2⟩, h⟩

theorem MachineOk.suspend (hbusy : Busy m) {current : Zapp C V}
    (h : HandlerOk values final m m.awaited current) (hstep : m.suspend current = some m') :
    MachineOk values final m' := by
  cases current with
  | bindUnit continuation =>
    cases hstep
    exact .inl ⟨rfl, hbusy.amb, hbusy.released, h⟩
  | bindGen continuation =>
    cases hstep
    exact .inl ⟨rfl, hbusy.amb, hbusy.released, h⟩
  | ret result => cases hstep
  | call fn continuation => cases hstep
  | look continuation => cases hstep

theorem MachineOk.setComplete (hbusy : Busy m) (hfinal : final = some m.state.completed) :
    MachineOk values final m.setComplete := by
  rw [Machine.setComplete]
  split
  · rename_i hbind
    rw [Machine.setResult, if_pos hbusy.amb]
    refine .inr ⟨hbusy.pending, rfl, ?_, ?_⟩
    · exact hbusy.released.trans (by rw [hbind]; rfl)
    · have hsame : State.setComplete m.state.response m.state.bindType = m.state.response := by
        rw [hbind]
        rfl
      rw [hfinal, State.completed, hsame]
  · rename_i stream hbind
    refine .inl ⟨rfl, hbusy.amb, hbusy.released, hfinal, ?_⟩
    rw [hbind]
    rfl
  · rename_i hnone hstream
    refine .inl ⟨rfl, hbusy.amb, hbusy.released, hfinal, ?_⟩
    dsimp only
    cases hbind : m.state.bindType with
    | stream stream => exact (hstream stream hbind).elim
    | none => rfl
    | text text => rfl
    | bytes bytes => rfl

theorem MachineOk.apply (hbusy : Busy m) {node : INode C V}
    (h : node.eval values m.awaited m.state = final) : MachineOk values final (m.apply node) := by
  cases node with
  | choiceNode next fail current =>
    exact ⟨⟨hbusy.pending, hbusy.amb, hbusy.released⟩, next, fail, rfl, rfl, h⟩
  | routerNode fail root children =>
    rw [INode.eval] at h
    rw [Machine.apply]
    split
    · rename_i hpath
      rw [hpath] at h
      exact ⟨⟨hbusy.pending, hbusy.amb, hbusy.released⟩, h⟩
    · rename_i hpath
      rw [hpath] at h
      exact ⟨⟨hbusy.pending, hbusy.amb, hbusy.released⟩, h⟩
    · rename_i hpath
      rw [hpath] at h
      exact ⟨⟨hbusy.pending, hbusy.amb, hbusy.released⟩, h.symm⟩
  | finishNode => exact .setComplete hbusy h.symm
  | failNode fail node =>
    refine ⟨⟨hbusy.pending, hbusy.amb, hbusy.released⟩, node, node, rfl, rfl, ?_⟩
    rw [INode.eval] at h
    simp only [ite_self]
    exact h

theorem MachineOk.onContinue (hamb : m.amb = 0) (hpending : m.pending = false)
    (hreleased : m.released = 0) (h : Suspended values final m) :
    MachineOk values final (m.onContinue values) := by
  rw [Suspended] at h
  rw [Machine.onContinue]
  cases hcurrent : m.currentState with
  | start =>
    rw [hcurrent] at h
    exact h.elim
  | bindUnit =>
    rw [hcurrent] at h
    exact ⟨⟨hpending, hamb, hreleased⟩, h⟩
  | bindGen =>
    rw [hcurrent] at h
    exact ⟨⟨hpending, hamb, hreleased⟩, h⟩
  | complete =>
    rw [hcurrent] at h
    dsimp only
    rw [Machine.setResult, if_pos hamb]
    refine .inr ⟨hpending, rfl, ?_, h.1⟩
    exact hreleased.trans (by rw [h.2]; rfl)
  | completeRelease =>
    rw [hcurrent] at h
    dsimp only
    rw [if_pos hamb, Machine.setResult, if_pos hamb]
    refine .inr ⟨hpending, rfl, ?_, h.1⟩
    dsimp only
    rw [hreleased, h.2]
    rfl

/-- Whatever happens, the final state stays the same. -/
theorem MachineOk.step (h : MachineOk values final m) {event : Event}
    (hstep : m.step values event = some m') : MachineOk values final m' := by
  cases event with
  | run =>
    rw [Machine.step] at hstep
    cases hcode : m.code with
    | apply node =>
      rw [MachineOk, hcode] at h
      rw [hcode] at hstep
      cases hstep
      exact .apply h.1 h.2
    | handler current =>
      rw [MachineOk, hcode] at h
      rw [hcode] at hstep
      cases hstep
      exact .proceed h.1 h.2
    | idle =>
      rw [hcode] at hstep
      cases hstep
    | raised =>
      rw [hcode] at hstep
      cases hstep
  | suspend =>
    rw [Machine.step] at hstep
    cases hcode : m.code with
    | handler current =>
      rw [MachineOk, hcode] at h
      rw [hcode] at hstep
      exact .suspend h.1 h.2 hstep
    | apply node =>
      rw [hcode] at hstep
      cases hstep
    | idle =>
      rw [hcode] at hstep
      cases hstep
    | raised =>
      rw [hcode] at hstep
      cases hstep
  | completed =>
    rw [Machine.step] at hstep
    split at hstep
    · rename_i hpending
      cases hstep
      cases hcode : m.code with
      | idle =>
        rw [MachineOk, hcode] at h
        rcases h with ⟨-, hamb, hreleased, hsuspended⟩ | hanswered
        · exact .onContinue hamb rfl hreleased hsuspended
        · rw [hanswered.pending] at hpending
          cases hpending
      | apply node =>
        rw [MachineOk, hcode] at h
        rw [h.1.pending] at hpending
        cases hpending
      | handler current =>
        rw [MachineOk, hcode] at h
        rw [h.1.pending] at hpending
        cases hpending
      | raised =>
        rw [MachineOk, hcode] at h
        rw [h.1.pending] at hpending
        cases hpending
    · cases hstep

/-- When nothing can happen any more, the request is answered, or an exception was raised. -/
theorem MachineOk.stuck (h : MachineOk values final m)
    (hstuck : ∀ event, m.step values event = none) :
    Answered final m ∨ (final = none ∧ m.amb = 0) := by
  have hrun := hstuck .run
  have hcompleted := hstuck .completed
  simp only [Machine.step] at hrun hcompleted
  cases hcode : m.code with
  | apply node =>
    rw [hcode] at hrun
    cases hrun
  | handler current =>
    rw [hcode] at hrun
    cases hrun
  | idle =>
    rw [MachineOk, hcode] at h
    rcases h with ⟨hpending, -⟩ | hanswered
    · rw [if_pos hpending] at hcompleted
      cases hcompleted
    · exact .inl hanswered
  | raised =>
    rw [MachineOk, hcode] at h
    exact .inr ⟨h.2, h.1.amb⟩

/-- The task of a request is set only when it is answered. -/
theorem MachineOk.amb_eq (h : MachineOk values final m) : m.amb = 0 ∨ Answered final m := by
  cases hcode : m.code with
  | apply node =>
    rw [MachineOk, hcode] at h
    exact .inl h.1.amb
  | handler current =>
    rw [MachineOk, hcode] at h
    exact .inl h.1.amb
  | idle =>
    rw [MachineOk, hcode] at h
    rcases h with ⟨-, hamb, -⟩ | hanswered
    · exact .inl hamb
    · exact .inr hanswered
  | raised =>
    rw [MachineOk, hcode] at h
    exact .inl h.1.amb

end Steps

section Termination

/-- One event later. -/
def Machine.After (values : ℕ → V) (m' m : Machine C V) : Prop :=
  ∃ event, m.step values event = some m'

theorem acc_of_stopped (hcode : m.code = .idle ∨ m.code = .raised) (hpending : m.pending = false) :
    Acc (Machine.After values) m := by
  apply Acc.intro
  intro m' hafter
  obtain ⟨event, hstep⟩ := hafter
  exfalso
  rcases hcode with hcode | hcode <;> cases event <;>
    simp [Machine.step, hcode, hpending] at hstep

theorem acc_setResult (hpending : m.pending = false) : Acc (Machine.After values) m.setResult := by
  rw [Machine.setResult]
  split
  · exact acc_of_stopped (.inl rfl) hpending
  · exact acc_of_stopped (.inr rfl) hpending

/-- A thread that has left goes on with what `Continue` finds. -/
theorem acc_of_suspended (hcode : m.code = .idle)
    (hcontinue : Acc (Machine.After values)
      (Machine.onContinue values { m with pending := false })) :
    Acc (Machine.After values) m := by
  apply Acc.intro
  intro m' hafter
  obtain ⟨event, hstep⟩ := hafter
  cases event with
  | run => simp [Machine.step, hcode] at hstep
  | suspend => simp [Machine.step, hcode] at hstep
  | completed =>
    rw [Machine.step] at hstep
    split at hstep
    · cases hstep
      exact hcontinue
    · cases hstep

theorem acc_onContinue_complete (hpending : m.pending = false)
    (hcurrent : m.currentState = .complete ∨ m.currentState = .completeRelease) :
    Acc (Machine.After values) (m.onContinue values) := by
  rw [Machine.onContinue]
  rcases hcurrent with hcurrent | hcurrent
  · rw [hcurrent]
    exact acc_setResult hpending
  · rw [hcurrent]
    dsimp only
    split
    · rename_i hamb
      rw [Machine.setResult, if_pos hamb]
      exact acc_of_stopped (.inl rfl) hpending
    · exact acc_setResult hpending

theorem acc_setComplete (hpending : m.pending = false) :
    Acc (Machine.After values) m.setComplete := by
  rw [Machine.setComplete]
  split
  · exact acc_setResult hpending
  · exact acc_of_suspended rfl (acc_onContinue_complete rfl (.inr rfl))
  · exact acc_of_suspended rfl (acc_onContinue_complete rfl (.inl rfl))

theorem acc_of_handler {current : Zapp C V} (hcode : m.code = .handler current)
    (hpending : m.pending = false)
    (hproceed : Acc (Machine.After values) (m.proceed values current))
    (hsuspend : ∀ m', m.suspend current = some m' → Acc (Machine.After values) m') :
    Acc (Machine.After values) m := by
  apply Acc.intro
  intro m' hafter
  obtain ⟨event, hstep⟩ := hafter
  cases event with
  | run =>
    simp only [Machine.step, hcode, Option.some.injEq] at hstep
    exact hstep ▸ hproceed
  | suspend =>
    simp only [Machine.step, hcode] at hstep
    exact hsuspend m' hstep
  | completed => simp [Machine.step, hpending] at hstep

theorem acc_of_apply {node : INode C V} (hcode : m.code = .apply node)
    (hpending : m.pending = false) (happly : Acc (Machine.After values) (m.apply node)) :
    Acc (Machine.After values) m := by
  apply Acc.intro
  intro m' hafter
  obtain ⟨event, hstep⟩ := hafter
  cases event with
  | run =>
    simp only [Machine.step, hcode, Option.some.injEq] at hstep
    exact hstep ▸ happly
  | suspend => simp [Machine.step, hcode] at hstep
  | completed => simp [Machine.step, hpending] at hstep

/-- A handler comes to its end, by induction on its code, and goes on with a node from which all
runs end. -/
theorem acc_handler (current : Zapp C V) (dNode : INode C V)
    (hnext : ∀ node (m : Machine C V), dNode.next = some node ∨ dNode.fail = some node →
      m.code = .apply node → m.pending = false → Acc (Machine.After values) m)
    (hcode : m.code = .handler current) (hdNode : m.dNode = dNode) (hpending : m.pending = false) :
    Acc (Machine.After values) m := by
  induction current generalizing m with
  | ret result =>
    apply acc_of_handler hcode hpending
    · rw [Machine.proceed, Machine.goOn, hdNode]
      split
      · rename_i node hnode
        have hor : dNode.next = some node ∨ dNode.fail = some node := by
          cases result with
          | true => exact .inl hnode
          | false => exact .inr hnode
        exact hnext node _ hor rfl hpending
      · exact acc_of_stopped (.inr rfl) hpending
    · intro m' hsuspend
      cases hsuspend
  | call fn continuation ih =>
    apply acc_of_handler hcode hpending
    · rw [Machine.proceed]
      split
      · exact ih rfl hdNode hpending
      · exact acc_of_stopped (.inr rfl) hpending
    · intro m' hsuspend
      cases hsuspend
  | look continuation ih =>
    apply acc_of_handler hcode hpending
    · exact ih _ rfl hdNode hpending
    · intro m' hsuspend
      cases hsuspend
  | bindUnit continuation ih =>
    apply acc_of_handler hcode hpending
    · exact ih rfl hdNode hpending
    · intro m' hsuspend
      cases hsuspend
      exact acc_of_suspended rfl (ih rfl hdNode rfl)
  | bindGen continuation ih =>
    apply acc_of_handler hcode hpending
    · exact ih _ rfl hdNode hpending
    · intro m' hsuspend
      cases hsuspend
      exact acc_of_suspended rfl (ih _ rfl hdNode rfl)

/-- All runs from a node end, by induction on the node. -/
theorem acc_apply {node : INode C V} (hcode : m.code = .apply node) (hpending : m.pending = false) :
    Acc (Machine.After values) m := by
  induction node generalizing m with
  | choiceNode next fail current ihnext ihfail =>
    apply acc_of_apply hcode hpending
    refine acc_handler current (.choiceNode next fail current) ?_ rfl rfl hpending
    intro node m hor hcode hpending
    rcases hor with hor | hor
    · cases hor
      exact ihnext hcode hpending
    · cases hor
      exact ihfail hcode hpending
  | routerNode fail root children ihfail ihchildren =>
    apply acc_of_apply hcode hpending
    rw [Machine.apply]
    split
    · exact ihchildren _ rfl hpending
    · exact ihfail rfl hpending
    · exact acc_of_stopped (.inr rfl) hpending
  | finishNode => exact acc_of_apply hcode hpending (acc_setComplete hpending)
  | failNode fail node ih =>
    apply acc_of_apply hcode hpending
    refine acc_handler fail (.failNode fail node) ?_ rfl rfl hpending
    intro node m hor hcode hpending
    rcases hor with hor | hor
    · cases hor
      exact ih hcode hpending
    · cases hor
      exact ih hcode hpending

end Termination

/-- For every app composed of handlers, choices and routers, every fallback and every request: in
every run of the state machine, whichever of the awaited tasks are complete at once, the task of the
request is set at most once, only when the response is written, and the response is then the one
that the parts of the app give one after the other, with the fallback where the app fails; a stream
is given back exactly when the response was one. A run that cannot go on is answered, or an
exception was raised where the parts raise one, and no run goes on forever. -/
theorem request_answered (app : Pipe C V) (failAction : Zapp C V) (values : ℕ → V)
    (request : Request C) :
    (∀ events m, Run (Machine.step values)
        (invoke (appNode app.build failAction) request) events m →
      (m.amb = 0 ∨ Answered (respond app failAction values request) m) ∧
      ((∀ event, m.step values event = none) →
        Answered (respond app failAction values request) m ∨
          (respond app failAction values request = none ∧ m.amb = 0))) ∧
    ¬ ∃ run : ℕ → Machine C V, run 0 = invoke (appNode app.build failAction) request ∧
      ∀ i, ∃ event, (run i).step values event = some (run (i + 1)) := by
  constructor
  · intro events m hrun
    have hstart : MachineOk values (respond app failAction values request)
        (invoke (appNode app.build failAction) request) := by
      refine ⟨⟨rfl, rfl, rfl⟩, ?_⟩
      rw [appNode, Pipe.build_eval, respond]
      apply Option.bind_congr
      intro out _
      rw [INode.eval, INode.eval, Option.map_eq_bind]
      rfl
    have hok := hrun.invariant (fun m event m' hok _ hstep => hok.step hstep) hstart
    exact ⟨hok.amb_eq, hok.stuck⟩
  · intro hforever
    obtain ⟨run, hzero, hrun⟩ := hforever
    have hacc : Acc (Machine.After values) (run 0) := by
      rw [hzero]
      exact acc_apply rfl rfl
    exact (acc_iff_isEmpty_descending_chain.mp hacc).false ⟨run, rfl, hrun⟩

/-- A choice whose first part writes something and fails, behind a router: both texts are sent. -/
example :
    (router [⟨.get, "/a".toList,
        .combine (.compose (.handler (.texts [[104]])) (.handler (.ret false)))
          (.handler (.texts [[105]]))⟩]).bind (fun app =>
      (respond app (.texts [[33]]) (fun _ => ()) ⟨"GET", "/a".toList⟩).map fun state =>
        state.response.body) = some [104, 105] := by
  decide +kernel

end FrameworkBenchmarks.Zebra
