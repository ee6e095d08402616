import FrameworkBenchmarks.TitanPl.DevServer
import Mathlib.Data.List.Count

/-!
# One development server

Between its `killServer` and its `spawn` a start is suspended, and two starts that overlap there spawn two
servers. As long as no start is entered while another one is there, and nothing is spawned while a
`killServer` is in progress, one process runs at most, and it is the one in `serverProcess`.
-/

namespace FrameworkBenchmarks.TitanPl

open Common

/-! ### Starts -/

def KillCaller.isStart : KillCaller → Bool
  | .watcher => false
  | .startRustServer _ _ => true

def Await.isStart : Await → Bool
  | .killPromise caller => caller.isStart
  | .killServer caller => caller.isStart
  | .rebuild _ => false
  | .startRustServer _ => false

def Delay.isStart : Delay → Bool
  | .start _ _ => true
  | .retry _ => false

namespace Dev

/-- The number of calls of `startRustServer` that are before their spawn. -/
def starts (dev : Dev) : ℕ :=
  dev.killing.countP (fun waiting => waiting.2.isStart) + dev.awaits.countP Await.isStart +
    dev.delays.countP Delay.isStart

/-- A call of `killServer` has not come back. -/
def KillInProgress (dev : Dev) : Prop := dev.killing ≠ [] ∨ ∃ caller, Await.killPromise caller ∈ dev.awaits

def Alive (dev : Dev) (process : ℕ) : Prop := dev.stateOf process = some .running

/-- At most one process is alive; it is the one in `serverProcess` unless a `killServer` is in progress;
and every spawned process is that one or has exited. -/
def OneServer (dev : Dev) : Prop :=
  (∀ first second, dev.Alive first → dev.Alive second → first = second) ∧
    (¬dev.KillInProgress → ∀ process, dev.Alive process → dev.serverProcess = some process) ∧
    ∀ process < dev.processes.length, dev.serverProcess = some process ∨
      ∃ state, dev.stateOf process = some state ∧ state ≠ .running

/-- `startRustServer` is entered only while no other call of it is before its spawn, and a process is
spawned only while no `killServer` is in progress. -/
def OneStart (dev : Dev) : Event → Prop
  | .resumes (.rebuild _) _ => dev.starts = 0
  | .elapses (.retry _) => dev.starts = 0
  | .elapses (.start _ _) => ¬dev.KillInProgress
  | _ => True

/-- What holds of the development server between two turns of the event loop. -/
structure Sound (dev : Dev) : Prop where
  starts_le : dev.starts ≤ 1
  held : ∀ process, dev.Alive process → dev.serverProcess = some process
  /-- behind its `killServer` a start finds no process -/
  killed : ∀ retryCount caller, Await.killServer (.startRustServer retryCount caller) ∈ dev.awaits →
    dev.serverProcess = none
  delayed : ∀ retryCount caller, Delay.start retryCount caller ∈ dev.delays → dev.serverProcess = none
  /-- the process that is being killed is not replaced -/
  killing : ∀ waiting ∈ dev.killing, dev.serverProcess = some waiting.1 ∨ dev.serverProcess = none
  promised : ∀ caller, Await.killPromise caller ∈ dev.awaits → ∀ process, ¬dev.Alive process

variable {dev dev' : Dev}

theorem Sound.oneServer (h : Sound dev) : dev.OneServer := by
  refine ⟨?_, fun _ => h.held, ?_⟩
  · intro first second hfirst hsecond
    have hheld := h.held first hfirst
    rw [h.held second hsecond] at hheld
    exact (Option.some.inj hheld).symm
  · intro process hprocess
    have hstate : dev.stateOf process = some dev.processes[process].state := by
      simp [stateOf, hprocess]
    by_cases halive : dev.processes[process].state = .running
    · left
      apply h.held process
      rw [Alive, hstate, halive]
    · right
      exact ⟨_, hstate, halive⟩

/-- A step that starts nothing and frees nothing. -/
theorem Sound.weaken (h : Sound dev) (hserver : dev'.serverProcess = dev.serverProcess)
    (halive : ∀ process, dev'.Alive process → dev.Alive process) (hstarts : dev'.starts ≤ 1)
    (hkilled : ∀ retryCount caller, Await.killServer (.startRustServer retryCount caller) ∈ dev'.awaits →
      Await.killServer (.startRustServer retryCount caller) ∈ dev.awaits)
    (hdelayed : ∀ retryCount caller, Delay.start retryCount caller ∈ dev'.delays →
      Delay.start retryCount caller ∈ dev.delays)
    (hkilling : dev'.killing ⊆ dev.killing)
    (hpromised : ∀ caller, Await.killPromise caller ∈ dev'.awaits → ∀ process, ¬dev'.Alive process) :
    Sound dev' := by
  constructor
  · exact hstarts
  · intro process hprocess
    rw [hserver]
    exact h.held process (halive process hprocess)
  · intro retryCount caller hmem
    rw [hserver]
    exact h.killed retryCount caller (hkilled retryCount caller hmem)
  · intro retryCount caller hmem
    rw [hserver]
    exact h.delayed retryCount caller (hdelayed retryCount caller hmem)
  · intro waiting hmem
    rw [hserver]
    exact h.killing waiting (hkilling hmem)
  · exact hpromised

theorem countP_concat {α : Type} (p : α → Bool) (l : List α) (a : α) :
    (l ++ [a]).countP p = l.countP p + (p a).toNat := by
  rw [List.countP_append]
  cases h : p a with
  | false => simp [h]
  | true => simp [h]

theorem countP_erase_add {α : Type} [DecidableEq α] (p : α → Bool) {l : List α} {a : α} (hmem : a ∈ l) :
    (l.erase a).countP p + (p a).toNat = l.countP p := by
  rw [(List.perm_cons_erase hmem).countP_eq p]
  cases h : p a with
  | false => simp [h]
  | true => simp [h]

theorem starts_erase_await {await : Await} (hmem : await ∈ dev.awaits) :
    { dev with awaits := dev.awaits.erase await }.starts + await.isStart.toNat = dev.starts := by
  have hcount := countP_erase_add Await.isStart hmem
  simp only [starts]
  omega

theorem starts_erase_delay {delay : Delay} (hmem : delay ∈ dev.delays) :
    { dev with delays := dev.delays.erase delay }.starts + delay.isStart.toNat = dev.starts := by
  have hcount := countP_erase_add Delay.isStart hmem
  simp only [starts]
  omega

theorem Sound.erase_await (h : Sound dev) {await : Await} (hmem : await ∈ dev.awaits) :
    Sound { dev with awaits := dev.awaits.erase await } := by
  have hstarts := starts_erase_await hmem
  have hle := h.starts_le
  apply Sound.weaken h
  · rfl
  · exact fun _ hprocess => hprocess
  · omega
  · exact fun _ _ hawait => List.mem_of_mem_erase hawait
  · exact fun _ _ hdelay => hdelay
  · exact List.Subset.refl _
  · exact fun caller hawait => h.promised caller (List.mem_of_mem_erase hawait)

theorem Sound.erase_delay (h : Sound dev) {delay : Delay} (hmem : delay ∈ dev.delays) :
    Sound { dev with delays := dev.delays.erase delay } := by
  have hstarts := starts_erase_delay hmem
  have hle := h.starts_le
  apply Sound.weaken h
  · rfl
  · exact fun _ hprocess => hprocess
  · omega
  · exact fun _ _ hawait => hawait
  · exact fun _ _ hdelay => List.mem_of_mem_erase hdelay
  · exact List.Subset.refl _
  · exact h.promised

/-- An await that is neither in a start nor in a `killServer`. -/
theorem Sound.await (h : Sound dev) {await : Await} (hstart : await.isStart = false)
    (hkill : ∀ caller, await ≠ .killPromise caller) :
    Sound { dev with awaits := dev.awaits ++ [await] } := by
  have hold {other : Await} (hother : other ∈ dev.awaits ++ [await]) : other ∈ dev.awaits ∨ other = await := by
    rwa [List.mem_append, List.mem_singleton] at hother
  apply Sound.weaken h
  · rfl
  · exact fun _ hprocess => hprocess
  · have hle := h.starts_le
    simp only [starts, countP_concat, hstart, Bool.toNat_false] at hle ⊢
    exact hle
  · intro retryCount caller hmem
    cases hold hmem with
    | inl hmem => exact hmem
    | inr heq =>
      rw [← heq] at hstart
      cases hstart
  · exact fun _ _ hdelay => hdelay
  · exact List.Subset.refl _
  · intro caller hmem
    cases hold hmem with
    | inl hmem => exact h.promised caller hmem
    | inr heq => exact absurd heq.symm (hkill caller)

theorem killServer_of_none (h : dev.serverProcess = none) (caller : KillCaller) :
    dev.killServer caller = { dev with awaits := dev.awaits ++ [.killServer caller] } := by
  unfold Dev.killServer
  split
  · rfl
  · rename_i hsome
    rw [h] at hsome
    cases hsome

theorem killServer_of_some {process : ℕ} (h : dev.serverProcess = some process) (caller : KillCaller) :
    dev.killServer caller =
      if ((dev.stateOf process).bind ProcessState.exitCode).isSome then
        { dev with isKilling := true, awaits := dev.awaits ++ [.killPromise caller] }
      else { dev with isKilling := true, killing := dev.killing ++ [(process, caller)] } := by
  unfold Dev.killServer
  split
  · rename_i hnone
    rw [h] at hnone
    cases hnone
  · rename_i hsome
    rw [h] at hsome
    obtain rfl := Option.some.inj hsome
    rfl

/-- A `killServer` begins; in a start, when there is no other one. -/
theorem Sound.killServer (h : Sound dev) {caller : KillCaller}
    (hstarts : caller.isStart = true → dev.starts = 0) : Sound (dev.killServer caller) := by
  have hle : dev.starts + caller.isStart.toNat ≤ 1 := by
    cases hstart : caller.isStart with
    | false => exact h.starts_le
    | true =>
      rw [hstarts hstart]
      decide
  cases hserver : dev.serverProcess with
  | none =>
    rw [killServer_of_none hserver]
    constructor
    · simp only [starts, countP_concat, Await.isStart] at hle ⊢
      omega
    · exact h.held
    · exact fun _ _ _ => hserver
    · exact fun _ _ _ => hserver
    · exact fun _ _ => .inr hserver
    · intro other _ process hprocess
      have hheld := h.held process hprocess
      rw [hserver] at hheld
      cases hheld
  | some process =>
    rw [killServer_of_some hserver]
    by_cases hexited : ((dev.stateOf process).bind ProcessState.exitCode).isSome = true
    · rw [if_pos hexited]
      have hdead (other : ℕ) : ¬dev.Alive other := by
        intro halive
        have hheld := h.held other halive
        rw [hserver] at hheld
        obtain rfl := Option.some.inj hheld
        rw [halive] at hexited
        cases hexited
      constructor
      · simp only [starts, countP_concat, Await.isStart] at hle ⊢
        omega
      · exact fun other hother => absurd hother (hdead other)
      · intro retryCount start hmem
        simp only [List.mem_append, List.mem_singleton, reduceCtorEq, or_false] at hmem
        exact h.killed retryCount start hmem
      · exact h.delayed
      · exact h.killing
      · exact fun _ _ => hdead
    · rw [if_neg hexited]
      constructor
      · simp only [starts, countP_concat] at hle ⊢
        omega
      · exact h.held
      · exact h.killed
      · exact h.delayed
      · intro waiting hmem
        rw [List.mem_append, List.mem_singleton] at hmem
        cases hmem with
        | inl hmem => exact h.killing waiting hmem
        | inr heq =>
          rw [heq]
          exact .inl hserver
      · exact h.promised

/-! ### Steps -/

theorem Sound.rebuild (h : Sound dev) (caller : StartCaller) (rebuilt : Bool) :
    Sound (dev.rebuild caller rebuilt) := by
  rw [Dev.rebuild]
  cases rebuilt with
  | true => exact h.await rfl (by simp)
  | false =>
    by_cases hcaller : caller = .startDev
    · rw [if_neg Bool.false_ne_true, if_pos hcaller]
      exact ⟨h.starts_le, h.held, h.killed, h.delayed, h.killing, h.promised⟩
    · rw [if_neg Bool.false_ne_true, if_neg hcaller]
      exact h

/-- An await resumes. -/
theorem Sound.resumes (h : Sound dev) {await : Await} {rebuilt : Bool}
    (hguard : OneStart dev (.resumes await rebuilt)) (hmem : await ∈ dev.awaits) :
    Sound ({ dev with awaits := dev.awaits.erase await }.resume rebuilt await) := by
  have hstarts := starts_erase_await hmem
  have herased := h.erase_await hmem
  cases await with
  | killPromise caller =>
    -- whoever resolved the promise left no process alive
    have hdead := h.promised caller hmem
    constructor
    · have hle := h.starts_le
      simp only [resume, starts, countP_concat, Await.isStart] at hle hstarts ⊢
      omega
    · exact fun process hprocess => absurd hprocess (hdead process)
    · exact fun _ _ _ => rfl
    · exact fun _ _ _ => rfl
    · exact fun _ _ => .inr rfl
    · exact fun _ _ => hdead
  | killServer caller =>
    cases caller with
    | watcher => exact herased.rebuild .watcher rebuilt
    | startRustServer retryCount caller =>
      have hnone := h.killed retryCount caller hmem
      constructor
      · have hle := h.starts_le
        simp only [resume, starts, countP_concat, Await.isStart,
          KillCaller.isStart, Delay.isStart, Bool.toNat_true] at hle hstarts ⊢
        omega
      · exact fun process hprocess => h.held process hprocess
      · exact fun _ _ _ => hnone
      · exact fun _ _ _ => hnone
      · exact fun _ _ => .inr hnone
      · exact fun caller hmem => herased.promised caller hmem
  | rebuild caller =>
    apply herased.killServer
    intro _
    have hzero : dev.starts = 0 := hguard
    omega
  | startRustServer caller =>
    cases caller with
    | startDev => exact ⟨herased.starts_le, herased.held, herased.killed, herased.delayed, herased.killing,
        herased.promised⟩
    | watcher => exact herased
    | closeHandler => exact herased

/-- A delay elapses. -/
theorem Sound.elapses (h : Sound dev) {delay : Delay} (hguard : OneStart dev (.elapses delay))
    (hmem : delay ∈ dev.delays) :
    Sound ({ dev with delays := dev.delays.erase delay }.elapse delay) := by
  have hstarts := starts_erase_delay hmem
  have herased := h.erase_delay hmem
  cases delay with
  | retry retryCount =>
    apply herased.killServer
    intro _
    have hzero : dev.starts = 0 := hguard
    omega
  | start retryCount caller =>
    have hnone := h.delayed retryCount caller hmem
    have hquiet : ¬dev.KillInProgress := hguard
    -- the start that spawns was the only one
    have hzero : { dev with delays := dev.delays.erase (.start retryCount caller) }.starts = 0 := by
      have hle := h.starts_le
      simp only [Delay.isStart, Bool.toNat_true] at hstarts
      omega
    have hnoStart : ∀ await ∈ dev.awaits, await.isStart = false := by
      simp only [starts, Nat.add_eq_zero_iff, List.countP_eq_zero, Bool.not_eq_true] at hzero
      exact hzero.1.2
    have hnoDelay : ∀ delay ∈ dev.delays.erase (.start retryCount caller), delay.isStart = false := by
      simp only [starts, Nat.add_eq_zero_iff, List.countP_eq_zero, Bool.not_eq_true] at hzero
      exact hzero.2
    constructor
    · simp only [elapse, spawn, starts, countP_concat, Await.isStart, Bool.toNat_false] at hzero ⊢
      omega
    · intro process hprocess
      by_cases hold : process < dev.processes.length
      · have halive : dev.Alive process := by
          rw [Alive, stateOf] at hprocess ⊢
          simpa only [elapse, spawn, List.getElem?_append_left hold] using hprocess
        rw [h.held process halive] at hnone
        cases hnone
      · have hnew : process = dev.processes.length := by
          by_contra hne
          have hbeyond : (dev.processes ++ [({ retryCount := retryCount } : ServerProcess)])[process]? =
              none := by
            apply List.getElem?_eq_none
            rw [List.length_append, List.length_singleton]
            omega
          rw [Alive, stateOf] at hprocess
          simp only [elapse, spawn, hbeyond, Option.map_none] at hprocess
          cases hprocess
        rw [hnew]
        rfl
    · intro retryCount' caller' hmem
      simp only [elapse, spawn, List.mem_append, List.mem_singleton, reduceCtorEq, or_false] at hmem
      have := hnoStart _ hmem
      cases this
    · intro retryCount' caller' hmem
      have := hnoDelay _ hmem
      cases this
    · intro waiting hmem
      have hempty : dev.killing = [] := by
        by_contra hne
        exact hquiet (.inl hne)
      simp only [elapse, spawn, hempty] at hmem
      cases hmem
    · intro other hmem
      simp only [elapse, spawn, List.mem_append, List.mem_singleton, reduceCtorEq, or_false] at hmem
      exact absurd (.inr ⟨other, hmem⟩) hquiet

theorem alive_setState {process other : ℕ} {state : ProcessState} (hstate : state ≠ .running)
    (h : (dev.setState process state).Alive other) : other ≠ process ∧ dev.Alive other := by
  simp only [Alive, stateOf, setState, List.getElem?_modify, Option.map_eq_map, Option.map_map] at h ⊢
  obtain ⟨server, hserver, hrunning⟩ := Option.map_eq_some_iff.mp h
  by_cases heq : process = other
  · simp only [Function.comp_def, if_pos heq] at hrunning
    exact absurd hrunning hstate
  · simp only [Function.comp_def, if_neg heq] at hrunning
    exact ⟨Ne.symm heq, Option.map_eq_some_iff.mpr ⟨server, hserver, hrunning⟩⟩

/-- A process exits, or its `close` event comes. -/
theorem Sound.setState (h : Sound dev) (process : ℕ) {state : ProcessState} (hstate : state ≠ .running) :
    Sound (dev.setState process state) := by
  have halive {other : ℕ} (hother : (dev.setState process state).Alive other) : dev.Alive other :=
    (alive_setState hstate hother).2
  apply Sound.weaken h
  · rfl
  · exact fun _ => halive
  · exact h.starts_le
  · exact fun _ _ hmem => hmem
  · exact fun _ _ hmem => hmem
  · exact List.Subset.refl _
  · exact fun caller hmem other hother => h.promised caller hmem other (halive hother)

theorem Sound.retry (h : Sound dev) (retryCount : ℕ) :
    Sound { dev with delays := dev.delays ++ [.retry retryCount] } := by
  apply Sound.weaken h
  · rfl
  · exact fun _ hprocess => hprocess
  · have hle := h.starts_le
    simp only [starts, countP_concat, Delay.isStart, Bool.toNat_false] at hle ⊢
    exact hle
  · exact fun _ _ hmem => hmem
  · intro retryCount' caller hmem
    simpa using hmem
  · exact List.Subset.refl _
  · exact h.promised

theorem onClose_eq (dev : Dev) (retryCount : ℕ) (code : Option ℤ) (isPortError runTimeShort : Bool) :
    dev.onClose retryCount code isPortError runTimeShort = dev ∨
      dev.onClose retryCount code isPortError runTimeShort =
        { dev with delays := dev.delays ++ [.retry (retryCount + 1)] } := by
  unfold onClose
  split_ifs with hkilling hcode hport hretry hretry
  · exact .inl rfl
  · exact .inr rfl
  · exact .inl rfl
  · exact .inr rfl
  · exact .inl rfl
  · exact .inl rfl

/-- The calls of `killServer` that await a process go on, when it has exited. -/
theorem Sound.release (h : Sound dev) {process : ℕ} (hdead : ¬dev.Alive process) :
    Sound { dev with
      killing := dev.killing.filter fun waiting => waiting.1 ≠ process
      awaits := dev.awaits ++ (dev.killing.filter fun waiting => waiting.1 = process).map fun waiting =>
        .killPromise waiting.2 } := by
  constructor
  · have hle := h.starts_le
    have hsplit := List.countP_eq_countP_filter_add dev.killing (fun waiting => waiting.2.isStart)
      (fun waiting => decide (waiting.1 = process))
    have hmap (ls : List (ℕ × KillCaller)) :
        (ls.map fun waiting => Await.killPromise waiting.2).countP Await.isStart =
          ls.countP fun waiting => waiting.2.isStart := by
      rw [List.countP_map]
      rfl
    simp only [starts, List.countP_append, hmap, decide_not] at hle ⊢
    omega
  · exact h.held
  · intro retryCount caller hmem
    simp only [List.mem_append, List.mem_map, reduceCtorEq, and_false, exists_false, or_false] at hmem
    exact h.killed retryCount caller hmem
  · exact h.delayed
  · exact fun waiting hmem => h.killing waiting (List.mem_filter.mp hmem).1
  · intro caller hmem other hother
    cases List.mem_append.mp hmem with
    | inl hmem => exact h.promised caller hmem other hother
    | inr hmem =>
      obtain ⟨waiting, hwaiting, _⟩ := List.mem_map.mp hmem
      obtain ⟨hkilling, hprocess⟩ := List.mem_filter.mp hwaiting
      have hheld := h.held other hother
      cases h.killing waiting hkilling with
      | inl hserver =>
        rw [hserver, of_decide_eq_true hprocess] at hheld
        obtain rfl := Option.some.inj hheld
        exact hdead hother
      | inr hnone =>
        rw [hheld] at hnone
        cases hnone

/-- The `close` event. -/
theorem Sound.closes (h : Sound dev) (process retryCount : ℕ) (code : Option ℤ)
    (isPortError runTimeShort : Bool) :
    Sound { (dev.setState process (.closed code)).onClose retryCount code isPortError runTimeShort with
      killing := dev.killing.filter fun waiting => waiting.1 ≠ process
      awaits := dev.awaits ++ (dev.killing.filter fun waiting => waiting.1 = process).map fun waiting =>
        .killPromise waiting.2 } := by
  have hclosed := h.setState process (show ProcessState.closed code ≠ .running by simp)
  have hdead : ¬(dev.setState process (.closed code)).Alive process := fun hprocess =>
    (alive_setState (by simp) hprocess).1 rfl
  cases onClose_eq (dev.setState process (.closed code)) retryCount code isPortError runTimeShort with
  | inl heq =>
    rw [heq]
    exact hclosed.release hdead
  | inr heq =>
    rw [heq]
    exact (hclosed.retry (retryCount + 1)).release hdead

/-- The output of a process tells that it is ready. -/
theorem Sound.readies (h : Sound dev) (process : ℕ) :
    Sound { dev with
      processes := dev.processes.modify process fun server => { server with isReady := true } } := by
  have halive {other : ℕ} (hother : Alive { dev with
      processes := dev.processes.modify process fun server => { server with isReady := true } } other) :
      dev.Alive other := by
    simp only [Alive, stateOf, List.getElem?_modify, Option.map_eq_map, Option.map_map] at hother ⊢
    obtain ⟨server, hserver, hrunning⟩ := Option.map_eq_some_iff.mp hother
    apply Option.map_eq_some_iff.mpr
    refine ⟨server, hserver, ?_⟩
    by_cases heq : process = other
    · simpa only [Function.comp_def, if_pos heq] using hrunning
    · simpa only [Function.comp_def, if_neg heq] using hrunning
  apply Sound.weaken h
  · rfl
  · exact fun _ => halive
  · exact h.starts_le
  · exact fun _ _ hmem => hmem
  · exact fun _ _ hmem => hmem
  · exact List.Subset.refl _
  · exact fun caller hmem other hother => h.promised caller hmem other (halive hother)

/-- One turn of the event loop. -/
theorem Sound.next (h : Sound dev) {event : Event} (hguard : OneStart dev event)
    (hnext : dev.next event = some dev') : Sound dev' := by
  cases event with
  | changes =>
    obtain ⟨_, heq⟩ := Option.ite_none_right_eq_some.mp hnext
    obtain rfl := Option.some.inj heq
    exact ⟨h.starts_le, h.held, h.killed, h.delayed, h.killing, h.promised⟩
  | fires =>
    obtain ⟨_, heq⟩ := Option.ite_none_right_eq_some.mp hnext
    obtain rfl := Option.some.inj heq
    have hfired : Sound { dev with timer := false } :=
      ⟨h.starts_le, h.held, h.killed, h.delayed, h.killing, h.promised⟩
    apply hfired.killServer
    intro hstart
    cases hstart
  | elapses delay =>
    obtain ⟨hmem, heq⟩ := Option.ite_none_right_eq_some.mp hnext
    obtain rfl := Option.some.inj heq
    exact h.elapses hguard hmem
  | resumes await rebuilt =>
    obtain ⟨hmem, heq⟩ := Option.ite_none_right_eq_some.mp hnext
    obtain rfl := Option.some.inj heq
    exact h.resumes hguard hmem
  | readies process =>
    obtain ⟨_, heq⟩ := Option.ite_none_right_eq_some.mp hnext
    obtain rfl := Option.some.inj heq
    exact h.readies process
  | exits process code =>
    obtain ⟨_, heq⟩ := Option.ite_none_right_eq_some.mp hnext
    obtain rfl := Option.some.inj heq
    exact h.setState process (by simp)
  | closes process isPortError runTimeShort =>
    simp only [Dev.next] at hnext
    split at hnext
    · rename_i retryCount isReady code hserver
      have hclose := h.closes process retryCount code isPortError runTimeShort
      cases onClose_eq (dev.setState process (.closed code)) retryCount code isPortError runTimeShort with
      | inl heq =>
        rw [heq] at hnext hclose
        obtain rfl := Option.some.inj hnext
        exact hclose
      | inr heq =>
        rw [heq] at hnext hclose
        obtain rfl := Option.some.inj hnext
        exact hclose
    · cases hnext

theorem startDev_sound (rebuilt : Bool) : Sound (startDev rebuilt) := by
  have hempty : Sound {} := by
    constructor
    · decide
    · intro process hprocess
      cases hprocess
    · intro _ _ hmem
      cases hmem
    · intro _ _ hmem
      cases hmem
    · intro _ hmem
      cases hmem
    · intro _ hmem
      cases hmem
  exact hempty.rebuild .startDev rebuilt

/-- In every run in which no start is entered while another one is before its spawn, and nothing is spawned
while a `killServer` is in progress, there is one server in every state reached. -/
theorem one_server {rebuilt : Bool} {events : List Event} {dev : Dev}
    (hrun : GuardedRun Dev.next OneStart (startDev rebuilt) events dev) : dev.OneServer :=
  (hrun.invariant (fun _ _ _ h hguard hnext => h.next hguard hnext) (startDev_sound rebuilt)).oneServer

/-- The server is started. -/
theorem one_server_started : ∃ dev : Dev, dev.Alive 0 ∧ dev.OneServer := by
  have hquiet : OneStart { delays := [.start 0 .startDev] } (.elapses (.start 0 .startDev)) := by
    rintro (hkilling | ⟨caller, hmem⟩)
    · exact hkilling rfl
    · cases hmem
  have hrebuilt : (startDev true).next (.resumes (.rebuild .startDev) true) =
      some { awaits := [.killServer (.startRustServer 0 .startDev)] } := rfl
  have hkilled : Dev.next { awaits := [.killServer (.startRustServer 0 .startDev)] }
      (.resumes (.killServer (.startRustServer 0 .startDev)) true) =
      some { delays := [.start 0 .startDev] } := rfl
  have hspawned : Dev.next { delays := [.start 0 .startDev] } (.elapses (.start 0 .startDev)) =
      some (Dev.spawn {} 0 .startDev) := rfl
  have hrun : GuardedRun Dev.next OneStart (startDev true) [.resumes (.rebuild .startDev) true,
      .resumes (.killServer (.startRustServer 0 .startDev)) true, .elapses (.start 0 .startDev)]
      (Dev.spawn {} 0 .startDev) :=
    .cons (by exact rfl) hrebuilt (.cons (by trivial) hkilled (.cons hquiet hspawned (.nil _)))
  exact ⟨Dev.spawn {} 0 .startDev, rfl, one_server hrun⟩

/-- Two changes, of which the second comes while the process is being killed for the first: both callbacks
go on when it closes, and each spawns a server. -/
theorem two_servers : ∃ dev : Dev,
    exec Dev.next (startDev true) [.resumes (.rebuild .startDev) true,
      .resumes (.killServer (.startRustServer 0 .startDev)) true, .elapses (.start 0 .startDev),
      .resumes (.startRustServer .startDev) true, .changes, .fires, .changes, .fires, .exits 0 none,
      .closes 0 false false, .resumes (.killPromise .watcher) true, .resumes (.killPromise .watcher) true,
      .resumes (.killServer .watcher) true, .resumes (.killServer .watcher) true,
      .resumes (.rebuild .watcher) true, .resumes (.rebuild .watcher) true,
      .resumes (.killServer (.startRustServer 0 .watcher)) true,
      .resumes (.killServer (.startRustServer 0 .watcher)) true, .elapses (.start 0 .watcher),
      .elapses (.start 0 .watcher)] = some dev ∧
    dev.Alive 1 ∧ dev.Alive 2 ∧ ¬dev.OneServer := by
  refine ⟨_, rfl, rfl, rfl, ?_⟩
  intro hone
  have hsame : 1 = 2 := hone.1 1 2 rfl rfl
  cases hsame

end Dev

end FrameworkBenchmarks.TitanPl
