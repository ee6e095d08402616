import FrameworkBenchmarks.AppMpower.ConnectionPool

/-!
# The invariant of the connection pools

A connection, with its commands, is in one place; a command has the first parameters of a statement
with its text, and what an operation does to it shows in what the statement has set.
-/

namespace FrameworkBenchmarks.AppMpower.Pool

open FrameworkBenchmarks.Common

variable {requests : ℕ → Request} {s s' : Pools} {i : ℕ} {keyed : Bool} {base : ConnectionBase}
  {dbCommand : ℕ}

/-! ### Operations on a command -/

section Operations

/-- The name of the parameter that an operation creates. -/
def Operation.created : Operation → Option (List UInt8)
  | .createParameter name _ => some name
  | _ => none

/-- The names of the parameters of a statement, in the order of their creation. -/
def Statement.names (statement : Statement) : List (List UInt8) :=
  statement.operations.filterMap Operation.created

/-- Parameters are created in the order of `names`, all of them before the first execution, and only
the values of created ones are set. -/
def InOrder (names : List (List UInt8)) : List (List UInt8) → List Operation → Prop
  | _, [] => True
  | fresh, .createParameter name _ :: operations =>
    fresh ++ [name] <+: names ∧ InOrder names (fresh ++ [name]) operations
  | fresh, .setValue name _ :: operations => name ∈ fresh ∧ InOrder names fresh operations
  | fresh, .execute :: operations => fresh = names ∧ InOrder names fresh operations

/-- The parameters of a command that was used before: those that the statement has created or set,
and then those that are left from earlier statements. -/
structure Renewed (names : List (List UInt8)) (fresh : Parameters) (operations : List Operation)
    (parameters : Parameters) : Prop where
  stale : ∃ stale, parameters = fresh ++ stale
  isPrefix : parameters.map Prod.fst <+: names
  inOrder : InOrder names (fresh.map Prod.fst) operations

/-- An operation does to the command what it does to a new one. -/
theorem Renewed.apply {names : List (List UInt8)} {fresh parameters : Parameters}
    {operation : Operation} {operations : List Operation}
    (h : Renewed names fresh (operation :: operations) parameters) (hnodup : names.Nodup) :
    Renewed names (operation.apply fresh) operations (operation.apply parameters) ∧
      (operation.executes = true → parameters = fresh) := by
  obtain ⟨⟨stale, rfl⟩, hprefix, hinOrder⟩ := h
  have hnodup' : ((fresh ++ stale).map Prod.fst).Nodup := hnodup.sublist hprefix.sublist
  cases operation with
  | createParameter name value =>
    obtain ⟨hname, hrest⟩ := hinOrder
    have hfresh : name ∉ fresh.map Prod.fst := by
      have hnodup'' := hnodup.sublist hname.sublist
      rw [List.nodup_append] at hnodup''
      intro hmem
      exact hnodup''.2.2 name hmem name List.mem_cons_self rfl
    have happly : createParameter fresh name value = fresh ++ [(name, value)] :=
      createParameter_of_not_mem hfresh value
    refine ⟨?_, fun hexecutes => Bool.noConfusion hexecutes⟩
    cases stale with
    | nil =>
      refine ⟨⟨[], ?_⟩, ?_, ?_⟩
      · rw [List.append_nil, List.append_nil]
      · rw [List.append_nil, Operation.apply, happly, List.map_append]
        exact hname
      · rw [Operation.apply, happly, List.map_append]
        exact hrest
    | cons parameter stale =>
      -- the next parameter that is left has the next name
      have hparameter : parameter.1 = name := by
        rw [List.map_append, List.map_cons] at hprefix
        have hboth : fresh.map Prod.fst ++ [name] <+:
            fresh.map Prod.fst ++ parameter.1 :: stale.map Prod.fst :=
          List.prefix_of_prefix_length_le hname hprefix (by simp)
        rw [List.prefix_append_right_inj, List.cons_prefix_cons] at hboth
        exact hboth.1.symm
      obtain ⟨name', old⟩ := parameter
      obtain rfl : name' = name := hparameter
      have hset : createParameter (fresh ++ (name', old) :: stale) name' value =
          fresh ++ (name', value) :: stale := createParameter_of_mem hfresh old value
      refine ⟨⟨stale, ?_⟩, ?_, ?_⟩
      · rw [Operation.apply, Operation.apply, hset, happly, List.append_assoc,
          List.singleton_append]
      · rw [Operation.apply, hset]
        simpa using hprefix
      · rw [Operation.apply, happly, List.map_append]
        exact hrest
  | setValue name value =>
    obtain ⟨hname, hrest⟩ := hinOrder
    have hkeep : ∀ parameters : Parameters,
        ((Operation.setValue name value).apply parameters).map Prod.fst =
          parameters.map Prod.fst := by
      intro parameters
      rw [Operation.apply, List.map_map]
      apply List.map_congr_left
      intro parameter _
      rw [Function.comp_apply]
      split
      · rename_i heq
        exact heq.symm
      · rfl
    refine ⟨⟨⟨(Operation.setValue name value).apply stale, ?_⟩, ?_, ?_⟩,
      fun hexecutes => Bool.noConfusion hexecutes⟩
    · exact List.map_append
    · rw [hkeep]
      exact hprefix
    · rw [hkeep]
      exact hrest
  | execute =>
    obtain ⟨hnames, hrest⟩ := hinOrder
    have hstale : stale = [] := by
      have hlength := hprefix.length_le
      rw [← hnames, List.map_append, List.length_append, List.length_map, List.length_map]
        at hlength
      exact List.length_eq_zero_iff.mp (by omega)
    subst hstale
    refine ⟨⟨⟨[], rfl⟩, hprefix, hrest⟩, fun _ => List.append_nil fresh⟩

end Operations

/-! ### Connections and commands -/

section Invariant

/-- A text is used with one list of names, by all requests. -/
structure Shared (requests : ℕ → Request) : Prop where
  nodup : ∀ i, ∀ statement ∈ (requests i).statements, statement.names.Nodup
  inOrder : ∀ i, ∀ statement ∈ (requests i).statements,
    InOrder statement.names [] statement.operations
  names : ∀ i j, ∀ statement ∈ (requests i).statements, ∀ statement' ∈ (requests j).statements,
    statement.commandText = statement'.commandText → statement.names = statement'.names

/-- A command of a connection; its parameters are the first ones of a statement with its text. -/
structure Kept (requests : ℕ → Request) (s : Pools) (n dbCommand : ℕ) : Prop where
  lt : dbCommand < s.createdCommands
  connection : (s.commands dbCommand).connection = n
  names : ∃ j, ∃ statement ∈ (requests j).statements,
    statement.commandText = (s.commands dbCommand).commandText ∧
      (s.commands dbCommand).parameters.map Prod.fst <+: statement.names

/-- A connection with what is kept with it. -/
structure BaseOk (requests : ℕ → Request) (s : Pools) (keyed : Bool) (base : ConnectionBase) :
    Prop where
  lt : base.dbConnection < s.createdConnections
  dbCommands : ∀ dbCommand ∈ base.dbCommands, Kept requests s base.dbConnection dbCommand
  keyedDbCommands : ∀ entry ∈ base.keyedDbCommands, Kept requests s base.dbConnection entry.2 ∧
    (s.commands entry.2).commandText = entry.1
  keyed : if keyed then base.dbCommands = [] else base.keyedDbCommands = []

/-- The connection that a request has. -/
def Stage.connection : Stage → Option ℕ
  | .connected base => some base.dbConnection
  | .command base _ _ => some base.dbConnection
  | _ => none

/-- What the statements that are left execute on new commands. -/
def Task.left (task : Task) : List (List UInt8 × Parameters) :=
  task.statements.flatMap fun statement =>
    executions statement.commandText [] statement.operations

/-- A request between two events. -/
structure TaskOk (requests : ℕ → Request) (s : Pools) (i : ℕ) (task : Task) : Prop where
  keyed : task.keyed = (requests i).keyed
  statements : task.statements <:+ (requests i).statements
  stage : match task.stage with
    | .start => task.executed ++ task.left = (requests i).executions
    | .connected base => BaseOk requests s task.keyed base ∧
        task.executed ++ task.left = (requests i).executions
    | .command base dbCommand operations => BaseOk requests s task.keyed base ∧
        Kept requests s base.dbConnection dbCommand ∧
        ∃ statement ∈ (requests i).statements,
          (s.commands dbCommand).commandText = statement.commandText ∧
          ∃ fresh, Renewed statement.names fresh operations (s.commands dbCommand).parameters ∧
            task.executed ++ (executions statement.commandText fresh operations ++ task.left) =
              (requests i).executions
    | .disposed => task.executed = (requests i).executions
    | .failed => task.executed <+: (requests i).executions

/-- The connections of a stack. -/
def Pools.connections (s : Pools) (keyed : Bool) : List ℕ :=
  (s.connectionsStack keyed).map ConnectionBase.dbConnection

/-- Every connection is in one place: once in one of the stacks, or with one request. -/
structure Apart (s : Pools) : Prop where
  nodup : ∀ keyed, (s.connections keyed).Nodup
  pooled : ∀ n keyed keyed', n ∈ s.connections keyed → n ∈ s.connections keyed' → keyed = keyed'
  held : ∀ i n, (s.tasks i).stage.connection = some n →
    (∀ keyed, n ∉ s.connections keyed) ∧
      ∀ j, (s.tasks j).stage.connection = some n → j = i

structure PoolsOk (requests : ℕ → Request) (s : Pools) : Prop where
  pooled : ∀ keyed, ∀ base ∈ s.connectionsStack keyed, BaseOk requests s keyed base
  tasks : ∀ i, TaskOk requests s i (s.tasks i)
  apart : Apart s

end Invariant

section Frame

/-- The commands of the other connections are as they were. -/
structure Frame (s s' : Pools) (n : ℕ) : Prop where
  createdCommands : s.createdCommands ≤ s'.createdCommands
  createdConnections : s.createdConnections ≤ s'.createdConnections
  commands : ∀ dbCommand < s.createdCommands, (s.commands dbCommand).connection ≠ n →
    s'.commands dbCommand = s.commands dbCommand

variable {n : ℕ}

theorem Kept.frame (h : Kept requests s base.dbConnection dbCommand) (hframe : Frame s s' n)
    (hne : base.dbConnection ≠ n) : Kept requests s' base.dbConnection dbCommand := by
  have hsame := hframe.commands dbCommand h.lt (h.connection ▸ hne)
  exact
    { lt := Nat.lt_of_lt_of_le h.lt hframe.createdCommands
      connection := hsame ▸ h.connection
      names := hsame ▸ h.names }

theorem BaseOk.frame (h : BaseOk requests s keyed base) (hframe : Frame s s' n)
    (hne : base.dbConnection ≠ n) : BaseOk requests s' keyed base where
  lt := Nat.lt_of_lt_of_le h.lt hframe.createdConnections
  dbCommands dbCommand hmem := (h.dbCommands dbCommand hmem).frame hframe hne
  keyedDbCommands entry hmem := by
    have hkept := h.keyedDbCommands entry hmem
    have hsame := hframe.commands entry.2 hkept.1.lt (hkept.1.connection ▸ hne)
    exact ⟨hkept.1.frame hframe hne, hsame ▸ hkept.2⟩
  keyed := h.keyed

theorem TaskOk.frame {task : Task} (h : TaskOk requests s i task) (hframe : Frame s s' n)
    (hne : task.stage.connection ≠ some n) : TaskOk requests s' i task where
  keyed := h.keyed
  statements := h.statements
  stage := by
    have hstage := h.stage
    cases hcase : task.stage with
    | start =>
      rw [hcase] at hstage
      exact hstage
    | connected base =>
      rw [hcase] at hstage hne
      exact ⟨hstage.1.frame hframe fun heq => hne (congrArg some heq), hstage.2⟩
    | command base dbCommand operations =>
      rw [hcase] at hstage hne
      have hne' : base.dbConnection ≠ n := fun heq => hne (congrArg some heq)
      have hsame := hframe.commands dbCommand hstage.2.1.lt (hstage.2.1.connection ▸ hne')
      refine ⟨hstage.1.frame hframe hne', hstage.2.1.frame hframe hne', ?_⟩
      rw [hsame]
      exact hstage.2.2
    | disposed =>
      rw [hcase] at hstage
      exact hstage
    | failed =>
      rw [hcase] at hstage
      exact hstage

theorem frame_setTask (s : Pools) (i : ℕ) (task : Task) (n : ℕ) : Frame s (s.setTask i task) n :=
  ⟨Nat.le_refl _, Nat.le_refl _, fun _ _ _ => rfl⟩

theorem BaseOk.setTask (h : BaseOk requests s keyed base) (i : ℕ) (task : Task) :
    BaseOk requests (s.setTask i task) keyed base :=
  h.frame (frame_setTask s i task (base.dbConnection + 1)) (Nat.succ_ne_self _).symm

theorem TaskOk.setTask {task : Task} (h : TaskOk requests s i task) (i' : ℕ) (task' : Task) :
    TaskOk requests (s.setTask i' task') i task := by
  cases hconnection : task.stage.connection with
  | none =>
    apply h.frame (frame_setTask s i' task' 0)
    rw [hconnection]
    exact (Option.some_ne_none 0).symm
  | some n =>
    apply h.frame (frame_setTask s i' task' (n + 1))
    rw [hconnection]
    exact fun heq => (Nat.succ_ne_self n).symm (Option.some.inj heq)

/-- One request takes a step, with its connection `n`. -/
theorem PoolsOk.setTask (hok : PoolsOk requests s) (s' : Pools) {task : Task}
    (htasks : s'.tasks = s.tasks)
    (hframe : Frame s s' n)
    (hothers : ∀ j, j ≠ i → (s.tasks j).stage.connection ≠ some n)
    (hpooled : ∀ keyed, ∀ base ∈ s'.connectionsStack keyed, BaseOk requests s' keyed base)
    (hnodup : ∀ keyed, (s'.connections keyed).Nodup)
    (hapart : ∀ n keyed keyed', n ∈ s'.connections keyed → n ∈ s'.connections keyed' →
      keyed = keyed')
    (hheld : ∀ j, j ≠ i → ∀ n', (s.tasks j).stage.connection = some n' →
      ∀ keyed, n' ∉ s'.connections keyed)
    (htask : TaskOk requests s' i task)
    (hconnection : ∀ n', task.stage.connection = some n' →
      n' = n ∧ ∀ keyed, n' ∉ s'.connections keyed) :
    PoolsOk requests (s'.setTask i task) := by
  have hself : (s'.setTask i task).tasks i = task := by
    simp only [Pools.setTask, Function.update_self]
  have hother : ∀ j, j ≠ i → (s'.setTask i task).tasks j = s.tasks j := by
    intro j hj
    simp only [Pools.setTask, Function.update_of_ne hj, htasks]
  have hclash : ∀ j, j ≠ i → ∀ n', (s.tasks j).stage.connection = some n' →
      task.stage.connection ≠ some n' := by
    intro j hj n' hconn htask'
    obtain ⟨rfl, -⟩ := hconnection n' htask'
    exact hothers j hj hconn
  refine ⟨fun keyed base hmem => (hpooled keyed base hmem).setTask i task, fun j => ?_, hnodup,
    hapart, fun j n' hconn => ?_⟩
  · by_cases hj : j = i
    · rw [hj, hself]
      exact htask.setTask i task
    · rw [hother j hj]
      exact ((hok.tasks j).frame hframe (hothers j hj)).setTask i task
  · by_cases hj : j = i
    · rw [hj, hself] at hconn
      refine ⟨(hconnection n' hconn).2, fun j' hconn' => ?_⟩
      by_contra hne
      rw [hother j' (hj ▸ hne)] at hconn'
      exact hclash j' (hj ▸ hne) n' hconn' hconn
    · rw [hother j hj] at hconn
      refine ⟨hheld j hj n' hconn, fun j' hconn' => ?_⟩
      by_cases hj' : j' = i
      · rw [hj', hself] at hconn'
        exact absurd hconn' (hclash j hj n' hconn)
      · rw [hother j' hj'] at hconn'
        exact (hok.apart.held j n' hconn).2 j' hconn'

end Frame

section Connections

theorem frame_of_commands (s s' : Pools) (hcommands : s'.commands = s.commands)
    (hcreated : s'.createdCommands = s.createdCommands)
    (hconnections : s.createdConnections ≤ s'.createdConnections) (n : ℕ) : Frame s s' n :=
  ⟨Nat.le_of_eq hcreated.symm, hconnections, fun dbCommand _ _ => by rw [hcommands]⟩

theorem BaseOk.of_commands (h : BaseOk requests s keyed base) (hcommands : s'.commands = s.commands)
    (hcreated : s'.createdCommands = s.createdCommands)
    (hconnections : s.createdConnections ≤ s'.createdConnections) :
    BaseOk requests s' keyed base :=
  h.frame (frame_of_commands s s' hcommands hcreated hconnections (base.dbConnection + 1))
    (Nat.succ_ne_self _).symm

theorem connections_setStack (s : Pools) (keyed keyed' : Bool) (stack : List ConnectionBase) :
    (s.setStack keyed stack).connections keyed' =
      if keyed' = keyed then stack.map ConnectionBase.dbConnection else s.connections keyed' := by
  unfold Pools.connections Pools.setStack
  by_cases h : keyed' = keyed
  · rw [if_pos h, h]
    simp only [Function.update_self]
  · rw [if_neg h]
    simp only [Function.update_of_ne h]

theorem mem_setStack {keyed' : Bool} {stack : List ConnectionBase}
    (h : base ∈ (s.setStack keyed stack).connectionsStack keyed') :
    (keyed' = keyed ∧ base ∈ stack) ∨ (keyed' ≠ keyed ∧ base ∈ s.connectionsStack keyed') := by
  by_cases hkeyed : keyed' = keyed
  · subst hkeyed
    simp only [Pools.setStack, Function.update_self] at h
    exact .inl ⟨rfl, h⟩
  · simp only [Pools.setStack, Function.update_of_ne hkeyed] at h
    exact .inr ⟨hkeyed, h⟩

theorem PoolsOk.lt_of_pooled (hok : PoolsOk requests s) {n : ℕ} (h : n ∈ s.connections keyed) :
    n < s.createdConnections := by
  obtain ⟨base, hmem, rfl⟩ := List.mem_map.mp h
  exact (hok.pooled keyed base hmem).lt

theorem PoolsOk.lt_of_held (hok : PoolsOk requests s) {n : ℕ}
    (h : (s.tasks i).stage.connection = some n) : n < s.createdConnections := by
  have hstage := (hok.tasks i).stage
  cases hcase : (s.tasks i).stage with
  | connected base =>
    rw [hcase] at h hstage
    cases h
    exact hstage.1.lt
  | command base dbCommand operations =>
    rw [hcase] at h hstage
    cases h
    exact hstage.1.lt
  | start =>
    rw [hcase] at h
    cases h
  | disposed =>
    rw [hcase] at h
    cases h
  | failed =>
    rw [hcase] at h
    cases h

/-- A request gets a connection that no other one has, from its stack or a new one. -/
theorem PoolsOk.connect (hok : PoolsOk requests s) (hstage : (s.tasks i).stage = .start) :
    PoolsOk requests ((s.getConnectionBase (s.tasks i).keyed).2.setTask i
      { s.tasks i with stage := .connected (s.getConnectionBase (s.tasks i).keyed).1 }) := by
  have htask := hok.tasks i
  have hdone := htask.stage
  rw [hstage] at hdone
  cases hstack : s.connectionsStack (s.tasks i).keyed with
  | nil =>
    simp only [Pools.getConnectionBase, hstack]
    have hframe := frame_of_commands s { s with createdConnections := s.createdConnections + 1 }
      rfl rfl (Nat.le_succ _)
    apply hok.setTask { s with createdConnections := s.createdConnections + 1 } rfl
      (hframe s.createdConnections)
    · intro j _ hheld
      exact Nat.lt_irrefl _ (hok.lt_of_held hheld)
    · intro keyed base hmem
      exact (hok.pooled keyed base hmem).of_commands rfl rfl (Nat.le_succ _)
    · exact hok.apart.nodup
    · exact hok.apart.pooled
    · intro j _ n' hheld
      exact (hok.apart.held j n' hheld).1
    · refine ⟨htask.keyed, htask.statements, ?_, hdone⟩
      refine ⟨Nat.lt_succ_self _, fun _ hmem => absurd hmem List.not_mem_nil,
        fun _ hmem => absurd hmem List.not_mem_nil, ?_⟩
      split <;> rfl
    · intro n' hn'
      cases hn'
      exact ⟨rfl, fun keyed hmem => Nat.lt_irrefl _ (hok.lt_of_pooled hmem)⟩
  | cons base stack =>
    simp only [Pools.getConnectionBase, hstack]
    have hmem : base ∈ s.connectionsStack (s.tasks i).keyed := by
      rw [hstack]
      exact List.mem_cons_self
    have hconnections : s.connections (s.tasks i).keyed =
        base.dbConnection :: stack.map ConnectionBase.dbConnection := by
      rw [Pools.connections, hstack, List.map_cons]
    have hpooled : base.dbConnection ∈ s.connections (s.tasks i).keyed := by
      rw [hconnections]
      exact List.mem_cons_self
    have hnodup := hok.apart.nodup (s.tasks i).keyed
    rw [hconnections, List.nodup_cons] at hnodup
    have hsubset : ∀ keyed n, n ∈ (s.setStack (s.tasks i).keyed stack).connections keyed →
        n ∈ s.connections keyed := by
      intro keyed n hn
      rw [connections_setStack] at hn
      split at hn
      · rename_i hkeyed
        rw [hkeyed, hconnections]
        exact List.mem_cons_of_mem _ hn
      · exact hn
    apply hok.setTask (s.setStack (s.tasks i).keyed stack) rfl
      (frame_of_commands s (s.setStack (s.tasks i).keyed stack) rfl rfl (Nat.le_refl _)
        base.dbConnection)
    · intro j _ hheld
      exact (hok.apart.held j _ hheld).1 _ hpooled
    · intro keyed base' hmem'
      have hok' : BaseOk requests s keyed base' := by
        rcases mem_setStack hmem' with ⟨rfl, hin⟩ | ⟨-, hin⟩
        · apply hok.pooled
          rw [hstack]
          exact List.mem_cons_of_mem _ hin
        · exact hok.pooled keyed base' hin
      exact hok'.of_commands rfl rfl (Nat.le_refl _)
    · intro keyed
      rw [connections_setStack]
      split
      · exact hnodup.2
      · exact hok.apart.nodup keyed
    · intro n keyed keyed' hn hn'
      exact hok.apart.pooled n keyed keyed' (hsubset keyed n hn) (hsubset keyed' n hn')
    · intro j _ n' hheld keyed hn'
      exact (hok.apart.held j n' hheld).1 keyed (hsubset keyed n' hn')
    · exact ⟨htask.keyed, htask.statements,
        (hok.pooled _ base hmem).of_commands rfl rfl (Nat.le_refl _), hdone⟩
    · intro n' hn'
      cases hn'
      refine ⟨rfl, fun keyed hn => ?_⟩
      rw [connections_setStack] at hn
      split at hn
      · exact hnodup.1 hn
      · rename_i hkeyed
        exact hkeyed (hok.apart.pooled _ _ _ hn hpooled)

/-- A request gives its connection back. -/
theorem PoolsOk.releaseConnection (hok : PoolsOk requests s) {stage : Stage}
    (hconnection : (s.tasks i).stage.connection = some base.dbConnection)
    (hbase : BaseOk requests s (s.tasks i).keyed base) (hnone : stage.connection = none)
    (htask : TaskOk requests s i { s.tasks i with stage }) :
    PoolsOk requests ((s.releaseConnection (s.tasks i).keyed base).setTask i
      { s.tasks i with stage }) := by
  have hheld := hok.apart.held i _ hconnection
  have hmem : ∀ keyed n, n ∈ (s.releaseConnection (s.tasks i).keyed base).connections keyed →
      (n = base.dbConnection ∧ keyed = (s.tasks i).keyed) ∨ n ∈ s.connections keyed := by
    intro keyed n hn
    rw [Pools.releaseConnection, connections_setStack] at hn
    split at hn
    · rename_i hkeyed
      rw [List.map_cons, List.mem_cons] at hn
      rcases hn with hn | hn
      · exact .inl ⟨hn, hkeyed⟩
      · exact .inr (hkeyed ▸ hn)
    · exact .inr hn
  have hframe := frame_of_commands s (s.releaseConnection (s.tasks i).keyed base) rfl rfl
    (Nat.le_refl _)
  apply hok.setTask (s.releaseConnection (s.tasks i).keyed base) rfl (hframe base.dbConnection)
  · intro j hj hheld'
    exact hj (hheld.2 j hheld')
  · intro keyed base' hmem'
    have hok' : BaseOk requests s keyed base' := by
      rcases mem_setStack hmem' with ⟨rfl, hin⟩ | ⟨-, hin⟩
      · rcases List.mem_cons.mp hin with rfl | hin
        · exact hbase
        · exact hok.pooled _ base' hin
      · exact hok.pooled keyed base' hin
    exact hok'.of_commands rfl rfl (Nat.le_refl _)
  · intro keyed
    rw [Pools.releaseConnection, connections_setStack]
    split
    · rw [List.map_cons, List.nodup_cons]
      exact ⟨hheld.1 _, hok.apart.nodup _⟩
    · exact hok.apart.nodup keyed
  · intro n keyed keyed' hn hn'
    rcases hmem keyed n hn with ⟨rfl, hkeyed⟩ | hn
    · rcases hmem keyed' _ hn' with ⟨-, hkeyed'⟩ | hn'
      · rw [hkeyed, hkeyed']
      · exact absurd hn' (hheld.1 keyed')
    · rcases hmem keyed' n hn' with ⟨rfl, -⟩ | hn'
      · exact absurd hn (hheld.1 keyed)
      · exact hok.apart.pooled n keyed keyed' hn hn'
  · intro j hj n' hheld' keyed hn'
    rcases hmem keyed n' hn' with ⟨rfl, -⟩ | hn'
    · exact hj (hheld.2 j hheld')
    · exact (hok.apart.held j n' hheld').1 keyed hn'
  · have hne : stage.connection ≠ some 0 := by
      rw [hnone]
      exact (Option.some_ne_none 0).symm
    exact htask.frame (hframe 0) hne
  · intro n' hn'
    rw [hnone] at hn'
    cases hn'

end Connections

end FrameworkBenchmarks.AppMpower.Pool
