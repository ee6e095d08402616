import FrameworkBenchmarks.AppMpower.PooledConnections
import FrameworkBenchmarks.Common.GuardedRun

/-!
# Pooling does not show

In every interleaving of requests and exceptions each request executes what it would execute on
commands of its own.
-/

namespace FrameworkBenchmarks.AppMpower.Pool

open FrameworkBenchmarks.Common

variable {requests : ℕ → Request} {s s' : Pools} {i : ℕ} {keyed : Bool} {base : ConnectionBase}
  {dbCommand : ℕ}

section Commands

variable {command : DbCommand}

theorem commands_setCommand (s : Pools) (dbCommand dbCommand' : ℕ) (command : DbCommand) :
    (s.setCommand dbCommand command).commands dbCommand' =
      if dbCommand' = dbCommand then command else s.commands dbCommand' := by
  simp only [Pools.setCommand, Function.update_apply]

/-- A command of the connection is changed. -/
theorem Kept.setCommand {dbCommand' : ℕ} (h : Kept requests s base.dbConnection dbCommand')
    {command : DbCommand} (hconnection : command.connection = base.dbConnection)
    (hnames : ∃ j, ∃ statement ∈ (requests j).statements,
      statement.commandText = command.commandText ∧
        command.parameters.map Prod.fst <+: statement.names) :
    Kept requests (s.setCommand dbCommand command) base.dbConnection dbCommand' where
  lt := h.lt
  connection := by
    rw [commands_setCommand]
    split
    · exact hconnection
    · exact h.connection
  names := by
    rw [commands_setCommand]
    split
    · exact hnames
    · exact h.names

theorem BaseOk.setCommand (h : BaseOk requests s keyed base)
    (hconnection : command.connection = base.dbConnection)
    (hnames : ∃ j, ∃ statement ∈ (requests j).statements,
      statement.commandText = command.commandText ∧
        command.parameters.map Prod.fst <+: statement.names)
    (htext : command.commandText = (s.commands dbCommand).commandText ∨
      base.keyedDbCommands = []) :
    BaseOk requests (s.setCommand dbCommand command) keyed base where
  lt := h.lt
  dbCommands dbCommand' hmem := (h.dbCommands dbCommand' hmem).setCommand hconnection hnames
  keyedDbCommands entry hmem := by
    obtain ⟨hkept, htext'⟩ := h.keyedDbCommands entry hmem
    refine ⟨hkept.setCommand hconnection hnames, ?_⟩
    rw [commands_setCommand]
    split
    · rename_i heq
      rcases htext with htext | hnil
      · rw [htext, ← heq, htext']
      · rw [hnil] at hmem
        exact absurd hmem List.not_mem_nil
    · exact htext'
  keyed := h.keyed

theorem frame_setCommand (s : Pools) (command : DbCommand) {n : ℕ}
    (hconnection : (s.commands dbCommand).connection = n) :
    Frame s (s.setCommand dbCommand command) n := by
  refine ⟨Nat.le_refl _, Nat.le_refl _, fun dbCommand' _ hne => ?_⟩
  rw [commands_setCommand, if_neg]
  rintro rfl
  exact hne hconnection

/-- What `GetCommand` gives: a command of the connection with the text, whose parameters are the
first ones of the statement. -/
structure Got (requests : ℕ → Request) (s : Pools) (keyed : Bool) (base : ConnectionBase)
    (statement : Statement) (got : ℕ × ConnectionBase × Pools) : Prop where
  frame : Frame s got.2.2 base.dbConnection
  tasks : got.2.2.tasks = s.tasks
  pooled : got.2.2.connectionsStack = s.connectionsStack
  connection : got.2.1.dbConnection = base.dbConnection
  baseOk : BaseOk requests got.2.2 keyed got.2.1
  kept : Kept requests got.2.2 base.dbConnection got.1
  commandText : (got.2.2.commands got.1).commandText = statement.commandText
  parameters : (got.2.2.commands got.1).parameters.map Prod.fst <+: statement.names

/-- A command with the text of a statement has the first of its parameters. -/
theorem Kept.parameters (h : Kept requests s base.dbConnection dbCommand)
    (hshared : Shared requests) {statement : Statement} (hstatement : statement ∈ (requests i).statements)
    (htext : (s.commands dbCommand).commandText = statement.commandText) :
    (s.commands dbCommand).parameters.map Prod.fst <+: statement.names := by
  obtain ⟨j, statement', hmem, htext', hprefix⟩ := h.names
  rwa [hshared.names j i statement' hmem statement hstatement (htext'.trans htext)] at hprefix

theorem BaseOk.getCommand (h : BaseOk requests s keyed base) (hshared : Shared requests)
    {statement : Statement} (hstatement : statement ∈ (requests i).statements) :
    Got requests s keyed base statement (s.getCommand keyed base statement.commandText) := by
  have hkeyed := h.keyed
  cases hcommands : base.dbCommands with
  | cons dbCommand dbCommands =>
    simp only [Pools.getCommand, hcommands]
    have hnil : base.keyedDbCommands = [] := by
      cases keyed with
      | true =>
        rw [if_pos rfl, hcommands] at hkeyed
        cases hkeyed
      | false => exact hkeyed
    have hkept : Kept requests s base.dbConnection dbCommand := by
      apply h.dbCommands
      rw [hcommands]
      exact List.mem_cons_self
    have hbase : BaseOk requests s keyed { base with dbCommands } := by
      refine ⟨h.lt, fun dbCommand' hmem => ?_, h.keyedDbCommands, ?_⟩
      · have hkept' : Kept requests s base.dbConnection dbCommand' := by
          apply h.dbCommands
          rw [hcommands]
          exact List.mem_cons_of_mem _ hmem
        exact ⟨hkept'.lt, hkept'.connection, hkept'.names⟩
      · cases keyed with
        | true =>
          rw [if_pos rfl, hcommands] at hkeyed
          cases hkeyed
        | false => exact hnil
    rw [Pools.reuse]
    split
    · have hnames : ∃ j, ∃ statement' ∈ (requests j).statements,
          statement'.commandText = statement.commandText ∧
            ([] : Parameters).map Prod.fst <+: statement'.names :=
        ⟨i, statement, hstatement, rfl, List.nil_prefix⟩
      exact
        { frame := frame_setCommand s _ hkept.connection
          tasks := rfl
          pooled := rfl
          connection := rfl
          baseOk := hbase.setCommand hkept.connection hnames (.inr hnil)
          kept := Kept.setCommand hkept hkept.connection hnames
          commandText := by rw [commands_setCommand, if_pos rfl]
          parameters := by
            rw [commands_setCommand, if_pos rfl]
            exact List.nil_prefix }
    · rename_i htext
      have htext' := (not_not.mp htext).symm
      exact
        { frame := frame_of_commands s s rfl rfl (Nat.le_refl _) base.dbConnection
          tasks := rfl
          pooled := rfl
          connection := rfl
          baseOk := hbase
          kept := hkept
          commandText := htext'
          parameters := hkept.parameters hshared hstatement htext' }
  | nil =>
    cases hlookup : if keyed then base.keyedDbCommands.lookup statement.commandText else none with
    | some dbCommand =>
      simp only [Pools.getCommand, hcommands, hlookup]
      have hentry : (statement.commandText, dbCommand) ∈ base.keyedDbCommands := by
        split at hlookup
        · obtain ⟨before, after, hsplit, -⟩ := List.lookup_eq_some_iff.mp hlookup
          rw [hsplit]
          exact List.mem_append_right _ List.mem_cons_self
        · cases hlookup
      obtain ⟨hkept, htext⟩ := h.keyedDbCommands _ hentry
      exact
        { frame := frame_of_commands s s rfl rfl (Nat.le_refl _) base.dbConnection
          tasks := rfl
          pooled := rfl
          connection := rfl
          baseOk := h
          kept := hkept
          commandText := htext
          parameters := hkept.parameters hshared hstatement htext }
    | none =>
      simp only [Pools.getCommand, hcommands, hlookup]
      have hframe : ∀ n, Frame s (s.createCommand base statement.commandText) n := by
        intro n
        refine ⟨Nat.le_succ _, Nat.le_refl _, fun dbCommand hlt _ => ?_⟩
        exact (commands_setCommand s _ _ _).trans (if_neg (Nat.ne_of_lt hlt))
      have hnew : (s.createCommand base statement.commandText).commands s.createdCommands =
          ⟨base.dbConnection, statement.commandText, []⟩ :=
        (commands_setCommand s _ _ _).trans (if_pos rfl)
      exact
        { frame := hframe base.dbConnection
          tasks := rfl
          pooled := rfl
          connection := rfl
          baseOk := h.frame (hframe (base.dbConnection + 1)) (Nat.succ_ne_self _).symm
          kept :=
            { lt := Nat.lt_succ_self _
              connection := by rw [hnew]
              names := ⟨i, statement, hstatement, by rw [hnew], by
                rw [hnew]
                exact List.nil_prefix⟩ }
          commandText := by rw [hnew]
          parameters := by
            rw [hnew]
            exact List.nil_prefix }

end Commands

section Steps

/-- The connection of the request stays with it. -/
theorem PoolsOk.stay (hok : PoolsOk requests s) (s' : Pools) {task : Task}
    (hconnection : (s.tasks i).stage.connection = some base.dbConnection)
    (htasks : s'.tasks = s.tasks) (hframe : Frame s s' base.dbConnection)
    (hstacks : s'.connectionsStack = s.connectionsStack) (htask : TaskOk requests s' i task)
    (hstage : task.stage.connection = some base.dbConnection) :
    PoolsOk requests (s'.setTask i task) := by
  have hheld := hok.apart.held i _ hconnection
  have hconnections : s'.connections = s.connections := by
    funext keyed
    rw [Pools.connections, hstacks, Pools.connections]
  apply hok.setTask s' htasks hframe
  · intro j hj hconnection'
    exact hj (hheld.2 j hconnection')
  · intro keyed base' hmem
    rw [hstacks] at hmem
    apply (hok.pooled keyed base' hmem).frame hframe
    intro heq
    exact hheld.1 keyed (List.mem_map.mpr ⟨base', hmem, heq⟩)
  · rw [hconnections]
    exact hok.apart.nodup
  · rw [hconnections]
    exact hok.apart.pooled
  · rw [hconnections]
    intro j _ n' hconnection'
    exact (hok.apart.held j n' hconnection').1
  · exact htask
  · rw [hconnections, hstage]
    intro n' hn'
    cases hn'
    exact ⟨rfl, hheld.1⟩

theorem BaseOk.releaseCommand (h : BaseOk requests s keyed base)
    (hkept : Kept requests s base.dbConnection dbCommand) :
    BaseOk requests s keyed (s.releaseCommand keyed base dbCommand) ∧
      (s.releaseCommand keyed base dbCommand).dbConnection = base.dbConnection := by
  have hkeyed := h.keyed
  rw [Pools.releaseCommand]
  cases keyed with
  | false =>
    rw [if_neg Bool.false_ne_true]
    refine ⟨⟨h.lt, fun dbCommand' hmem => ?_, h.keyedDbCommands, hkeyed⟩, rfl⟩
    rcases List.mem_cons.mp hmem with rfl | hmem
    · exact hkept
    · exact h.dbCommands dbCommand' hmem
  | true =>
    rw [if_pos rfl]
    split
    · exact ⟨h, rfl⟩
    · refine ⟨⟨h.lt, h.dbCommands, fun entry hmem => ?_, hkeyed⟩, rfl⟩
      rcases List.mem_cons.mp hmem with rfl | hmem
      · exact ⟨hkept, rfl⟩
      · exact h.keyedDbCommands entry hmem

/-- What was executed is the beginning of what a request has to execute. -/
theorem TaskOk.executed_begins {task : Task} (h : TaskOk requests s i task) :
    task.executed <+: (requests i).executions := by
  have hstage := h.stage
  cases hcase : task.stage with
  | start =>
    rw [hcase] at hstage
    exact ⟨_, hstage⟩
  | connected base =>
    rw [hcase] at hstage
    exact ⟨_, hstage.2⟩
  | command base dbCommand operations =>
    rw [hcase] at hstage
    obtain ⟨-, -, statement, -, -, fresh, -, hexecutions⟩ := hstage
    exact ⟨_, hexecutions⟩
  | disposed =>
    rw [hcase] at hstage
    exact hstage ▸ List.prefix_refl _
  | failed =>
    rw [hcase] at hstage
    exact hstage

theorem PoolsOk.getCommand (hok : PoolsOk requests s) (hshared : Shared requests)
    {statement : Statement} {statements : List Statement}
    (hstage : (s.tasks i).stage = .connected base)
    (hstatements : (s.tasks i).statements = statement :: statements)
    {got : ℕ × ConnectionBase × Pools}
    (hgot : s.getCommand (s.tasks i).keyed base statement.commandText = got) :
    PoolsOk requests (got.2.2.setTask i { s.tasks i with
      statements
      stage := .command got.2.1 got.1 statement.operations }) := by
  have htask := hok.tasks i
  have hdone := htask.stage
  rw [hstage] at hdone
  have hsuffix := htask.statements
  rw [hstatements] at hsuffix
  have hmem : statement ∈ (requests i).statements := hsuffix.subset List.mem_cons_self
  have h := hdone.1.getCommand hshared hmem
  rw [hgot] at h
  have hconnection : (s.tasks i).stage.connection = some base.dbConnection := by
    rw [hstage]
    rfl
  apply hok.stay got.2.2 hconnection h.tasks h.frame h.pooled
  · refine ⟨htask.keyed, (List.suffix_cons statement statements).trans hsuffix, h.baseOk,
      h.connection ▸ h.kept, statement, hmem, h.commandText, [], ?_, ?_⟩
    · exact ⟨⟨_, rfl⟩, h.parameters, hshared.inOrder i statement hmem⟩
    · rw [← hdone.2, Task.left, Task.left, hstatements, List.flatMap_cons]
  · exact congrArg some h.connection

theorem PoolsOk.operation (hok : PoolsOk requests s) (hshared : Shared requests)
    {operation : Operation} {operations : List Operation}
    (hstage : (s.tasks i).stage = .command base dbCommand (operation :: operations)) :
    PoolsOk requests ((s.setCommand dbCommand { s.commands dbCommand with
      parameters := operation.apply (s.commands dbCommand).parameters }).setTask i { s.tasks i with
        stage := .command base dbCommand operations
        executed := (s.tasks i).executed ++
          if operation.executes then
            [((s.commands dbCommand).commandText, (s.commands dbCommand).parameters)]
          else [] }) := by
  have htask := hok.tasks i
  have hdone := htask.stage
  rw [hstage] at hdone
  obtain ⟨hbase, hkept, statement, hmem, htext, fresh, hrenewed, hexecutions⟩ := hdone
  obtain ⟨hrenewed', hexecuted⟩ := hrenewed.apply (hshared.nodup i statement hmem)
  have hconnection : (s.tasks i).stage.connection = some base.dbConnection := by
    rw [hstage]
    rfl
  have hnames : ∃ j, ∃ statement' ∈ (requests j).statements,
      statement'.commandText = (s.commands dbCommand).commandText ∧
        (operation.apply (s.commands dbCommand).parameters).map Prod.fst <+: statement'.names :=
    ⟨i, statement, hmem, htext.symm, hrenewed'.isPrefix⟩
  refine hok.stay _ hconnection rfl (frame_setCommand s _ hkept.connection) rfl ?_ rfl
  refine ⟨htask.keyed, htask.statements, ?_⟩
  refine ⟨hbase.setCommand hkept.connection hnames (.inl rfl),
    Kept.setCommand hkept hkept.connection hnames, statement, hmem, ?_, operation.apply fresh, ?_,
    ?_⟩
  · rw [commands_setCommand, if_pos rfl]
    exact htext
  · rw [commands_setCommand, if_pos rfl]
    exact hrenewed'
  · rw [← hexecutions, executions, List.append_assoc, List.append_assoc]
    cases hcase : operation.executes with
    | true =>
      rw [if_pos rfl, if_pos rfl, htext, hexecuted hcase]
      rfl
    | false => rfl

theorem PoolsOk.releaseCommand (hok : PoolsOk requests s)
    (hstage : (s.tasks i).stage = .command base dbCommand []) :
    PoolsOk requests (s.setTask i { s.tasks i with
      stage := .connected (s.releaseCommand (s.tasks i).keyed base dbCommand) }) := by
  have htask := hok.tasks i
  have hdone := htask.stage
  rw [hstage] at hdone
  obtain ⟨hbase, hkept, statement, -, -, fresh, -, hexecutions⟩ := hdone
  obtain ⟨hbase', hsame⟩ := hbase.releaseCommand hkept
  have hconnection : (s.tasks i).stage.connection = some base.dbConnection := by
    rw [hstage]
    rfl
  apply hok.stay s hconnection rfl (frame_of_commands s s rfl rfl (Nat.le_refl _) _) rfl
  · exact ⟨htask.keyed, htask.statements, hbase', hexecutions⟩
  · exact congrArg some hsame

/-- Whatever happens, every connection is in one place, and every request is on its way. -/
theorem PoolsOk.next (hok : PoolsOk requests s) (hshared : Shared requests) {event : Event}
    (hnext : s.next event = some s') : PoolsOk requests s' := by
  cases event with
  | connect i =>
    rw [Pools.next] at hnext
    split at hnext
    · rename_i hstage
      cases hnext
      exact hok.connect hstage
    · cases hnext
  | getCommand i =>
    rw [Pools.next] at hnext
    split at hnext
    · rename_i hstage hstatements
      cases hnext
      exact hok.getCommand hshared hstage hstatements rfl
    · cases hnext
  | operation i =>
    rw [Pools.next] at hnext
    split at hnext
    · rename_i hstage
      cases hnext
      exact hok.operation hshared hstage
    · cases hnext
  | releaseCommand i =>
    rw [Pools.next] at hnext
    split at hnext
    · rename_i hstage
      cases hnext
      exact hok.releaseCommand hstage
    · cases hnext
  | dispose i =>
    rw [Pools.next] at hnext
    split at hnext
    · rename_i base hstage hstatements
      cases hnext
      have htask := hok.tasks i
      have hdone := htask.stage
      rw [hstage, Task.left, hstatements, List.flatMap_nil, List.append_nil] at hdone
      apply hok.releaseConnection _ hdone.1 rfl
      · exact ⟨htask.keyed, htask.statements, hdone.2⟩
      · rw [hstage]
        rfl
    · cases hnext
  | fail i inBlock =>
    have htask := hok.tasks i
    have hfailed : TaskOk requests s i { s.tasks i with stage := .failed } :=
      ⟨htask.keyed, htask.statements, htask.executed_begins⟩
    rw [Pools.next] at hnext
    split at hnext
    · rename_i base hstage
      cases hnext
      have hdone := htask.stage
      rw [hstage] at hdone
      apply hok.releaseConnection _ hdone.1 rfl hfailed
      rw [hstage]
      rfl
    · rename_i base dbCommand operations hstage
      cases hnext
      have hdone := htask.stage
      rw [hstage] at hdone
      have hbase : ∀ base', base' = (if inBlock then
            s.releaseCommand (s.tasks i).keyed base dbCommand else base) →
          BaseOk requests s (s.tasks i).keyed base' ∧
            base'.dbConnection = base.dbConnection := by
        rintro base' rfl
        split
        · exact hdone.1.releaseCommand hdone.2.1
        · exact ⟨hdone.1, rfl⟩
      apply hok.releaseConnection _ (hbase _ rfl).1 rfl hfailed
      rw [hstage, (hbase _ rfl).2]
      rfl
    · cases hnext

theorem PoolsOk.start (requests : ℕ → Request) : PoolsOk requests (.start requests) where
  pooled _ _ hmem := absurd hmem List.not_mem_nil
  tasks _ := ⟨rfl, List.suffix_refl _, rfl⟩
  apart :=
    { nodup := fun _ => List.nodup_nil
      pooled := fun _ _ _ hn _ => absurd hn List.not_mem_nil
      held := fun _ n hn => absurd hn (Option.some_ne_none n).symm }

end Steps

/-! ### The calls of `RawDb` -/

section Calls

/-- The texts that are used. -/
inductive Kind where
  | read
  | fortunes
  | rows (n : ℕ)
  | updates (n : ℕ)

def Kind.commandText (mysql : Bool) : Kind → List UInt8
  | .read => ascii "SELECT * FROM world WHERE id=?"
  | .fortunes => ascii "SELECT * FROM fortune"
  | .rows n => repeated n (ascii "SELECT * FROM world WHERE id=?;")
  | .updates n => queryText (odbcBuild mysql) n

def Kind.names (mysql : Bool) : Kind → List (List UInt8)
  | .read => [idName]
  | .fortunes => []
  | .rows n => (List.range n).map ids
  | .updates n => namesOf (odbcBuild mysql) n

def Kind.Valid : Kind → Prop
  | .rows n => 1 ≤ n
  | .updates n => 1 ≤ n
  | _ => True

def Kind.isUpdate : Kind → Bool
  | .updates _ => true
  | _ => false

/-- The first character of a text, `S` or `U`. -/
theorem Kind.head_commandText (mysql : Bool) {kind : Kind} (hkind : kind.Valid) :
    (kind.commandText mysql).head? = if kind.isUpdate then some 85 else some 83 := by
  cases kind with
  | read => rfl
  | fortunes => rfl
  | rows n =>
    obtain ⟨n, rfl⟩ := Nat.exists_eq_succ_of_ne_zero (Nat.ne_of_gt hkind)
    rfl
  | updates n =>
    obtain ⟨n, rfl⟩ := Nat.exists_eq_succ_of_ne_zero (Nat.ne_of_gt hkind)
    cases mysql with
    | true => rfl
    | false => rfl

theorem length_rows (n : ℕ) :
    (repeated n (ascii "SELECT * FROM world WHERE id=?;")).length = n * 31 :=
  length_repeated n _

/-- Two kinds of statements have different texts. -/
theorem Kind.commandText_injective {mysql : Bool} {kind kind' : Kind} (hkind : kind.Valid)
    (hkind' : kind'.Valid) (h : kind.commandText mysql = kind'.commandText mysql) :
    kind = kind' := by
  have hhead := congrArg List.head? h
  rw [Kind.head_commandText mysql hkind, Kind.head_commandText mysql hkind'] at hhead
  have hread : (Kind.read.commandText mysql).length = 30 := rfl
  have hfortunes : (Kind.fortunes.commandText mysql).length = 21 := rfl
  have hrows : ∀ n, ((Kind.rows n).commandText mysql).length = n * 31 := length_rows
  have hlength := congrArg List.length h
  cases kind with
  | read =>
    cases kind' with
    | read => rfl
    | fortunes =>
      rw [hread, hfortunes] at hlength
      omega
    | rows n =>
      rw [hread, hrows] at hlength
      omega
    | updates n => cases hhead
  | fortunes =>
    cases kind' with
    | read =>
      rw [hread, hfortunes] at hlength
      omega
    | fortunes => rfl
    | rows n =>
      rw [hfortunes, hrows] at hlength
      omega
    | updates n => cases hhead
  | rows n =>
    cases kind' with
    | read =>
      rw [hread, hrows] at hlength
      omega
    | fortunes =>
      rw [hfortunes, hrows] at hlength
      omega
    | rows n' =>
      rw [hrows, hrows] at hlength
      exact congrArg Kind.rows (by omega)
    | updates n' => cases hhead
  | updates n =>
    cases kind' with
    | updates n' => exact congrArg Kind.updates (queryText_injective hkind hkind' h)
    | read => cases hhead
    | fortunes => cases hhead
    | rows n' => cases hhead

/-- A statement of a kind. -/
structure Statement.Of (mysql : Bool) (statement : Statement) (kind : Kind) : Prop where
  valid : kind.Valid
  commandText : statement.commandText = kind.commandText mysql
  names : statement.names = kind.names mysql
  inOrder : InOrder statement.names [] statement.operations

theorem Kind.nodup_names (mysql : Bool) (kind : Kind) : (kind.names mysql).Nodup := by
  cases kind with
  | read => exact List.nodup_singleton _
  | fortunes => exact List.nodup_nil
  | rows n => exact List.nodup_range.map ids_injective
  | updates n => exact nodup_namesOf _ n

/-- The reading of the rows after the first parameter. -/
theorem readRows_inOrder (randoms : List ℤ) :
    (readRows randoms).filterMap Operation.created = [] ∧
      InOrder [idName] [idName] (readRows randoms) := by
  induction randoms with
  | nil => exact ⟨rfl, trivial⟩
  | cons random randoms ih => exact ⟨ih.1, rfl, List.mem_singleton_self _, ih.2⟩

theorem readStatement_of (mysql : Bool) (value : ℤ) {operations : List Operation}
    (hnames : operations.filterMap Operation.created = [])
    (hinOrder : InOrder [idName] [idName] operations) :
    (readStatement value operations).Of mysql .read := by
  have hsame : (readStatement value operations).names = [idName] := congrArg (idName :: ·) hnames
  refine ⟨trivial, rfl, hsame, ?_⟩
  rw [hsame]
  exact ⟨List.prefix_refl _, hinOrder⟩

/-- All parameters are created, and then the statement is executed once. -/
theorem creations_inOrder {names : List (List UInt8)} {fresh : List (List UInt8)}
    {parameters : Parameters} (hnames : fresh ++ parameters.map Prod.fst = names) :
    InOrder names fresh (creations parameters ++ [.execute]) := by
  induction parameters generalizing fresh with
  | nil =>
    rw [List.map_nil, List.append_nil] at hnames
    exact ⟨hnames, trivial⟩
  | cons parameter parameters ih =>
    rw [List.map_cons, List.append_cons] at hnames
    exact ⟨⟨_, hnames⟩, ih hnames⟩

theorem names_creations (parameters : Parameters) :
    (creations parameters ++ [Operation.execute]).filterMap Operation.created =
      parameters.map Prod.fst := by
  induction parameters with
  | nil => rfl
  | cons parameter parameters ih => exact congrArg (parameter.1 :: ·) ih

theorem batchStatement_of {mysql : Bool} (kind : Kind) {parameters : Parameters}
    (hkind : kind.Valid) (hnames : parameters.map Prod.fst = kind.names mysql) :
    Statement.Of mysql ⟨kind.commandText mysql, creations parameters ++ [.execute]⟩ kind := by
  have hsame : Statement.names ⟨kind.commandText mysql, creations parameters ++ [.execute]⟩ =
      kind.names mysql := (names_creations parameters).trans hnames
  refine ⟨hkind, rfl, hsame, ?_⟩
  rw [hsame]
  exact creations_inOrder hnames

theorem statement_of (mysql : Bool) {call : RawDb} (hcall : call.Valid) {statement : Statement}
    (hmem : statement ∈ (call.request mysql).statements) :
    ∃ kind, statement.Of mysql kind := by
  have hread : ∀ value, (readStatement value [.execute]).Of mysql .read := fun value =>
    readStatement_of mysql value rfl ⟨rfl, trivial⟩
  have hrows : ∀ value randoms, (readStatement value (readRows randoms)).Of mysql .read :=
    fun value randoms => readStatement_of mysql value (readRows_inOrder randoms).1
      (readRows_inOrder randoms).2
  cases call with
  | loadSingleQueryRow random => exact ⟨.read, List.mem_singleton.mp hmem ▸ hread random⟩
  | loadSingleQueryRowById id => exact ⟨.read, List.mem_singleton.mp hmem ▸ hread id⟩
  | loadMultipleQueriesRows random randoms =>
    exact ⟨.read, List.mem_singleton.mp hmem ▸ hrows random randoms⟩
  | loadMultipleUpdatesRows random randoms worlds =>
    rcases List.mem_pair.mp hmem with rfl | rfl
    · exact ⟨.read, hrows random randoms⟩
    · exact ⟨.updates worlds.length, batchStatement_of (.updates worlds.length) hcall
        (names_parametersOf _ worlds)⟩
  | loadFortunesRows =>
    rw [List.mem_singleton.mp hmem]
    exact ⟨.fortunes, trivial, rfl, rfl, rfl, trivial⟩
  | readMultipleRows randoms =>
    rw [List.mem_singleton.mp hmem]
    refine ⟨.rows randoms.length, batchStatement_of (.rows randoms.length) hcall ?_⟩
    rw [Kind.names, List.range_eq_range', ← List.zipIdx_map_snd 0 randoms, List.map_map,
      List.map_map]
    rfl

/-- All calls use a text with the same names. -/
theorem shared_calls (mysql : Bool) {calls : ℕ → RawDb} (hcalls : ∀ i, (calls i).Valid) :
    Shared fun i => (calls i).request mysql where
  nodup i statement hmem := by
    obtain ⟨kind, hof⟩ := statement_of mysql (hcalls i) hmem
    rw [hof.names]
    exact kind.nodup_names mysql
  inOrder i statement hmem := by
    obtain ⟨kind, hof⟩ := statement_of mysql (hcalls i) hmem
    exact hof.inOrder
  names i j statement hmem statement' hmem' htext := by
    obtain ⟨kind, hof⟩ := statement_of mysql (hcalls i) hmem
    obtain ⟨kind', hof'⟩ := statement_of mysql (hcalls j) hmem'
    rw [hof.commandText, hof'.commandText] at htext
    rw [hof.names, hof'.names, Kind.commandText_injective hof.valid hof'.valid htext]

end Calls

end FrameworkBenchmarks.AppMpower.Pool
