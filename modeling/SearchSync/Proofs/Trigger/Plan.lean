import SearchSync.Proofs.EventLog.Usable
import SearchSync.Proofs.Trigger.Reading
import SearchSync.Trigger.Basic

/-!
# Hooks and plans

A hook is a trigger with the function behind it. What an installation is going to do can be told
before it does anything: a list of statements that ends early where a trigger cannot be written.
Installing and removing change capture loop over models and kinds and count as they go, and a plan
is what these loops come to. Printing the statements has loops of its own, which come to the same
without the drops.
-/

namespace SearchSync

open Catalog

structure Hook where
  name : String
  kind : ChangeKind
  table : String
  body : TriggerBody

section Names

theorem plain_append {s t : String} (hs : Plain s) (ht : t.toList.all isPlain) :
    Plain (s ++ t) := by
  obtain ⟨hne, hplain⟩ := hs
  rw [Plain, String.toList_append, List.all_append, hplain, ht]
  exact ⟨List.append_ne_nil_of_left_ne_nil hne _, rfl⟩

theorem plain_triggerName {table : String} (h : Plain table) (kind : ChangeKind) :
    Plain (triggerName table kind) := by
  refine plain_append (plain_append h (by decide)) ?_
  cases kind <;> decide

theorem plain_cleanupName {log : String} (h : Plain log) : Plain (cleanupName log) :=
  plain_append h (by decide)

theorem plain_functionName {name : String} (h : Plain name) :
    Plain (TriggerSource.functionName name) :=
  plain_append h (by decide)

theorem append_right_inj {s s' t : String} (h : s ++ t = s' ++ t) : s = s' := by
  have hlist := congrArg String.toList h
  rw [String.toList_append, String.toList_append] at hlist
  exact String.toList_inj.mp (List.append_cancel_right hlist)

theorem functionName_inj {name name' : String}
    (h : TriggerSource.functionName name = TriggerSource.functionName name') : name = name' :=
  append_right_inj h

theorem cleanupName_inj {log log' : String} (h : cleanupName log = cleanupName log') :
    log = log' :=
  append_right_inj h

theorem kindName_length (kind : ChangeKind) : kind.name.toList.length = 6 := by
  cases kind <;> rfl

theorem kindName_inj {kind kind' : ChangeKind} (h : kind.name = kind'.name) : kind = kind' := by
  cases kind <;> cases kind' <;> simp [ChangeKind.name] at h ⊢

theorem triggerName_inj {table table' : String} {kind kind' : ChangeKind}
    (h : triggerName table kind = triggerName table' kind') : table = table' ∧ kind = kind' := by
  have hlist := congrArg String.toList h
  simp only [triggerName, String.toList_append] at hlist
  have hlength : kind.name.toList.length = kind'.name.toList.length := by
    rw [kindName_length, kindName_length]
  obtain ⟨htable, hkind⟩ := List.append_inj' hlist hlength
  exact ⟨String.toList_inj.mp (List.append_cancel_right htable),
    kindName_inj (String.toList_inj.mp hkind)⟩

theorem triggerName_ne_cleanupName (table log : String) (kind : ChangeKind) :
    triggerName table kind ≠ cleanupName log := by
  intro h
  have hlast := congrArg (fun s : String => s.toList.getLast?) h
  cases kind <;> simp [triggerName, cleanupName, ChangeKind.name, List.getLast?_append] at hlast

end Names

section Statements

variable {name table function : String}

theorem read?_of_plain (st : Statement) (h : ∀ name ∈ st.names, Plain name) :
    Command.read? st.text = some st.command :=
  st.read?_text fun name hname => Or.inl (h name hname)

theorem read?_dropTrigger (hname : Plain name) :
    Command.read? (Statement.dropTrigger name).text = some (.drop true (.trigger name none)) := by
  rw [read?_of_plain _ (by simpa [Statement.names] using hname),
    Statement.command, bare_of_plain hname]

theorem read?_dropTriggerOn (hname : Plain name) (htable : Plain table) :
    Command.read? (Statement.dropTriggerOn name table).text =
      some (.drop true (.trigger name (some table))) := by
  rw [read?_of_plain _ (by simpa [Statement.names] using ⟨hname, htable⟩),
    Statement.command, bare_of_plain hname, bare_of_plain htable]

theorem read?_dropFunction (hfunction : Plain function) :
    Command.read? (Statement.dropFunction function).text =
      some (.drop true (.function function)) := by
  rw [read?_of_plain _ (by simpa [Statement.names] using hfunction),
    Statement.command, bare_of_plain hfunction]

theorem read?_createTrigger (hname : Plain name) (htable : Plain table) (kind : ChangeKind)
    (body : TriggerBody) :
    Command.read? (Statement.createTrigger name kind table body).text =
      some (.create .plain
        (.trigger name table (Statement.createTrigger name kind table body).text)) := by
  rw [read?_of_plain _ (by simpa [Statement.names] using ⟨hname, htable⟩),
    Statement.command, bare_of_plain hname, bare_of_plain htable]

theorem read?_createTriggerFunction (hfunction : Plain function) (body : TriggerBody) :
    Command.read? (Statement.createTriggerFunction function body).text =
      some (.create .replacing
        (.function function (Statement.createTriggerFunction function body).text)) := by
  rw [read?_of_plain _ (by simpa [Statement.names] using hfunction),
    Statement.command, bare_of_plain hfunction]

theorem read?_createCallingTrigger (hname : Plain name) (htable : Plain table)
    (hfunction : Plain function) (kind : ChangeKind) :
    Command.read? (Statement.createCallingTrigger name kind table function).text =
      some (.create .plain (.callingTrigger name table function
        (Statement.createCallingTrigger name kind table function).text)) := by
  rw [read?_of_plain _ (by simpa [Statement.names] using ⟨hname, htable, hfunction⟩),
    Statement.command, bare_of_plain hname, bare_of_plain htable, bare_of_plain hfunction]

end Statements

namespace TriggerSource

variable {s : TriggerSource}

def cleanupHook (s : TriggerSource) (m : EventModel) : Hook :=
  ⟨cleanupName m.log, .delete, m.log, .cleanUp s.counter⟩

def changeHook (s : TriggerSource) (m : EventModel) (kind : ChangeKind) : Hook :=
  ⟨triggerName m.table kind, kind, m.table, .record s.procedure (logEntry m kind)⟩

def changeHooks (s : TriggerSource) (m : EventModel) : List Hook :=
  ChangeKind.all.map (s.changeHook m)

def hooks (s : TriggerSource) (m : EventModel) : List Hook := s.cleanupHook m :: s.changeHooks m

def allHooks (s : TriggerSource) (models : List EventModel) : List Hook := models.flatMap s.hooks

def dropHook (s : TriggerSource) (h : Hook) : List Statement := s.drop h.name h.table

def createHook (s : TriggerSource) (h : Hook) : List Statement :=
  s.create h.name h.kind h.table h.body

def created (s : TriggerSource) (h : Hook) : List Entry :=
  match s.dialect with
  | .mysql =>
    [.trigger h.name h.table (Statement.createTrigger h.name h.kind h.table h.body).text]
  | .postgresql =>
    [.function (functionName h.name)
        (Statement.createTriggerFunction (functionName h.name) h.body).text,
      .callingTrigger h.name h.table (functionName h.name)
        (Statement.createCallingTrigger h.name h.kind h.table (functionName h.name)).text]

def counterEntry (s : TriggerSource) : Entry := .table (bare s.counter)

def procedureEntry (s : TriggerSource) : Entry :=
  match s.dialect with
  | .mysql =>
    .procedure (bare s.procedure) (Statement.createProcedure s.procedure s.counter).text
  | .postgresql =>
    .function (bare s.procedure) (Statement.createFunction s.procedure s.counter).text

theorem names_hooks (s : TriggerSource) (m : EventModel) :
    (s.hooks m).map Hook.name = cleanupName m.log :: ChangeKind.all.map (triggerName m.table) := by
  rw [hooks, changeHooks, List.map_cons, List.map_map]
  rfl

theorem nodup_names_hooks (s : TriggerSource) (m : EventModel) :
    ((s.hooks m).map Hook.name).Nodup := by
  rw [names_hooks, List.nodup_cons]
  constructor
  · intro hmem
    obtain ⟨kind, -, hsame⟩ := List.mem_map.mp hmem
    exact triggerName_ne_cleanupName m.table m.log kind hsame
  · exact List.Nodup.map (fun _ _ hsame => (triggerName_inj hsame).2) (by decide)

theorem disjoint_names_hooks {m m' : EventModel} (h : m.table ≠ m'.table) :
    List.Disjoint ((s.hooks m).map Hook.name) ((s.hooks m').map Hook.name) ↔ m.log ≠ m'.log := by
  rw [names_hooks, names_hooks]
  constructor
  · intro hdisjoint hsame
    apply hdisjoint List.mem_cons_self
    rw [hsame]
    exact List.mem_cons_self
  · intro hlog name hname hname'
    rw [List.mem_cons, List.mem_map] at hname hname'
    rcases hname with rfl | ⟨kind, -, rfl⟩ <;> rcases hname' with hsame | ⟨kind', -, hsame⟩
    · exact hlog (cleanupName_inj hsame)
    · exact triggerName_ne_cleanupName _ _ _ hsame
    · exact triggerName_ne_cleanupName _ _ _ hsame
    · exact h (triggerName_inj hsame).1.symm

/-- Where no table has two models, only a shared event log makes two triggers have one name. -/
theorem nodup_names_iff {models : List EventModel} (h : (models.map (·.table)).Nodup) :
    ((s.allHooks models).map Hook.name).Nodup ↔ (models.map (·.log)).Nodup := by
  rw [allHooks, List.map_flatMap, List.nodup_flatMap]
  rw [List.Nodup, List.pairwise_map] at h ⊢
  constructor
  · rintro ⟨-, hdisjoint⟩
    exact (h.and hdisjoint).imp fun hm => (disjoint_names_hooks hm.1).mp hm.2
  · intro hlogs
    refine ⟨fun m _ => s.nodup_names_hooks m, ?_⟩
    exact (h.and hlogs).imp fun hm => (disjoint_names_hooks hm.1).mpr hm.2

theorem createTrigger_eq {m : EventModel} (h : m.columnPairs ≠ []) (kind : ChangeKind) :
    s.createTrigger m kind = .ok (s.createHook (s.changeHook m kind)) := by
  have hcolumns : (logEntry m kind).columns.isEmpty = false := List.isEmpty_eq_false_iff.mpr h
  simp only [createTrigger, hcolumns, Bool.false_eq_true, if_false]
  rfl

theorem createTrigger_error {m : EventModel} (h : m.columnPairs = []) (kind : ChangeKind) :
    s.createTrigger m kind = .error (.noIdColumns m.table) := by
  have hcolumns : (logEntry m kind).columns.isEmpty = true := List.isEmpty_iff.mpr h
  simp only [createTrigger, hcolumns, if_true]

end TriggerSource

end SearchSync

namespace SearchSync

/-- One statement to run, or the point from which a plan cannot go on. -/
abbrev Step := Except GenerationError Statement

namespace TriggerSource

variable {s : TriggerSource}

def creationSteps (s : TriggerSource) (m : EventModel) (kind : ChangeKind) : List Step :=
  match s.createTrigger m kind with
  | .ok statements => statements.map .ok
  | .error cause => [.error ⟨kind, m.table, cause⟩]

def installPlan (s : TriggerSource) (models : List EventModel) : List Step :=
  s.setup.map .ok ++ models.flatMap fun m =>
    (s.dropHook (s.cleanupHook m) ++ s.createHook (s.cleanupHook m)).map .ok ++
      ChangeKind.all.flatMap fun kind =>
        (s.dropHook (s.changeHook m kind)).map .ok ++ s.creationSteps m kind

theorem installPlan_ok (s : TriggerSource) {models : List EventModel}
    (h : ∀ m ∈ models, m.columnPairs ≠ []) :
    s.installPlan models = (s.setup ++
      (s.allHooks models).flatMap fun h => s.dropHook h ++ s.createHook h).map .ok := by
  rw [installPlan, List.map_append, allHooks, List.flatMap_assoc, List.map_flatMap]
  refine congrArg _ (List.flatMap_congr fun m hm => ?_)
  simp only [hooks, changeHooks, List.flatMap_cons, List.map_append, List.flatMap_map,
    List.map_flatMap, creationSteps, createTrigger_eq (h m hm)]

theorem installPlan_error (s : TriggerSource) {models : List EventModel}
    (h : ∀ m ∈ models, m.columnPairs ≠ []) {m : EventModel} (hm : m.columnPairs = [])
    (later : List EventModel) :
    ∃ rest, s.installPlan (models ++ m :: later) = (s.setup ++
      ((s.allHooks models).flatMap fun h => s.dropHook h ++ s.createHook h) ++
        (s.dropHook (s.cleanupHook m) ++ s.createHook (s.cleanupHook m) ++
          s.dropHook (s.changeHook m .insert))).map .ok ++
        .error ⟨.insert, m.table, .noIdColumns m.table⟩ :: rest := by
  have hstop : s.creationSteps m .insert = [.error ⟨.insert, m.table, .noIdColumns m.table⟩] := by
    rw [creationSteps, createTrigger_error hm]
  have hfirst := s.installPlan_ok h
  rw [installPlan] at hfirst ⊢
  rw [List.flatMap_append, ← List.append_assoc, hfirst, List.flatMap_cons, ChangeKind.all,
    List.flatMap_cons, hstop]
  simp only [List.map_append, List.append_assoc, List.singleton_append]
  exact ⟨_, rfl⟩

end TriggerSource

namespace Executor

variable {σ : Type}

def run (e : Executor σ) : List Step → σ → Except InstallError Nat × σ
  | [], s => (.ok 0, s)
  | .error g :: _, s => (.error (.notGenerated g.kind g.table g.cause), s)
  | .ok statement :: rest, s =>
    match e.execute statement.text s with
    | (.error cause, s) => (.error (.rejected statement.text cause), s)
    | (.ok (), s) =>
      match e.run rest s with
      | (.ok count, s) => (.ok (count + 1), s)
      | (.error err, s) => (.error err, s)

variable {e : Executor σ} {s s' : σ} {st : Statement} {cause : String} {α β : Type}

theorem run_cons (plan : List Step) (haccepts : e.execute st.text s = (.ok (), s')) :
    e.run (.ok st :: plan) s = ((e.run plan s').1.map (· + 1), (e.run plan s').2) := by
  rw [run, haccepts]
  dsimp only
  rcases e.run plan s' with ⟨_ | _, _⟩ <;> rfl

theorem run_rejected (plan : List Step) (hrejects : e.execute st.text s = (.error cause, s')) :
    e.run (.ok st :: plan) s = (.error (.rejected st.text cause), s') := by
  rw [run, hrejects]

theorem run_append (p q : List Step) (s : σ) (next : Nat → α) :
    ((e.run (p ++ q) s).1.map next, (e.run (p ++ q) s).2) = match e.run p s with
      | (.ok n, s') => ((e.run q s').1.map fun k => next (n + k), (e.run q s').2)
      | (.error err, s') => (.error err, s') := by
  induction p generalizing s next with
  | nil => simp only [List.nil_append, run, Nat.zero_add]
  | cons step p ih =>
    cases step with
    | error g => rfl
    | ok st =>
      rcases hexecute : e.execute st.text s with ⟨cause | _, s'⟩
      · rw [List.cons_append, run_rejected _ hexecute, run_rejected _ hexecute]
        rfl
      · have hrest := ih s' fun k => next (k + 1)
        rw [List.cons_append, run_cons _ hexecute, run_cons _ hexecute]
        refine Eq.trans ?_ (hrest.trans ?_)
        · rcases e.run (p ++ q) s' with ⟨_ | _, _⟩ <;> rfl
        · rcases e.run p s' with ⟨_ | n, s''⟩
          · rfl
          · simp only [Except.map, Nat.add_right_comm]

theorem bind_apply (x : Installation σ α) (f : α → Installation σ β) (s : σ) :
    (x >>= f) s = match (x s : Except InstallError α × σ) with
      | (.ok a, s') => f a s'
      | (.error err, s') => (.error err, s') := by
  change ((x s).1 |> ExceptT.bindCont f) (x s).2 = _
  rcases (x s : Except InstallError α × σ) with ⟨_ | _, _⟩ <;> rfl

theorem runAll_cons (e : Executor σ) (st : Statement) (sts : List Statement) :
    e.runAll (st :: sts) = do
      e.submit st
      let count ← e.runAll sts
      return count + 1 := by
  simp [runAll]

theorem runAll_eq_run (e : Executor σ) (sts : List Statement) :
    e.runAll sts = e.run (sts.map .ok) := by
  induction sts with
  | nil => rfl
  | cons st sts ih =>
    funext s
    rw [runAll_cons, bind_apply, submit, List.map_cons]
    rcases hexecute : e.execute st.text s with ⟨cause | _, s'⟩
    · rw [run_rejected _ hexecute]
    · rw [run_cons _ hexecute]
      dsimp only
      rw [bind_apply, ih]
      rcases e.run (sts.map .ok) s' with ⟨_ | _, _⟩ <;> rfl

/-- The action, entered with a count, runs the plan and goes on with what `next` makes of the count
after it. -/
def Follows (e : Executor σ) (plan : List Step) (next : Nat → α) (x : Nat → Installation σ α) :
    Prop :=
  ∀ n s, x n s = ((e.run plan s).1.map fun k => next (n + k), (e.run plan s).2)

section Follows

variable {plan later : List Step} {next : Nat → α} {x : Nat → Installation σ α}

theorem follows_pure (e : Executor σ) (next : Nat → α) : e.Follows [] next fun n => pure (next n) :=
  fun _ _ => rfl

theorem follows_throw (e : Executor σ) (g : GenerationError) (later : List Step)
    (f : Nat → PUnit → Installation σ α) :
    e.Follows (.error g :: later) next fun n =>
      throw (.notGenerated g.kind g.table g.cause) >>= f n :=
  fun _ _ => rfl

theorem Follows.runAll (h : e.Follows plan next x) (sts : List Statement) :
    e.Follows (sts.map .ok ++ plan) next fun n => e.runAll sts >>= fun k => x (n + k) := by
  intro n s
  dsimp only
  rw [bind_apply, runAll_eq_run, run_append]
  rcases e.run (sts.map .ok) s with ⟨_ | k, s'⟩
  · rfl
  · refine (h (n + k) s').trans ?_
    simp only [Nat.add_assoc]

theorem Follows.forIn {γ : Type} (h : e.Follows plan next x) {l : List γ}
    {body : γ → Nat → Installation σ (ForInStep Nat)} {round : γ → List Step}
    (hbody : ∀ a, e.Follows (round a) .yield (body a)) :
    e.Follows (l.flatMap round ++ plan) next fun n => forIn l n body >>= x := by
  induction l with
  | nil =>
    simp only [List.forIn_nil, pure_bind]
    exact h
  | cons a l ih =>
    intro n s
    dsimp only
    rw [List.forIn_cons, bind_assoc, bind_apply, hbody a n s, List.flatMap_cons, List.append_assoc,
      run_append]
    rcases e.run (round a) s with ⟨_ | k, s'⟩
    · rfl
    · refine (ih (n + k) s').trans ?_
      simp only [Nat.add_assoc]

theorem Follows.eq_run {x : Nat → Installation σ Nat} (h : e.Follows plan id x) :
    x 0 = e.run plan := by
  funext s
  refine (h 0 s).trans ?_
  rcases e.run plan s with ⟨_ | n, _⟩
  · rfl
  · simp only [Except.map, Nat.zero_add, id]

end Follows

theorem install_eq_run (e : Executor σ) (source : TriggerSource) (models : List EventModel) :
    e.install source models = e.run (source.installPlan models) := by
  have hkind (m : EventModel) (kind : ChangeKind) :
      e.Follows ((source.dropTrigger m kind).map .ok ++ source.creationSteps m kind)
        ForInStep.yield fun n => e.runAll (source.dropTrigger m kind) >>= fun k =>
          match source.createTrigger m kind with
          | .ok create => e.runAll create >>= fun k' => pure (.yield (n + k + k'))
          | .error cause => throw (.notGenerated kind m.table cause) >>= fun _ : PUnit =>
              pure (.yield (n + k)) := by
    unfold TriggerSource.creationSteps
    cases source.createTrigger m kind with
    | ok create =>
      have hcreate := (e.follows_pure ForInStep.yield).runAll create
      rw [List.append_nil] at hcreate
      exact hcreate.runAll _
    | error cause =>
      exact (e.follows_throw ⟨kind, m.table, cause⟩ [] fun n _ => pure (.yield n)).runAll _
  have hloop := (e.follows_pure id).forIn (l := models) fun m =>
    (((e.follows_pure ForInStep.yield).forIn (l := ChangeKind.all) (hkind m)).runAll
      (source.createCleanup m)).runAll (source.dropCleanup m)
  have h := (hloop.runAll source.setup).eq_run
  simp only [Nat.zero_add, List.append_nil, ← List.append_assoc, ← List.map_append] at h
  exact h

theorem uninstall_eq_run (e : Executor σ) (source : TriggerSource) (models : List EventModel) :
    e.uninstall source models = e.run ((source.teardownStatements models).map .ok) := by
  have hkind (m : EventModel) (kind : ChangeKind) :=
    (e.follows_pure ForInStep.yield).runAll (source.dropTrigger m kind)
  have hloop := (e.follows_pure id).forIn (l := models) fun m =>
    ((e.follows_pure ForInStep.yield).runAll (source.dropCleanup m)).forIn (l := ChangeKind.all)
      (hkind m)
  have h := hloop.eq_run
  simp only [List.append_nil, ← List.map_flatMap, ← List.map_append] at h
  exact h

end Executor

namespace TriggerSource

variable {s : TriggerSource}

section Collecting

variable {γ : Type} {l : List γ} {round : γ → List Statement}
  {body : γ → List Statement → Except GenerationError (ForInStep (List Statement))}

theorem forIn_collect (h : ∀ a ∈ l, ∀ sts, body a sts = .ok (.yield (sts ++ round a)))
    (sts : List Statement) : forIn l sts body = .ok (sts ++ l.flatMap round) := by
  induction l generalizing sts with
  | nil =>
    rw [List.flatMap_nil, List.append_nil]
    rfl
  | cons a l ih =>
    obtain ⟨ha, hl⟩ := List.forall_mem_cons.mp h
    rw [List.forIn_cons, ha]
    refine (ih hl _).trans ?_
    rw [List.flatMap_cons, List.append_assoc]

theorem forIn_stop {a : γ} {g : GenerationError}
    (h : ∀ a ∈ l, ∀ sts, body a sts = .ok (.yield (sts ++ round a)))
    (hstop : ∀ sts, body a sts = .error g) (later : List γ) (sts : List Statement) :
    forIn (l ++ a :: later) sts body = .error g := by
  induction l generalizing sts with
  | nil =>
    rw [List.nil_append, List.forIn_cons, hstop]
    rfl
  | cons b l ih =>
    obtain ⟨hb, hl⟩ := List.forall_mem_cons.mp h
    rw [List.cons_append, List.forIn_cons, hb]
    exact ih hl _

end Collecting

def setupKind (s : TriggerSource) (m : EventModel) (kind : ChangeKind) (sts : List Statement) :
    Except GenerationError (ForInStep (List Statement)) :=
  match s.createTrigger m kind with
  | .ok create => pure (.yield (sts ++ create))
  | .error cause => do
    throw ⟨kind, m.table, cause⟩
    pure (.yield sts)

def setupModel (s : TriggerSource) (m : EventModel) (sts : List Statement) :
    Except GenerationError (ForInStep (List Statement)) := do
  let sts ← forIn ChangeKind.all (sts ++ s.createCleanup m) (s.setupKind m)
  pure (.yield sts)

theorem setupStatements_eq (s : TriggerSource) (models : List EventModel) :
    s.setupStatements models = forIn models s.setup s.setupModel :=
  bind_pure (forIn models s.setup s.setupModel)

theorem setupModel_ok {m : EventModel} (h : m.columnPairs ≠ []) (sts : List Statement) :
    s.setupModel m sts = .ok (.yield (sts ++ (s.hooks m).flatMap s.createHook)) := by
  have hkinds : ∀ kind ∈ ChangeKind.all, ∀ sts, s.setupKind m kind sts =
      .ok (.yield (sts ++ s.createHook (s.changeHook m kind))) := by
    intro kind _ sts
    rw [setupKind, createTrigger_eq h]
    rfl
  rw [setupModel, forIn_collect hkinds, List.append_assoc, hooks, changeHooks, List.flatMap_cons,
    List.flatMap_map]
  rfl

theorem setupModel_error {m : EventModel} (h : m.columnPairs = []) (sts : List Statement) :
    s.setupModel m sts = .error ⟨.insert, m.table, .noIdColumns m.table⟩ := by
  rw [setupModel, ChangeKind.all, List.forIn_cons, setupKind, createTrigger_error h]
  rfl

theorem setupStatements_ok {models : List EventModel} (h : ∀ m ∈ models, m.columnPairs ≠ []) :
    s.setupStatements models = .ok (s.setup ++ (s.allHooks models).flatMap s.createHook) := by
  rw [setupStatements_eq, forIn_collect fun m hm => setupModel_ok (h m hm), allHooks,
    List.flatMap_assoc]

theorem setupStatements_error {models : List EventModel} (h : ∀ m ∈ models, m.columnPairs ≠ [])
    {m : EventModel} (hm : m.columnPairs = []) (later : List EventModel) :
    s.setupStatements (models ++ m :: later) =
      .error ⟨.insert, m.table, .noIdColumns m.table⟩ := by
  rw [setupStatements_eq]
  exact forIn_stop (fun m hm => setupModel_ok (h m hm)) (setupModel_error hm) later s.setup

theorem teardown_eq (s : TriggerSource) (models : List EventModel) :
    s.teardownStatements models =
      (models.flatMap fun m => s.changeHooks m ++ [s.cleanupHook m]).flatMap s.dropHook := by
  rw [teardownStatements, List.flatMap_assoc]
  refine List.flatMap_congr fun m _ => ?_
  rw [List.flatMap_append, changeHooks, List.flatMap_map, List.flatMap_singleton]
  rfl

end TriggerSource

end SearchSync
