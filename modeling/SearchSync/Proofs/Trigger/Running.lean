import SearchSync.Config.Basic
import SearchSync.Proofs.Trigger.Plan

/-!
# Plans carried out

By a database whose catalog is strict and whose answers may get lost, and by any executor: it runs
what is planned up to the first statement that it rejects. So what is printed is what is executed.
-/

namespace SearchSync

open Catalog

/-- What becomes of a statement that is sent to a database. -/
inductive Delivery
  | answered
  | lost
  | unanswered
  deriving DecidableEq, Repr

structure Database where
  catalog : List Entry
  /-- What becomes of the statements to come. Those after the last of the list are answered. -/
  deliveries : List Delivery
  refused : List String
  deriving DecidableEq, Repr

namespace Database

def receive (db : Database) (text : String) : Except String Unit × Database :=
  match (Command.read? text).bind (Command.run? db.catalog) with
  | some c => (.ok (), { db with catalog := c })
  | none => (.error "refused", { db with refused := db.refused ++ [text] })

def execute (text : String) (db : Database) : Except String Unit × Database :=
  match db.deliveries with
  | [] => db.receive text
  | .answered :: later => { db with deliveries := later }.receive text
  | .lost :: later => (.error "lost", { db with deliveries := later })
  | .unanswered :: later => (.error "lost", ({ db with deliveries := later }.receive text).2)

def executor : Executor Database := ⟨execute⟩

end Database

inductive Operation
  | install (models : List EventModel)
  | uninstall (models : List EventModel)
  | recreateCounter

namespace Operation

def models : Operation → List EventModel
  | .install models | .uninstall models => models
  | .recreateCounter => []

def perform (s : TriggerSource) (db : Database) : Operation → Except InstallError Nat × Database
  | .install models => Database.executor.install s models db
  | .uninstall models => Database.executor.uninstall s models db
  | .recreateCounter => Database.executor.recreateCounter s db

def performAll (s : TriggerSource) (db : Database) (ops : List Operation) : Database :=
  ops.foldl (fun db op => (op.perform s db).2) db

end Operation

/-- The catalog takes the statements one after the other, and `P` holds of it all the way. -/
inductive Accepts (P : List Entry → Prop) : List Statement → List Entry → List Entry → Prop
  | nil {c : List Entry} (here : P c) : Accepts P [] c c
  | cons {st : Statement} {sts : List Statement} {c c' c'' : List Entry} (here : P c)
      (step : (Command.read? st.text).bind (Command.run? c) = some c')
      (rest : Accepts P sts c' c'') : Accepts P (st :: sts) c c''

section Accepts

variable {P : List Entry → Prop} {st : Statement} {sts sts' : List Statement}
  {c c' c'' : List Entry}

theorem Accepts.append (h : Accepts P sts c c') (h' : Accepts P sts' c' c'') :
    Accepts P (sts ++ sts') c c'' := by
  induction h with
  | nil => exact h'
  | cons here step _ ih => exact .cons here step (ih h')

theorem Accepts.first (h : Accepts P sts c c') : P c := by
  cases h <;> assumption

theorem execute_cases {db db' : Database} {text : String} {r : Except String Unit}
    (hstep : (Command.read? text).bind (Command.run? db.catalog) = some c)
    (hrun : db.execute text = (r, db')) :
    db'.refused = db.refused ∧
      ((r = .ok () ∧ db'.catalog = c ∧ ∀ d ∈ db'.deliveries, d ∈ db.deliveries) ∨
        ((∃ cause, r = .error cause) ∧ (db'.catalog = db.catalog ∨ db'.catalog = c) ∧
          ∃ d ∈ db.deliveries, d ≠ .answered)) := by
  have hreceive (deliveries : List Delivery) :
      ({ db with deliveries } : Database).receive text =
        (.ok (), { db with catalog := c, deliveries }) := by
    simp only [Database.receive, hstep]
  unfold Database.execute at hrun
  split at hrun <;> rename_i hdeliveries
  · cases (hreceive db.deliveries).symm.trans hrun
    exact ⟨rfl, Or.inl ⟨rfl, rfl, fun _ => id⟩⟩
  · rw [hreceive] at hrun
    cases hrun
    rw [hdeliveries]
    exact ⟨rfl, Or.inl ⟨rfl, rfl, fun _ => List.mem_cons_of_mem _⟩⟩
  · cases hrun
    rw [hdeliveries]
    exact ⟨rfl, Or.inr ⟨⟨_, rfl⟩, Or.inl rfl, _, List.mem_cons_self, nofun⟩⟩
  · rw [hreceive] at hrun
    cases hrun
    rw [hdeliveries]
    exact ⟨rfl, Or.inr ⟨⟨_, rfl⟩, Or.inr rfl, _, List.mem_cons_self, nofun⟩⟩

theorem Accepts.split (h : Accepts P (sts ++ sts') c c') :
    ∃ c₁, Accepts P sts c c₁ ∧ Accepts P sts' c₁ c' := by
  induction sts generalizing c with
  | nil => exact ⟨c, .nil h.first, h⟩
  | cons st sts ih =>
    cases h with
    | cons here step rest =>
      obtain ⟨c₁, hfirst, hsecond⟩ := ih rest
      exact ⟨c₁, .cons here step hfirst, hsecond⟩

theorem Accepts.creates {clause : Clause} {e : Entry} (h : Accepts P [st] c c')
    (hread : Command.read? st.text = some (.create clause e)) :
    (clause = .plain → e.object ∉ objects c) ∧
      ∀ o, o ∈ objects c' ↔ o = e.object ∨ o ∈ objects c := by
  cases h with
  | cons here step rest =>
    cases rest
    rw [hread] at step
    exact objects_of_create step

theorem step_of_receive {text : String} {db db' : Database}
    (h : db.receive text = (.ok (), db')) :
    (Command.read? text).bind (Command.run? db.catalog) = some db'.catalog := by
  unfold Database.receive at h
  split at h
  · rename_i c hstep
    cases h
    exact hstep
  · cases h

theorem step_of_execute {text : String} {db db' : Database}
    (h : db.execute text = (.ok (), db')) :
    (Command.read? text).bind (Command.run? db.catalog) = some db'.catalog := by
  unfold Database.execute at h
  split at h
  · exact step_of_receive h
  · have hstep := step_of_receive h
    exact hstep
  · cases h
  · cases h

theorem run_accepts {db db' : Database} {r : Except InstallError Nat}
    (h : Accepts P sts db.catalog c)
    (hrun : Database.executor.run (sts.map .ok) db = (r, db')) :
    db'.refused = db.refused ∧ P db'.catalog ∧ (∀ n, r = .ok n → db'.catalog = c) ∧
      ((∀ d ∈ db.deliveries, d = .answered) → r = .ok sts.length) := by
  generalize hbegin : db.catalog = begin at h
  induction h generalizing db db' r with
  | nil here =>
    cases hrun
    exact ⟨rfl, hbegin ▸ here, fun _ _ => hbegin, fun _ => rfl⟩
  | @cons st sts c₀ c₁ c₂ here step rest ih =>
    rw [← hbegin] at step
    rw [List.map_cons, Executor.run] at hrun
    generalize hexecute : Database.executor.execute st.text db = answer at hrun
    obtain ⟨r₁, db₁⟩ := answer
    obtain ⟨hrefused, ⟨rfl, hcatalog, hlater⟩ | ⟨⟨cause, rfl⟩, hcatalog, d, hd, hlost⟩⟩ :=
      execute_cases step hexecute
    · dsimp only at hrun
      generalize hrest : Database.executor.run (sts.map .ok) db₁ = outcome at hrun
      obtain ⟨r₂, db₂⟩ := outcome
      obtain ⟨hrefused₂, hlast, hdone, hall⟩ := ih hrest hcatalog
      have hanswered (h : ∀ d ∈ db.deliveries, d = .answered) : r₂ = .ok sts.length :=
        hall fun d hd => h d (hlater d hd)
      cases r₂ with
      | error e =>
        cases hrun
        refine ⟨hrefused₂.trans hrefused, hlast, fun _ h => ?_, fun h => ?_⟩
        · cases h
        · cases hanswered h
      | ok count =>
        cases hrun
        refine ⟨hrefused₂.trans hrefused, hlast, fun _ _ => hdone count rfl, fun h => ?_⟩
        cases hanswered h
        rfl
    · cases hrun
      refine ⟨hrefused, ?_, fun _ h => ?_, fun hall => absurd (hall d hd) hlost⟩
      · rcases hcatalog with hsame | hstepped
        · rw [hsame, hbegin]
          exact here
        · rw [hstepped]
          exact rest.first
      · cases h

end Accepts

end SearchSync

namespace SearchSync

def Statement.isDrop : Statement → Bool
  | .dropCounter _ | .dropProcedure _ | .dropFunction _ => true
  | .dropTrigger _ | .dropTriggerOn _ _ => true
  | _ => false

namespace Executor

variable {σ : Type}

def accepting : Executor (List String) := ⟨fun text done => (.ok (), done ++ [text])⟩

def recording (e : Executor σ) : Executor (σ × List String) where
  execute text := fun (s, done) =>
    match e.execute text s with
    | (.ok (), s) => (.ok (), s, done ++ [text])
    | (.error cause, s) => (.error cause, s, done)

def after? (e : Executor σ) : List String → σ → Option σ
  | [], s => some s
  | text :: rest, s =>
    match e.execute text s with
    | (.ok (), s) => e.after? rest s
    | (.error _, _) => none

/-- An executor runs the texts that are planned and ends as planned, or it runs those before the
first that it rejects, which the error then carries. Results stand with the texts that were run. -/
def CarriesOut (e : Executor σ) (s : σ) (planned actual : Except InstallError Nat × List String) :
    Prop :=
  ((e.after? planned.2 s).isSome ∧ actual = planned) ∨
    ∃ before text later s' cause, planned.2 = before ++ text :: later ∧
      e.after? before s = some s' ∧ (e.execute text s').1 = .error cause ∧
      actual = (.error (.rejected text cause), before)

section Run

variable {e : Executor σ} {s s' : σ} {st : Statement} {text cause : String}
  {r r' : Except InstallError Nat} {planned actual : List String}

theorem CarriesOut.cons (haccepts : e.execute text s = (.ok (), s'))
    (h : e.CarriesOut s' (r, planned) (r', actual)) :
    e.CarriesOut s (r.map (· + 1), text :: planned) (r'.map (· + 1), text :: actual) := by
  have hafter (texts : List String) : e.after? (text :: texts) s = e.after? texts s' := by
    rw [after?, haccepts]
  rcases h with ⟨hall, hsame⟩ |
    ⟨before, rejected, later, s'', cause, hplanned, hbefore, hrejects, hactual⟩
  · cases hsame
    exact Or.inl ⟨by rwa [hafter], rfl⟩
  · obtain ⟨rfl, rfl⟩ := Prod.mk.inj hactual
    refine Or.inr ⟨text :: actual, rejected, later, s'', cause, ?_, ?_, hrejects, rfl⟩
    · exact congrArg (text :: ·) hplanned
    · rwa [hafter]

theorem run_carriesOut (e : Executor σ) (plan : List Step) (s : σ) (done done' : List String) :
    ∃ r planned r' s' actual, accepting.run plan done = (r, done ++ planned) ∧
      e.recording.run plan (s, done') = (r', s', done' ++ actual) ∧
      e.CarriesOut s (r, planned) (r', actual) := by
  induction plan generalizing s done done' with
  | nil =>
    refine ⟨.ok 0, [], .ok 0, s, [], ?_, ?_, Or.inl ⟨rfl, rfl⟩⟩ <;> rw [List.append_nil] <;> rfl
  | cons step plan ih =>
    cases step with
    | error g =>
      refine ⟨_, [], .error (.notGenerated g.kind g.table g.cause), s, [], ?_, ?_,
        Or.inl ⟨rfl, rfl⟩⟩ <;> rw [List.append_nil] <;> rfl
    | ok st =>
      have hplanned : accepting.execute st.text done = (.ok (), done ++ [st.text]) := rfl
      cases hexecute : e.execute st.text s with
      | mk answer s' =>
        cases answer with
        | error cause =>
          obtain ⟨r, planned, -, -, -, hrun, -, -⟩ := ih s (done ++ [st.text]) []
          have hrejects : e.recording.execute st.text (s, done') = (.error cause, s', done') := by
            simp only [recording, hexecute]
          refine ⟨r.map (· + 1), st.text :: planned, _, s', [], ?_, ?_, Or.inr
            ⟨[], st.text, planned, s, cause, rfl, rfl, congrArg Prod.fst hexecute, rfl⟩⟩
          · rw [run_cons plan hplanned, hrun, List.append_assoc]
            rfl
          · rw [run_rejected plan hrejects, List.append_nil]
        | ok =>
          obtain ⟨r, planned, r', s'', actual, hrun, hrecording, hcarries⟩ :=
            ih s' (done ++ [st.text]) (done' ++ [st.text])
          have haccepts : e.recording.execute st.text (s, done') =
              (.ok (), s', done' ++ [st.text]) := by
            simp only [recording, hexecute]
          refine ⟨_, _, _, s'', _, ?_, ?_, hcarries.cons hexecute⟩
          · rw [run_cons plan hplanned, hrun, List.append_assoc]
            rfl
          · rw [run_cons plan haccepts, hrecording, List.append_assoc]
            rfl

theorem run_accepting_ok (sts : List Statement) (done : List String) :
    accepting.run (sts.map .ok) done = (.ok sts.length, done ++ sts.map Statement.text) := by
  induction sts generalizing done with
  | nil =>
    rw [List.map_nil, List.map_nil, List.append_nil]
    rfl
  | cons st sts ih =>
    have hst : accepting.execute st.text done = (.ok (), done ++ [st.text]) := rfl
    rw [List.map_cons, run_cons _ hst, ih, List.append_assoc]
    rfl

theorem run_accepting_error (sts : List Statement) (g : GenerationError) (rest : List Step)
    (done : List String) : accepting.run (sts.map .ok ++ .error g :: rest) done =
      (.error (.notGenerated g.kind g.table g.cause), done ++ sts.map Statement.text) := by
  induction sts generalizing done with
  | nil =>
    rw [List.map_nil, List.map_nil, List.append_nil]
    rfl
  | cons st sts ih =>
    have hst : accepting.execute st.text done = (.ok (), done ++ [st.text]) := rfl
    rw [List.map_cons, List.cons_append, run_cons _ hst, ih, List.append_assoc]
    rfl

end Run

end Executor

namespace TriggerSource

variable {s : TriggerSource}

theorem isDrop_of_dropHook (h : Hook) : ∀ st ∈ s.dropHook h, st.isDrop = true := by
  unfold dropHook drop
  cases s.dialect <;> simp [Statement.isDrop]

theorem isDrop_of_createHook (h : Hook) : ∀ st ∈ s.createHook h, st.isDrop = false := by
  unfold createHook create
  cases s.dialect <;> simp [Statement.isDrop]

theorem filter_replacing (hs : List Hook) :
    (hs.flatMap fun h => s.dropHook h ++ s.createHook h).filter (!·.isDrop) =
      hs.flatMap s.createHook := by
  rw [List.filter_flatMap]
  refine List.flatMap_congr fun h _ => ?_
  rw [List.filter_append, List.filter_eq_nil_iff.mpr, List.filter_eq_self.mpr, List.nil_append]
  · simpa using s.isDrop_of_createHook h
  · simpa using s.isDrop_of_dropHook h

def replacing (s : TriggerSource) (create : EventModel → ChangeKind → List Statement)
    (models : List EventModel) : List Statement :=
  models.flatMap fun m => s.dropCleanup m ++ s.createCleanup m ++
    ChangeKind.all.flatMap fun kind => s.dropTrigger m kind ++ create m kind

theorem replacing_eq (s : TriggerSource) (models : List EventModel) :
    s.replacing (fun m kind => s.createHook (s.changeHook m kind)) models =
      (s.allHooks models).flatMap fun h => s.dropHook h ++ s.createHook h := by
  rw [allHooks, List.flatMap_assoc]
  rfl

end TriggerSource

theorem exists_first_uncopied {models : List EventModel}
    (h : ¬∀ m ∈ models, m.columnPairs ≠ []) : ∃ done m later, models = done ++ m :: later ∧
      (∀ m ∈ done, m.columnPairs ≠ []) ∧ m.columnPairs = [] := by
  have hsome : (models.find? fun m => m.columnPairs.isEmpty).isSome := by
    rw [List.find?_isSome]
    simpa using h
  obtain ⟨m, hm⟩ := Option.isSome_iff_exists.mp hsome
  obtain ⟨hempty, done, later, hsplit, hdone⟩ := List.find?_eq_some_iff_append.mp hm
  exact ⟨done, m, later, hsplit, by simpa using hdone, List.isEmpty_iff.mp hempty⟩

/-- What is printed is what is executed. An executor that accepts everything is given the statements
of the script when change capture is removed. When it is installed it is given those of the script
and, before the triggers that they create, the statements that drop them; or neither the script can
be written nor change capture be installed, for the same trigger and the same reason, which is told
in the same words. Any other executor carries that out as far as it accepts it. -/
theorem scripts_match_execution (c : Config) :
    let s := c.source
    let uninstalled := Executor.accepting.uninstall s c.models []
    let installed := Executor.accepting.install s c.models []
    uninstalled = (.ok c.teardownStatements.length, c.teardownStatements.map Statement.text) ∧
    ((∃ printed create, c.setupStatements = .ok printed ∧
        (∀ m ∈ c.models, ∀ kind, s.createTrigger m kind = .ok (create m kind)) ∧
        installed = (.ok (s.setup ++ s.replacing create c.models).length,
          (s.setup ++ s.replacing create c.models).map Statement.text) ∧
        printed = s.setup ++ (s.replacing create c.models).filter (!·.isDrop)) ∨
      ∃ g err create models m later, c.setupStatements = .error g ∧
        c.models = models ++ m :: later ∧
        (∀ m ∈ models, ∀ kind, s.createTrigger m kind = .ok (create m kind)) ∧
        s.createTrigger m .insert = .error g.cause ∧ g.kind = .insert ∧ g.table = m.table ∧
        err = InstallError.notGenerated g.kind g.table g.cause ∧ err.message = g.message ∧
        err.causes = g.causes ∧
        installed = (.error err, (s.setup ++ s.replacing create models ++
          (s.dropCleanup m ++ s.createCleanup m ++ s.dropTrigger m .insert)).map Statement.text)) ∧
    ∀ (σ : Type) (e : Executor σ) (before : σ),
      (∃ r after executed,
        e.recording.uninstall s c.models (before, []) = (r, after, executed) ∧
          e.CarriesOut before uninstalled (r, executed)) ∧
      ∃ r after executed,
        e.recording.install s c.models (before, []) = (r, after, executed) ∧
          e.CarriesOut before installed (r, executed) := by
  intro s uninstalled installed
  have huninstalled : uninstalled =
      Executor.accepting.run ((s.teardownStatements c.models).map .ok) [] :=
    congrFun (Executor.accepting.uninstall_eq_run s c.models) []
  have hinstalled : installed = Executor.accepting.run (s.installPlan c.models) [] :=
    congrFun (Executor.accepting.install_eq_run s c.models) []
  refine ⟨?_, ?_, fun σ e before => ⟨?_, ?_⟩⟩
  · rw [huninstalled]
    exact Executor.run_accepting_ok _ _
  · by_cases hall : ∀ m ∈ c.models, m.columnPairs ≠ []
    · left
      refine ⟨_, fun m kind => s.createHook (s.changeHook m kind), ?_,
        fun m hm kind => TriggerSource.createTrigger_eq (hall m hm) kind, ?_, rfl⟩
      · rw [TriggerSource.replacing_eq, TriggerSource.filter_replacing]
        exact TriggerSource.setupStatements_ok hall
      · rw [hinstalled, s.installPlan_ok hall, Executor.run_accepting_ok,
          TriggerSource.replacing_eq, List.nil_append]
    · right
      obtain ⟨models, m, later, hmodels, hdone, hm⟩ := exists_first_uncopied hall
      obtain ⟨rest, hplan⟩ := s.installPlan_error hdone hm later
      refine ⟨⟨.insert, m.table, .noIdColumns m.table⟩, _,
        fun m kind => s.createHook (s.changeHook m kind), models, m, later, ?_, hmodels,
        fun m hm kind => TriggerSource.createTrigger_eq (hdone m hm) kind,
        TriggerSource.createTrigger_error hm .insert, rfl, rfl, rfl, rfl, rfl, ?_⟩
      · rw [Config.setupStatements, hmodels]
        exact TriggerSource.setupStatements_error hdone hm later
      · rw [hinstalled, hmodels, hplan, Executor.run_accepting_error, TriggerSource.replacing_eq,
          List.nil_append]
        rfl
  · obtain ⟨r, planned, r', after, executed, hplanned, hrun, hcarries⟩ :=
      e.run_carriesOut ((s.teardownStatements c.models).map .ok) before [] []
    rw [huninstalled, hplanned]
    refine ⟨r', after, executed, ?_, hcarries⟩
    rw [Executor.uninstall_eq_run]
    exact hrun
  · obtain ⟨r, planned, r', after, executed, hplanned, hrun, hcarries⟩ :=
      e.run_carriesOut (s.installPlan c.models) before [] []
    rw [hinstalled, hplanned]
    refine ⟨r', after, executed, ?_, hcarries⟩
    rw [Executor.install_eq_run]
    exact hrun

end SearchSync
