import SearchSync.Config.Yaml
import SearchSync.Proofs.EventLog.Usable
import SearchSync.Proofs.EventLog.Violations
import SearchSync.Proofs.Trigger.Installing
import SearchSync.Proofs.Trigger.Running

/-!
# The script that sets up change capture

What is read as a configuration has been checked. Its models are usable, so a script can be printed
for them, and a database takes the script exactly if no two of its triggers have one name.
-/

namespace SearchSync

namespace Yaml.Decoder

variable {α β : Type} {P : α → Prop} {Q : β → Prop}

def Yields (P : α → Prop) (read : StateT Nat Option α) : Prop :=
  ∀ left a left', read left = some (a, left') → P a

theorem yields_bind {read : StateT Nat Option α} {next : α → StateT Nat Option β}
    (h : Yields P read) (hnext : ∀ a, P a → Yields Q (next a)) : Yields Q (read >>= next) := by
  intro left b left' hrun
  obtain ⟨⟨a, mid⟩, ha, hb⟩ := Option.bind_eq_some_iff.mp hrun
  exact hnext a (h left a mid ha) mid b left' hb

theorem yields_pure {a : α} (h : P a) : Yields P (pure a : StateT Nat Option α) := by
  rintro left a left' ⟨⟩
  exact h

theorem yields_failure : Yields P (failure : StateT Nat Option α) := nofun

theorem yields_any (read : StateT Nat Option α) : Yields (fun _ => True) read :=
  fun _ _ _ _ => trivial

theorem yields_mapM {f : β → StateT Nat Option α} (h : ∀ b, Yields P (f b)) (bs : List β) :
    Yields (∀ a ∈ ·, P a) (bs.mapM f) := by
  induction bs with
  | nil => exact yields_pure (List.forall_mem_nil _)
  | cons b bs ih =>
    rw [List.mapM_cons]
    refine yields_bind (h b) fun a ha => yields_bind ih fun as has => yields_pure ?_
    exact List.forall_mem_cons.mpr ⟨ha, has⟩

theorem yields_list {item : Decoder α} (h : ∀ d n, Yields P (item d n)) (d : Document) (n : Node) :
    Yields (∀ a ∈ ·, P a) (list item d n) := by
  refine yields_bind (yields_any _) fun n _ => ?_
  split
  · exact yields_mapM (h d) _
  · split
    · exact yields_pure (List.forall_mem_nil _)
    · exact yields_failure

theorem yields_fieldOr {name : String} {value : Decoder α} {default : α}
    (h : ∀ d n, Yields P (value d n)) (hdefault : P default) (d : Document)
    (ms : List (String × Node)) : Yields P (fieldOr name value default d ms) := by
  have hfield : Yields (∀ a ∈ ·, P a) (field? name value d ms) := by
    unfold field?
    split
    · exact yields_pure nofun
    · refine yields_bind (h d _) fun a ha => yields_pure ?_
      rintro b ⟨⟩
      exact ha
    · exact yields_failure
  refine yields_bind hfield fun a? ha => yields_pure ?_
  cases a? with
  | none => exact hdefault
  | some a => exact ha a rfl

theorem yields_liftM {a? : Option α} (h : ∀ a ∈ a?, P a) :
    Yields P (liftM a? : StateT Nat Option α) := by
  intro left a left' hrun
  obtain ⟨b, hb, heq⟩ := Option.bind_eq_some_iff.mp hrun
  cases heq
  exact h a hb

theorem of_readText? {value : Decoder α} (h : ∀ d n, Yields P (value d n)) {text : String} {a : α}
    (hread : value.readText? text = some a) : P a := by
  obtain ⟨d, -, hrun⟩ := Option.bind_eq_some_iff.mp hread
  obtain ⟨⟨b, left⟩, hvalue, rfl⟩ := Option.map_eq_some_iff.mp hrun
  exact h d d.root d.aliasLimit b left hvalue

end Yaml.Decoder

theorem Yaml.Document.read?_of_toList {text : String} {cs : List Char} (h : text.toList = cs) :
    read? text = (do
      let gs ← if cs.all isAllowed then some (place 0 0 0 (unifyLineEnds cs)) else none
      let ts ← Layout.run (gs.length + 1) .start gs
      ofTokens? ts) := by
  subst h
  unfold read? Token.ofText? glyphs?
  cases text.toList.all isAllowed <;> rfl

open Yaml.Decoder

theorem EventModel.checked_of_toOption {m m' : EventModel} (h : m'.checked.toOption = some m) :
    m.checked = .ok m := by
  cases hcheck : m'.check with
  | error e =>
    rw [checked, hcheck] at h
    cases h
  | ok =>
    have hsame : m'.checked = .ok m' := by rw [checked, hcheck]; rfl
    rw [hsame] at h
    cases h
    exact hsame

theorem EventModel.yields_ofYaml (d : Yaml.Document) (n : Yaml.Node) :
    Yields (fun m => m.checked = .ok m) (EventModel.ofYaml d n) := by
  refine yields_bind (yields_any _) fun ms _ => yields_bind (yields_any _) fun table _ =>
    yields_bind (yields_any _) fun log _ => yields_bind (yields_any _) fun kindColumn _ =>
      yields_bind (yields_any _) fun mappings _ => yields_liftM fun m hm => ?_
  exact checked_of_toOption hm

/-- What a configuration is checked for when it is read. -/
structure Config.Accepted (c : Config) : Prop where
  models : ∀ m ∈ c.models, m.checked = .ok m
  tables : (c.models.map (·.table)).Nodup
  schema : ∃ schema, c.schema = .ok schema

theorem Config.yields_ofYaml (d : Yaml.Document) (n : Yaml.Node) :
    Yields (fun c : Config => ∀ m ∈ c.models, m.checked = .ok m) (Config.ofYaml d n) := by
  have hmodels (ms : List (String × Yaml.Node)) : Yields (∀ m ∈ ·, m.checked = .ok m)
      (fieldOr "event_models" (list EventModel.ofYaml) [] d ms) :=
    yields_fieldOr (yields_list EventModel.yields_ofYaml) (List.forall_mem_nil _) d ms
  exact yields_bind (yields_any _) fun ms _ => yields_bind (yields_any _) fun dialect _ =>
    yields_bind (yields_any _) fun counter _ => yields_bind (yields_any _) fun procedure _ =>
      yields_bind (hmodels ms) fun models hchecked => yields_bind (yields_any _) fun roots _ =>
        yields_pure hchecked

theorem Config.check_ok_iff {c : Config} :
    c.check = .ok () ↔ (c.models.map (·.table)).Nodup ∧ ∃ schema, c.schema = .ok schema := by
  unfold check
  cases htable : c.firstRepeatedTable? with
  | some table =>
    have hnot : ¬(c.models.map (·.table)).Nodup := by
      intro hnodup
      have hnone : c.firstRepeatedTable? = none :=
        EventModel.firstRepeated?_eq_none.mpr ⟨hnodup, fun _ _ => List.not_mem_nil⟩
      rw [hnone] at htable
      cases htable
    simp [hnot]
  | none =>
    have hnodup := (EventModel.firstRepeated?_eq_none.mp htable).1
    cases hschema : c.schema with
    | error e => simp [Except.mapError, Except.map]
    | ok schema => simp [Except.mapError, Except.map, hnodup]

theorem Config.ofText_eq_ok_iff {text : String} {c : Config} {warnings : List UncontainedWarning} :
    Config.ofText text = .ok (c, warnings) ↔ readText? Config.ofYaml text = some c ∧
      c.check = .ok () ∧ warnings = (c.schema.map c.warnings).toOption.getD [] := by
  unfold ofText
  cases readText? Config.ofYaml text with
  | none => exact ⟨nofun, nofun⟩
  | some read =>
    constructor
    · intro h
      simp only at h
      cases hcheck : read.check with
      | error e =>
        rw [hcheck] at h
        cases h
      | ok =>
        rw [hcheck] at h
        cases h
        exact ⟨rfl, hcheck, rfl⟩
    · rintro ⟨⟨⟩, hcheck, rfl⟩
      simp only [hcheck]
      rfl

theorem Config.accepted_of_ofText {text : String} {c : Config}
    {warnings : List UncontainedWarning} (h : Config.ofText text = .ok (c, warnings)) :
    c.Accepted := by
  obtain ⟨hread, hcheck, -⟩ := ofText_eq_ok_iff.mp h
  obtain ⟨htables, hschema⟩ := check_ok_iff.mp hcheck
  exact ⟨of_readText? yields_ofYaml hread, htables, hschema⟩

end SearchSync

namespace SearchSync

open Catalog

theorem accepts_of_run_ok {sts : List Statement} {db : Database} {n : Nat}
    (h : (Database.executor.run (sts.map .ok) db).1 = .ok n) :
    ∃ c, Accepts (fun _ => True) sts db.catalog c := by
  induction sts generalizing db n with
  | nil => exact ⟨db.catalog, .nil trivial⟩
  | cons st sts ih =>
    rw [List.map_cons] at h
    cases hexecute : Database.executor.execute st.text db with
    | mk answer db' =>
      cases answer with
      | error cause =>
        rw [Executor.run_rejected _ hexecute] at h
        cases h
      | ok =>
        rw [Executor.run_cons _ hexecute] at h
        obtain ⟨n, hrest⟩ : ∃ n, (Database.executor.run (sts.map .ok) db').1 = .ok n := by
          cases hrun : (Database.executor.run (sts.map .ok) db').1 with
          | error e =>
            rw [hrun] at h
            cases h
          | ok n => exact ⟨n, rfl⟩
        obtain ⟨c, haccepts⟩ := ih hrest
        exact ⟨c, .cons trivial (step_of_execute hexecute) haccepts⟩

namespace TriggerSource

variable {s : TriggerSource} {hooks hs : List Hook} {h h' : Hook} {c c' : List Entry}
  {P : List Entry → Prop}

theorem name_eq_of_mem_created {o : Object} (ho : o ∈ objects (s.created h))
    (ho' : o ∈ objects (s.created h')) : h.name = h'.name := by
  cases hdialect : s.dialect with
  | mysql =>
    rw [objects_created_mysql hdialect, List.mem_singleton] at ho ho'
    exact (Object.trigger.inj (ho.symm.trans ho')).1
  | postgresql =>
    rw [objects_created_postgresql hdialect, List.mem_cons, List.mem_singleton] at ho ho'
    rcases ho with rfl | rfl <;> rcases ho' with ho' | ho'
    · exact functionName_inj (Object.function.inj ho')
    · exact nomatch ho'
    · exact nomatch ho'
    · exact (Object.trigger.inj ho').1

theorem Orderly.accepts_createHooks (horderly : s.Orderly hooks c) (hdistinct : s.Distinct hooks)
    (hsub : ∀ h ∈ hs, h ∈ hooks) (hnames : (hs.map Hook.name).Nodup)
    (hnew : ∀ h ∈ hs, ∀ o ∈ objects (s.created h), o ∉ objects c) :
    ∃ c', Accepts (s.Orderly hooks) (hs.flatMap s.createHook) c c' := by
  induction hs generalizing c with
  | nil => exact ⟨c, .nil horderly⟩
  | cons h hs ih =>
    obtain ⟨hh, hrest⟩ := List.forall_mem_cons.mp hsub
    obtain ⟨hnew₁, hnew⟩ := List.forall_mem_cons.mp hnew
    rw [List.map_cons, List.nodup_cons] at hnames
    obtain ⟨c₁, haccepts₁, horderly₁, hc₁⟩ := horderly.accepts_createHook hdistinct hh hnew₁
    have hnew₂ : ∀ h' ∈ hs, ∀ o ∈ objects (s.created h'), o ∉ objects c₁ := by
      intro h' hh' o ho hpresent
      obtain ⟨x, hx, rfl⟩ := mem_objects.mp hpresent
      rcases (hc₁ x).mp hx with hx | hx
      · have hsame := name_eq_of_mem_created (mem_objects.mpr ⟨x, hx, rfl⟩) ho
        exact hnames.1 (hsame ▸ List.mem_map_of_mem hh')
      · exact hnew h' hh' _ ho (mem_objects.mpr ⟨x, hx, rfl⟩)
    obtain ⟨c₂, haccepts₂⟩ := ih horderly₁ hrest hnames.2 hnew₂
    exact ⟨c₂, haccepts₁.append haccepts₂⟩

theorem objects_of_createHook (haccepts : Accepts P (s.createHook h) c c') (hname : Plain h.name)
    (htable : Plain h.table) :
    s.triggerObject h ∉ objects c ∧ s.triggerObject h ∈ objects c' ∧
      ∀ o ∈ objects c, o ∈ objects c' := by
  unfold createHook create at haccepts
  unfold triggerObject
  cases hdialect : s.dialect with
  | mysql =>
    rw [hdialect] at haccepts
    obtain ⟨hnew, hafter⟩ := haccepts.creates (read?_createTrigger hname htable h.kind h.body)
    exact ⟨hnew rfl, (hafter _).mpr (Or.inl rfl), fun o ho => (hafter o).mpr (Or.inr ho)⟩
  | postgresql =>
    rw [hdialect] at haccepts
    have hfunction : Plain (functionName h.name) := plain_functionName hname
    have hboth : Accepts P ([_] ++ [_]) c c' := haccepts
    obtain ⟨c₁, haccepts₁, haccepts₂⟩ := hboth.split
    obtain ⟨-, hbetween⟩ := haccepts₁.creates (read?_createTriggerFunction hfunction h.body)
    obtain ⟨hnew, hafter⟩ := haccepts₂.creates
      (read?_createCallingTrigger hname htable hfunction h.kind)
    refine ⟨fun hpresent => hnew rfl ((hbetween _).mpr (Or.inr hpresent)),
      (hafter _).mpr (Or.inl rfl), fun o ho => (hafter o).mpr (Or.inr ?_)⟩
    exact (hbetween o).mpr (Or.inr ho)

theorem nodup_triggers_of_accepts (haccepts : Accepts P (hs.flatMap s.createHook) c c')
    (hplain : ∀ h ∈ hs, Plain h.name ∧ Plain h.table) :
    (∀ h ∈ hs, s.triggerObject h ∉ objects c) ∧ (hs.map s.triggerObject).Nodup := by
  induction hs generalizing c with
  | nil => exact ⟨List.forall_mem_nil _, List.nodup_nil⟩
  | cons h hs ih =>
    obtain ⟨⟨hname, htable⟩, hplain⟩ := List.forall_mem_cons.mp hplain
    obtain ⟨c₁, haccepts₁, haccepts₂⟩ := Accepts.split haccepts
    obtain ⟨hnew, hthere, hkept⟩ := objects_of_createHook haccepts₁ hname htable
    obtain ⟨hlater, hnodup⟩ := ih haccepts₂ hplain
    refine ⟨List.forall_mem_cons.mpr ⟨hnew, fun h' hh' ho => hlater h' hh' (hkept _ ho)⟩, ?_⟩
    rw [List.map_cons, List.nodup_cons]
    refine ⟨fun hmem => ?_, hnodup⟩
    obtain ⟨h', hh', hsame⟩ := List.mem_map.mp hmem
    exact hlater h' hh' (hsame ▸ hthere)

theorem Distinct.nodup_names (hdistinct : s.Distinct hooks)
    (h : (hooks.map s.triggerObject).Nodup) : (hooks.map Hook.name).Nodup := by
  rw [List.Nodup, List.pairwise_map] at h ⊢
  refine h.imp_of_mem fun {h h'} hh hh' hne hsame => hne ?_
  simp only [triggerObject, hsame, hdistinct.apart h hh h' hh' hsame]

theorem run_createHooks_iff {models : List EventModel} {db : Database}
    (h : s.Prepared models db.catalog) (hdb : ∀ d ∈ db.deliveries, d = .answered) :
    (∃ n, (Database.executor.run
      ((s.setup ++ (s.allHooks models).flatMap s.createHook).map .ok) db).1 = .ok n) ↔
      ((s.allHooks models).map Hook.name).Nodup := by
  constructor
  · rintro ⟨n, hrun⟩
    obtain ⟨c, haccepts⟩ := accepts_of_run_ok hrun
    obtain ⟨c₁, -, hcreated⟩ := haccepts.split
    refine h.distinct.nodup_names (nodup_triggers_of_accepts hcreated ?_).2
    exact fun hook hh => ⟨h.distinct.name hook hh, h.distinct.table hook hh⟩
  · intro hnames
    obtain ⟨c₁, hsetup, horderly₁, hc₁⟩ := h.orderly.accepts_setup h.distinct
    have hnew : ∀ hook ∈ s.allHooks models, ∀ o ∈ objects (s.created hook), o ∉ objects c₁ := by
      intro hook hh o ho hpresent
      obtain ⟨x, hx, rfl⟩ := mem_objects.mp hpresent
      rcases (hc₁ x).mp hx with rfl | rfl | ⟨hx, -⟩
      · exact Operation.counter_not_mem_created s hook ho
      · exact h.procedure_apart hook hh ho
      · exact h.hooks_new hook hh _ ho (mem_objects.mpr ⟨x, hx, rfl⟩)
    obtain ⟨c₂, hcreated⟩ := horderly₁.accepts_createHooks h.distinct (fun _ => id) hnames hnew
    obtain ⟨-, -, -, hcompleted⟩ := run_accepts (hsetup.append hcreated) rfl
    exact ⟨_, hcompleted hdb⟩

end TriggerSource

def Statement.createdTrigger? : Statement → Option String
  | .createTrigger name _ _ _ | .createCallingTrigger name _ _ _ => some name
  | _ => none

namespace TriggerSource

theorem createdTriggers_setup (s : TriggerSource) :
    s.setup.filterMap Statement.createdTrigger? = [] := by
  unfold setup
  cases s.dialect <;> rfl

theorem createdTriggers_createHook (s : TriggerSource) (h : Hook) :
    (s.createHook h).filterMap Statement.createdTrigger? = [h.name] := by
  unfold createHook create
  cases s.dialect <;> rfl

theorem createdTriggers_createHooks (s : TriggerSource) (hs : List Hook) :
    (s.setup ++ hs.flatMap s.createHook).filterMap Statement.createdTrigger? =
      hs.map Hook.name := by
  rw [List.filterMap_append, createdTriggers_setup, List.nil_append, List.filterMap_flatMap]
  simp only [createdTriggers_createHook]
  exact List.flatMap_pure_eq_map Hook.name hs

end TriggerSource

/-- The script that sets up change capture for an accepted configuration creates the triggers of
each model once. Two of them have the same name exactly if two models share an event log, of which
no check of the configuration takes notice, and a database without any of the triggers then does not
take the script. -/
theorem setup_script_iff_logs_nodup {text : String} {c : Config}
    {warnings : List UncontainedWarning} (h : Config.ofText text = .ok (c, warnings)) :
    ∃ printed, c.setupStatements = .ok printed ∧
      (printed.filterMap Statement.createdTrigger? = c.models.flatMap fun m =>
        cleanupName m.log :: ChangeKind.all.map (triggerName m.table)) ∧
      ((printed.filterMap Statement.createdTrigger?).Nodup ↔ (c.models.map (·.log)).Nodup) ∧
      ∀ db : Database, c.source.Prepared c.models db.catalog →
        (∀ d ∈ db.deliveries, d = .answered) →
          ((∃ n, (Database.executor.run (printed.map .ok) db).1 = .ok n) ↔
            (c.models.map (·.log)).Nodup) := by
  have haccepted := Config.accepted_of_ofText h
  have hcolumns : ∀ m ∈ c.models, m.columnPairs ≠ [] := fun m hm =>
    (EventModel.checked_iff_usable.mp (haccepted.models m hm)).columnPairs_ne_nil
  have hnodup := TriggerSource.nodup_names_iff (s := c.source) haccepted.tables
  refine ⟨_, TriggerSource.setupStatements_ok hcolumns, ?_, ?_, fun db hprepared hdb => ?_⟩
  · rw [TriggerSource.createdTriggers_createHooks, TriggerSource.allHooks, List.map_flatMap]
    exact List.flatMap_congr fun m _ => c.source.names_hooks m
  · rw [TriggerSource.createdTriggers_createHooks]
    exact hnodup
  · exact (TriggerSource.run_createHooks_iff hprepared hdb).trans hnodup

namespace Sample

def staffed (log : String) : List String := [
  "dialect: mysql\n",
  "event_models:\n",
  "- original_table: employee\n",
  "  event_log_table: people\n",
  "  id_infos: &ids\n",
  "  - entity_type: Person\n",
  "    id_columns: [person]\n",
  "    columns_in_original: [id]\n",
  "    column_types:\n",
  "      person: int64\n",
  "- original_table: guest\n",
  "  event_log_table: " ++ log ++ "\n",
  "  id_infos: *ids\n"]

def personModel (table log : String) : EventModel :=
  ⟨table, log, EventModel.defaultKindColumn, [.single ⟨"Person"⟩ "person" "id" .int64]⟩

def staffedConfig (log : String) : Config :=
  ⟨.mysql, none, none, [personModel "employee" "people", personModel "guest" log], []⟩

def staffedDatabase : Database where
  catalog := [.table "employee", .table "guest", .table "people", .table "visitors"]
  deliveries := []
  refused := []

theorem ofText_staffed {log : String} (h : log = "visitors" ∨ log = "people") :
    Config.ofText (String.join (staffed log)) = .ok (staffedConfig log, []) := by
  refine Config.ofText_eq_ok_iff.mpr ⟨?_, rfl, rfl⟩
  rw [Yaml.Decoder.readText?, Yaml.Document.read?_of_toList String.toList_join]
  rcases h with rfl | rfl <;> decide +kernel

theorem prepared_staffed {log : String} (h : log = "visitors" ∨ log = "people") :
    (Dialect.mysql.triggerSource none none).Prepared (staffedConfig log).models
      staffedDatabase.catalog where
  counter := Or.inr ⟨'\x60', "_____unique____id____hsearch".toList, by decide⟩
  procedure := Or.inl (by decide)
  procedure_apart := by rcases h with rfl | rfl <;> decide +kernel
  checked := (Config.accepted_of_ofText (ofText_staffed h)).models
  plain := by rcases h with rfl | rfl <;> decide +kernel
  tables := by rcases h with rfl | rfl <;> decide +kernel
  closed := by decide
  counter_new := by decide +kernel
  procedure_new := by decide +kernel
  hooks_new := by rcases h with rfl | rfl <;> decide +kernel

end Sample

/-- Where each table has its event log for itself, the database takes the script. -/
theorem setup_script_iff_logs_nodup_visitors :
    Config.ofText (String.join (Sample.staffed "visitors")) =
        .ok (Sample.staffedConfig "visitors", []) ∧
      ∃ printed, (Sample.staffedConfig "visitors").setupStatements = .ok printed ∧
        (printed.filterMap Statement.createdTrigger?).Nodup ∧
        ∃ n, (Database.executor.run (printed.map .ok) Sample.staffedDatabase).1 = .ok n := by
  have hread := Sample.ofText_staffed (Or.inl rfl)
  have hprepared := Sample.prepared_staffed (Or.inl rfl)
  have hlogs : ((Sample.staffedConfig "visitors").models.map (·.log)).Nodup := by decide
  obtain ⟨printed, hprinted, -, hnames, hrun⟩ := setup_script_iff_logs_nodup hread
  refine ⟨hread, printed, hprinted, hnames.mpr hlogs, ?_⟩
  exact (hrun _ hprepared (List.forall_mem_nil _)).mpr hlogs

/-- Two tables of an accepted configuration share an event log. The clean-up trigger of the log is
created twice, and the database does not take the script. -/
theorem shared_log_cleaned_up_twice :
    Config.ofText (String.join (Sample.staffed "people")) =
        .ok (Sample.staffedConfig "people", []) ∧
      ∃ printed, (Sample.staffedConfig "people").setupStatements = .ok printed ∧
        (printed.filterMap Statement.createdTrigger?).count (cleanupName "people") = 2 ∧
        ¬∃ n, (Database.executor.run (printed.map .ok) Sample.staffedDatabase).1 = .ok n := by
  have hread := Sample.ofText_staffed (Or.inr rfl)
  have hprepared := Sample.prepared_staffed (Or.inr rfl)
  have hcolumns : ∀ m ∈ (Sample.staffedConfig "people").models, m.columnPairs ≠ [] := by decide
  refine ⟨hread, _, TriggerSource.setupStatements_ok hcolumns, ?_, fun hrun => ?_⟩
  · rw [TriggerSource.createdTriggers_createHooks]
    decide +kernel
  · have hnodup := (TriggerSource.run_createHooks_iff hprepared (List.forall_mem_nil _)).mp hrun
    exact absurd hnodup (by decide +kernel)

end SearchSync

namespace SearchSync

/-- A model is accepted exactly if it is usable, and refused with its first violation. The trigger
of an accepted model can be written for every kind of change, and its rows are never short of a
column type. So the script of an accepted configuration is complete: it sets up the counter and
creates the hooks of all models. -/
theorem accepted_exactly_usable (m : EventModel) :
    (m.checked = .ok m ↔ m.Usable) ∧
      (∀ e, m.checked = .error e ↔ m.FirstViolation e) ∧
      (m.checked = .ok m →
        (∀ (s : TriggerSource) kind,
          s.createTrigger m kind = .ok (s.createHook (s.changeHook m kind))) ∧
          ∀ code row type column, m.changes code row ≠ .error (.untypedColumn type column)) ∧
      ∀ text c warnings, Config.ofText text = .ok (c, warnings) → c.setupStatements =
        .ok (c.source.setup ++ (c.source.allHooks c.models).flatMap c.source.createHook) := by
  refine ⟨EventModel.checked_iff_usable, fun _ => EventModel.checked_error_iff, ?_, ?_⟩
  · intro hchecked
    have husable := EventModel.checked_iff_usable.mp hchecked
    constructor
    · intro s kind
      exact TriggerSource.createTrigger_eq husable.columnPairs_ne_nil kind
    · exact husable.changes_ne_untyped
  · intro text c warnings htext
    have haccepted := Config.accepted_of_ofText htext
    refine TriggerSource.setupStatements_ok fun m hm => ?_
    exact (EventModel.checked_iff_usable.mp (haccepted.models m hm)).columnPairs_ne_nil

namespace Sample

def seating : EventModel :=
  ⟨"seating", "seating_log", EventModel.defaultKindColumn,
    [.single ⟨"Guest"⟩ "guest" "guest" .int64,
      ⟨⟨"Seat"⟩, ["guest", "seat"], ["guest", "seat"], NameMap.ofList [("guest", .int64)]⟩,
      ⟨⟨"Table"⟩, [], [], NameMap.empty⟩]⟩

end Sample

/-- The column without a type is what the model is refused for. The models of the visitors are
accepted, and so is their configuration. -/
theorem accepted_exactly_usable_visitors :
    Sample.seating.FirstViolation (.untypedColumn ⟨"Seat"⟩ "seat") ∧
      Config.ofText (String.join (Sample.staffed "visitors")) =
        .ok (Sample.staffedConfig "visitors", []) ∧
      (∃ sts, (Sample.staffedConfig "visitors").setupStatements = .ok sts ∧ sts.length = 11) ∧
      ∀ m ∈ (Sample.staffedConfig "visitors").models, m.checked = .ok m ∧
        ∀ (s : TriggerSource) kind,
          s.createTrigger m kind = .ok (s.createHook (s.changeHook m kind)) := by
  have hread := Sample.ofText_staffed (Or.inl rfl)
  obtain ⟨-, hrefused, -, hsetup⟩ := accepted_exactly_usable Sample.seating
  refine ⟨(hrefused _).mp rfl, hread, ⟨_, hsetup _ _ _ hread, rfl⟩, fun m hm => ?_⟩
  have hchecked := (Config.accepted_of_ofText hread).models m hm
  exact ⟨hchecked, ((accepted_exactly_usable m).2.2.1 hchecked).1⟩

end SearchSync
