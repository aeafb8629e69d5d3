import SearchSync.Proofs.Trigger.Running

/-!
# Installing over anything

Whatever operations were completed or cut off before, the catalog is in a state in which the next
plan is taken from its beginning: the tables that hooks stand on are there, and what a plan drops is
needed by nothing but the hook it belongs to.
-/
namespace SearchSync

open Catalog

namespace TriggerSource

variable {s : TriggerSource} {hooks : List Hook} {h : Hook} {c c' : List Entry} {x e : Entry}

def triggerObject (s : TriggerSource) (h : Hook) : Object :=
  match s.dialect with
  | .mysql => .trigger h.name none
  | .postgresql => .trigger h.name (some h.table)

structure Distinct (s : TriggerSource) (hooks : List Hook) : Prop where
  counter : Nameable s.counter
  procedure : Nameable s.procedure
  name : ∀ h ∈ hooks, Plain h.name
  table : ∀ h ∈ hooks, Plain h.table
  apart : ∀ h ∈ hooks, ∀ h' ∈ hooks, h.name = h'.name → h.table = h'.table
  counter_apart : ∀ h ∈ hooks, h.table ≠ bare s.counter
  procedure_apart : ∀ h ∈ hooks, s.procedureEntry.object ∉ objects (s.created h)

/-- Hooks find their tables, and what belongs to a hook or to the counter is not needed by
anything else. -/
structure Orderly (s : TriggerSource) (hooks : List Hook) (c : List Entry) : Prop where
  tables : ∀ h ∈ hooks, .table h.table ∈ objects c
  callers : ∀ h ∈ hooks, ∀ x ∈ c, ∀ o ∈ objects (s.created h), o ∈ x.needs →
    x.object = s.triggerObject h
  idle : ∀ x ∈ c, s.counterEntry.object ∉ x.needs ∧ s.procedureEntry.object ∉ x.needs

theorem Orderly.drop (horderly : s.Orderly hooks c) {o : Object}
    (ho : ∀ h ∈ hooks, o ≠ .table h.table) (hc : ∀ x, x ∈ c' ↔ x ∈ c ∧ x.object ≠ o) :
    s.Orderly hooks c' where
  tables := by
    intro h hh
    obtain ⟨x, hx, hobject⟩ := mem_objects.mp (horderly.tables h hh)
    refine mem_objects.mpr ⟨x, (hc x).mpr ⟨hx, ?_⟩, hobject⟩
    rw [hobject]
    exact (ho h hh).symm
  callers h hh x hx := horderly.callers h hh x ((hc x).mp hx).1
  idle x hx := horderly.idle x ((hc x).mp hx).1

theorem Orderly.create (horderly : s.Orderly hooks c)
    (hcaller : ∀ h ∈ hooks, ∀ o ∈ objects (s.created h), o ∈ e.needs →
      e.object = s.triggerObject h)
    (hidle : s.counterEntry.object ∉ e.needs ∧ s.procedureEntry.object ∉ e.needs)
    (hc : ∀ x, x ∈ c' ↔ x = e ∨ x ∈ c ∧ x.object ≠ e.object) : s.Orderly hooks c' where
  tables := by
    intro h hh
    obtain ⟨x, hx, hobject⟩ := mem_objects.mp (horderly.tables h hh)
    by_cases heq : x.object = e.object
    · exact mem_objects.mpr ⟨e, (hc e).mpr (Or.inl rfl), heq.symm.trans hobject⟩
    · exact mem_objects.mpr ⟨x, (hc x).mpr (Or.inr ⟨hx, heq⟩), hobject⟩
  callers := by
    intro h hh x hx
    rcases (hc x).mp hx with rfl | ⟨hx, -⟩
    · exact hcaller h hh
    · exact horderly.callers h hh x hx
  idle := by
    intro x hx
    rcases (hc x).mp hx with rfl | ⟨hx, -⟩
    · exact hidle
    · exact horderly.idle x hx

theorem Orderly.accepts_create (horderly : s.Orderly hooks c) {st : Statement} {clause : Clause}
    (hread : Command.read? st.text = some (.create clause e))
    (hneeds : ∀ o ∈ e.needs, o ∈ objects c) (hplain : clause = .plain → e.object ∉ objects c)
    (hsame : clause = .ifAbsent → ∀ x ∈ c, x.object = e.object → x = e)
    (hcaller : ∀ h ∈ hooks, ∀ o ∈ objects (s.created h), o ∈ e.needs →
      e.object = s.triggerObject h)
    (hidle : s.counterEntry.object ∉ e.needs ∧ s.procedureEntry.object ∉ e.needs) :
    ∃ c', Accepts (s.Orderly hooks) [st] c c' ∧ s.Orderly hooks c' ∧
      ∀ x, x ∈ c' ↔ x = e ∨ x ∈ c ∧ x.object ≠ e.object := by
  obtain ⟨c', hrun, hc⟩ := run?_create hneeds hplain hsame
  have horderly' := horderly.create hcaller hidle hc
  refine ⟨c', .cons horderly ?_ (.nil horderly'), horderly', hc⟩
  rw [hread]
  exact hrun

theorem Orderly.accepts_new (horderly : s.Orderly hooks c) {st : Statement} {clause : Clause}
    (hread : Command.read? st.text = some (.create clause e))
    (hneeds : ∀ o ∈ e.needs, o ∈ objects c) (hnew : e.object ∉ objects c)
    (hcaller : ∀ h ∈ hooks, ∀ o ∈ objects (s.created h), o ∈ e.needs →
      e.object = s.triggerObject h)
    (hidle : s.counterEntry.object ∉ e.needs ∧ s.procedureEntry.object ∉ e.needs) :
    ∃ c', Accepts (s.Orderly hooks) [st] c c' ∧ s.Orderly hooks c' ∧
      ∀ x, x ∈ c' ↔ x = e ∨ x ∈ c := by
  have hother : ∀ x ∈ c, x.object ≠ e.object :=
    fun x hx heq => hnew (mem_objects.mpr ⟨x, hx, heq⟩)
  obtain ⟨c', haccepts, horderly', hc⟩ := horderly.accepts_create hread hneeds (fun _ => hnew)
    (fun _ x hx heq => absurd heq (hother x hx)) hcaller hidle
  refine ⟨c', haccepts, horderly', fun x => (hc x).trans (or_congr_right ?_)⟩
  exact ⟨And.left, fun hx => ⟨hx, hother x hx⟩⟩

theorem Orderly.accepts_drop (horderly : s.Orderly hooks c) {st : Statement} {o : Object}
    (hread : Command.read? st.text = some (.drop true o))
    (ho : ∀ h ∈ hooks, o ≠ .table h.table) (hfree : ∀ x ∈ c, o ∉ x.needs) :
    ∃ c', Accepts (s.Orderly hooks) [st] c c' ∧ s.Orderly hooks c' ∧
      ∀ x, x ∈ c' ↔ x ∈ c ∧ x.object ≠ o := by
  obtain ⟨c', hrun, hc⟩ := run?_drop hfree
  have horderly' := horderly.drop ho hc
  refine ⟨c', .cons horderly ?_ (.nil horderly'), horderly', hc⟩
  rw [hread]
  exact hrun

theorem setup_eq {s : TriggerSource} (hprocedure : Nameable s.procedure) : ∃ drop create,
    s.setup = [.createCounter s.dialect s.counter, drop, create] ∧
      Command.read? drop.text = some (.drop true s.procedureEntry.object) ∧
      Command.read? create.text = some (.create .plain s.procedureEntry) := by
  obtain ⟨dialect, counter, procedure⟩ := s
  have hnames : ∀ name ∈ [procedure], Nameable name := List.forall_mem_singleton.mpr hprocedure
  cases dialect with
  | mysql =>
    exact ⟨.dropProcedure procedure, .createProcedure procedure counter, rfl,
      Statement.read?_text _ hnames, Statement.read?_text _ hnames⟩
  | postgresql =>
    exact ⟨.dropFunction procedure, .createFunction procedure counter, rfl,
      Statement.read?_text _ hnames, Statement.read?_text _ hnames⟩

theorem procedureEntry_needs (s : TriggerSource) : s.procedureEntry.needs = [] := by
  unfold procedureEntry
  split <;> rfl

theorem procedure_ne_table (s : TriggerSource) (name : String) :
    s.procedureEntry.object ≠ .table name := by
  unfold procedureEntry
  split <;> exact nofun

theorem Orderly.accepts_createCounter (horderly : s.Orderly hooks c)
    (hcounter : Nameable s.counter) :
    ∃ c', Accepts (s.Orderly hooks) [.createCounter s.dialect s.counter] c c' ∧
      s.Orderly hooks c' ∧
      ∀ x, x ∈ c' ↔ x = s.counterEntry ∨ x ∈ c ∧ x.object ≠ s.counterEntry.object := by
  exact horderly.accepts_create
    (Statement.read?_text _ (List.forall_mem_singleton.mpr hcounter)) (List.forall_mem_nil _) nofun
    (fun _ _ _ hobject => Entry.eq_table hobject)
    (fun _ _ _ _ hneeds => absurd hneeds List.not_mem_nil) ⟨List.not_mem_nil, List.not_mem_nil⟩

theorem Orderly.accepts_setup (horderly : s.Orderly hooks c) (hdistinct : s.Distinct hooks) :
    ∃ c', Accepts (s.Orderly hooks) s.setup c c' ∧ s.Orderly hooks c' ∧
      ∀ x, x ∈ c' ↔ x = s.counterEntry ∨ x = s.procedureEntry ∨
        x ∈ c ∧ x.object ≠ s.counterEntry.object ∧ x.object ≠ s.procedureEntry.object := by
  obtain ⟨drop, create, hsetup, hdrop, hcreate⟩ := setup_eq hdistinct.procedure
  obtain ⟨c₁, haccepts₁, horderly₁, hc₁⟩ := horderly.accepts_createCounter hdistinct.counter
  obtain ⟨c₂, haccepts₂, horderly₂, hc₂⟩ := horderly₁.accepts_drop hdrop
    (fun h _ => s.procedure_ne_table h.table) fun x hx => (horderly₁.idle x hx).2
  have hnew : s.procedureEntry.object ∉ objects c₂ := by
    intro hpresent
    obtain ⟨x, hx, hobject⟩ := mem_objects.mp hpresent
    exact ((hc₂ x).mp hx).2 hobject
  obtain ⟨c₃, haccepts₃, horderly₃, hc₃⟩ := horderly₂.accepts_new hcreate
    (by simp [procedureEntry_needs]) hnew (by simp [procedureEntry_needs])
    (by simp [procedureEntry_needs])
  refine ⟨c₃, ?_, horderly₃, fun x => ?_⟩
  · rw [hsetup]
    exact haccepts₁.append (haccepts₂.append haccepts₃)
  · have hapart : s.counterEntry.object ≠ s.procedureEntry.object :=
      (s.procedure_ne_table _).symm
    rw [hc₃, hc₂, hc₁]
    constructor
    · rintro (hx | ⟨hx | ⟨hx, hcounter⟩, hprocedure⟩)
      · exact Or.inr (Or.inl hx)
      · exact Or.inl hx
      · exact Or.inr (Or.inr ⟨hx, hcounter, hprocedure⟩)
    · rintro (rfl | hx | ⟨hx, hcounter, hprocedure⟩)
      · exact Or.inr ⟨Or.inl rfl, hapart⟩
      · exact Or.inl hx
      · exact Or.inr ⟨Or.inr ⟨hx, hcounter⟩, hprocedure⟩

theorem Orderly.accepts_recreateCounter (horderly : s.Orderly hooks c)
    (hdistinct : s.Distinct hooks) :
    ∃ c', Accepts (s.Orderly hooks) s.recreateCounter c c' ∧ s.Orderly hooks c' ∧
      ∀ x, x ∈ c' ↔ x = s.counterEntry ∨ x ∈ c := by
  have hdrop : Command.read? (Statement.dropCounter s.counter).text =
      some (.drop true s.counterEntry.object) :=
    Statement.read?_text _ (List.forall_mem_singleton.mpr hdistinct.counter)
  obtain ⟨c₁, haccepts₁, horderly₁, hc₁⟩ := horderly.accepts_drop hdrop
    (fun h hh heq => hdistinct.counter_apart h hh (Object.table.inj heq).symm)
    fun x hx => (horderly.idle x hx).1
  obtain ⟨c₂, haccepts₂, horderly₂, hc₂⟩ := horderly₁.accepts_createCounter hdistinct.counter
  refine ⟨c₂, haccepts₁.append haccepts₂, horderly₂, fun x => ?_⟩
  rw [hc₂, hc₁]
  constructor
  · rintro (hx | ⟨⟨hx, -⟩, -⟩)
    · exact Or.inl hx
    · exact Or.inr hx
  · rintro (hx | hx)
    · exact Or.inl hx
    · by_cases hobject : x.object = s.counterEntry.object
      · exact Or.inl (Entry.eq_table hobject)
      · exact Or.inr ⟨⟨hx, hobject⟩, hobject⟩

theorem objects_created_mysql (hdialect : s.dialect = .mysql) (h : Hook) :
    objects (s.created h) = [.trigger h.name none] := by
  rw [created, hdialect]
  rfl

theorem objects_created_postgresql (hdialect : s.dialect = .postgresql) (h : Hook) :
    objects (s.created h) = [.function (functionName h.name), .trigger h.name (some h.table)] := by
  rw [created, hdialect]
  rfl

theorem Orderly.accepts_dropHook (horderly : s.Orderly hooks c) (hdistinct : s.Distinct hooks)
    (hh : h ∈ hooks) :
    ∃ c', Accepts (s.Orderly hooks) (s.dropHook h) c c' ∧ s.Orderly hooks c' ∧
      ∀ x, x ∈ c' ↔ x ∈ c ∧ x.object ∉ objects (s.created h) := by
  have hname := hdistinct.name h hh
  have htable := hdistinct.table h hh
  cases hdialect : s.dialect with
  | mysql =>
    rw [objects_created_mysql hdialect, dropHook, TriggerSource.drop, hdialect]
    obtain ⟨c', haccepts, horderly', hc⟩ := horderly.accepts_drop (read?_dropTrigger hname)
      (fun _ _ => nofun) fun x _ => x.not_needs_trigger _ _
    exact ⟨c', haccepts, horderly', fun x => by rw [hc, List.mem_singleton]⟩
  | postgresql =>
    rw [objects_created_postgresql hdialect, dropHook, TriggerSource.drop, hdialect]
    have hfunction : Plain (functionName h.name) := plain_functionName hname
    obtain ⟨c₁, haccepts₁, horderly₁, hc₁⟩ := horderly.accepts_drop
      (read?_dropTriggerOn hname htable) (fun _ _ => nofun) fun x _ => x.not_needs_trigger _ _
    -- only the trigger that is gone by now may have called the function
    have hfree : ∀ x ∈ c₁, .function (functionName h.name) ∉ x.needs := by
      intro x hx hneeds
      have htrigger := horderly₁.callers h hh x hx _
        (by rw [objects_created_postgresql hdialect]; exact List.mem_cons_self) hneeds
      rw [triggerObject, hdialect] at htrigger
      exact ((hc₁ x).mp hx).2 htrigger
    obtain ⟨c₂, haccepts₂, horderly₂, hc₂⟩ := horderly₁.accepts_drop
      (read?_dropFunction hfunction) (fun _ _ => nofun) hfree
    refine ⟨c₂, haccepts₁.append haccepts₂, horderly₂, fun x => ?_⟩
    rw [hc₂, hc₁, List.mem_cons, List.mem_singleton, not_or, and_assoc]
    exact and_congr_right fun _ => and_comm

theorem Orderly.accepts_createHook_mysql (horderly : s.Orderly hooks c)
    (hdistinct : s.Distinct hooks) (hdialect : s.dialect = .mysql) (hh : h ∈ hooks)
    (hnew : ∀ o ∈ objects (s.created h), o ∉ objects c) :
    ∃ c', Accepts (s.Orderly hooks) (s.createHook h) c c' ∧ s.Orderly hooks c' ∧
      ∀ x, x ∈ c' ↔ x ∈ s.created h ∨ x ∈ c := by
  have hname := hdistinct.name h hh
  have htable := hdistinct.table h hh
  have hcounter : s.counterEntry.object ≠ .table h.table :=
    fun heq => hdistinct.counter_apart h hh (Object.table.inj heq).symm
  rw [objects_created_mysql hdialect, List.forall_mem_singleton] at hnew
  rw [createHook, TriggerSource.create, created, hdialect]
  obtain ⟨c', haccepts, horderly', hc⟩ := horderly.accepts_new
    (read?_createTrigger hname htable h.kind h.body)
    (List.forall_mem_singleton.mpr (horderly.tables h hh)) hnew
    (fun h' _ o ho hneeds => by
      rw [objects_created_mysql hdialect, List.mem_singleton] at ho
      rw [ho] at hneeds
      exact absurd hneeds (Entry.not_needs_trigger _ _ _))
    ⟨fun hmem => hcounter (List.mem_singleton.mp hmem),
      fun hmem => s.procedure_ne_table _ (List.mem_singleton.mp hmem)⟩
  exact ⟨c', haccepts, horderly', fun x => by rw [hc, List.mem_singleton]⟩

theorem Orderly.accepts_createHook_postgresql (horderly : s.Orderly hooks c)
    (hdistinct : s.Distinct hooks) (hdialect : s.dialect = .postgresql) (hh : h ∈ hooks)
    (hnew : ∀ o ∈ objects (s.created h), o ∉ objects c) :
    ∃ c', Accepts (s.Orderly hooks) (s.createHook h) c c' ∧ s.Orderly hooks c' ∧
      ∀ x, x ∈ c' ↔ x ∈ s.created h ∨ x ∈ c := by
  have hname := hdistinct.name h hh
  have htable := hdistinct.table h hh
  have hfunction : Plain (functionName h.name) := plain_functionName hname
  have hcounter : s.counterEntry.object ≠ .table h.table :=
    fun heq => hdistinct.counter_apart h hh (Object.table.inj heq).symm
  have hprocedure := hdistinct.procedure_apart h hh
  rw [objects_created_postgresql hdialect, List.mem_cons, not_or] at hprocedure
  rw [objects_created_postgresql hdialect, List.forall_mem_cons, List.forall_mem_singleton] at hnew
  obtain ⟨hnewFunction, hnewTrigger⟩ := hnew
  rw [createHook, TriggerSource.create, created, hdialect]
  obtain ⟨c₁, haccepts₁, horderly₁, hc₁⟩ := horderly.accepts_new
    (read?_createTriggerFunction hfunction h.body) (List.forall_mem_nil _) hnewFunction
    (fun _ _ _ _ hneeds => absurd hneeds List.not_mem_nil)
    ⟨List.not_mem_nil, List.not_mem_nil⟩
  have hfresh : Object.trigger h.name (some h.table) ∉ objects c₁ := by
    intro hpresent
    obtain ⟨x, hx, hobject⟩ := mem_objects.mp hpresent
    rcases (hc₁ x).mp hx with rfl | hx
    · cases hobject
    · exact hnewTrigger (mem_objects.mpr ⟨x, hx, hobject⟩)
  -- the function is called by no trigger but the one of its name, which has one table
  have hcaller : ∀ h' ∈ hooks, ∀ o ∈ objects (s.created h'),
      o ∈ [Object.table h.table, .function (functionName h.name)] →
        Object.trigger h.name (some h.table) = s.triggerObject h' := by
    intro h' hh' o ho hneeds
    rw [objects_created_postgresql hdialect] at ho
    have hsame : functionName h'.name = functionName h.name := by
      simp only [List.mem_cons, List.not_mem_nil, or_false] at ho hneeds
      rcases ho with rfl | rfl
      · exact Object.function.inj (hneeds.resolve_left (by simp))
      · exact absurd hneeds (by simp)
    have hnames := functionName_inj hsame
    rw [triggerObject, hdialect, hdistinct.apart h' hh' h hh hnames, hnames]
  obtain ⟨c₂, haccepts₂, horderly₂, hc₂⟩ := horderly₁.accepts_new
    (read?_createCallingTrigger hname htable hfunction h.kind)
    (List.forall_mem_cons.mpr ⟨horderly₁.tables h hh, List.forall_mem_singleton.mpr
      (mem_objects.mpr ⟨_, (hc₁ _).mpr (Or.inl rfl), rfl⟩)⟩)
    hfresh hcaller
    ⟨by
      simp only [Entry.needs, List.mem_cons, List.not_mem_nil, or_false, not_or]
      exact ⟨hcounter, by rintro ⟨⟩⟩,
    by
      simp only [Entry.needs, List.mem_cons, List.not_mem_nil, or_false, not_or]
      exact ⟨s.procedure_ne_table _, hprocedure.1⟩⟩
  refine ⟨c₂, haccepts₁.append haccepts₂, horderly₂, fun x => ?_⟩
  rw [hc₂, hc₁, List.mem_cons, List.mem_singleton, or_left_comm, or_assoc]

theorem Orderly.accepts_createHook (horderly : s.Orderly hooks c) (hdistinct : s.Distinct hooks)
    (hh : h ∈ hooks) (hnew : ∀ o ∈ objects (s.created h), o ∉ objects c) :
    ∃ c', Accepts (s.Orderly hooks) (s.createHook h) c c' ∧ s.Orderly hooks c' ∧
      ∀ x, x ∈ c' ↔ x ∈ s.created h ∨ x ∈ c := by
  cases hdialect : s.dialect with
  | mysql => exact horderly.accepts_createHook_mysql hdistinct hdialect hh hnew
  | postgresql => exact horderly.accepts_createHook_postgresql hdistinct hdialect hh hnew

theorem Orderly.accepts_replaceHook (horderly : s.Orderly hooks c) (hdistinct : s.Distinct hooks)
    (hh : h ∈ hooks) :
    ∃ c', Accepts (s.Orderly hooks) (s.dropHook h ++ s.createHook h) c c' ∧ s.Orderly hooks c' ∧
      ∀ x, x ∈ c' ↔ x ∈ s.created h ∨ x ∈ c ∧ x.object ∉ objects (s.created h) := by
  obtain ⟨c₁, haccepts₁, horderly₁, hc₁⟩ := horderly.accepts_dropHook hdistinct hh
  have hnew : ∀ o ∈ objects (s.created h), o ∉ objects c₁ := by
    intro o ho hpresent
    obtain ⟨x, hx, rfl⟩ := mem_objects.mp hpresent
    exact ((hc₁ x).mp hx).2 ho
  obtain ⟨c₂, haccepts₂, horderly₂, hc₂⟩ := horderly₁.accepts_createHook hdistinct hh hnew
  exact ⟨c₂, haccepts₁.append haccepts₂, horderly₂, fun x => by rw [hc₂, hc₁]⟩

def LastCreated (s : TriggerSource) (hs : List Hook) (x : Entry) : Prop :=
  ∃ before h after, hs = before ++ h :: after ∧ x ∈ s.created h ∧
    ∀ h' ∈ after, x.object ∉ objects (s.created h')

theorem lastCreated_cons {hs : List Hook} :
    s.LastCreated (h :: hs) x ↔ s.LastCreated hs x ∨
      x ∈ s.created h ∧ ∀ h' ∈ hs, x.object ∉ objects (s.created h') := by
  constructor
  · rintro ⟨before, h', after, hsplit, hx, hafter⟩
    cases before with
    | nil =>
      cases hsplit
      exact Or.inr ⟨hx, hafter⟩
    | cons g before =>
      cases hsplit
      exact Or.inl ⟨before, h', after, rfl, hx, hafter⟩
  · rintro (⟨before, h', after, rfl, hx, hafter⟩ | ⟨hx, hafter⟩)
    · exact ⟨h :: before, h', after, rfl, hx, hafter⟩
    · exact ⟨[], h, hs, rfl, hx, hafter⟩

theorem not_lastCreated_nil : ¬s.LastCreated [] x := by
  rintro ⟨before, h, after, hsplit, -⟩
  cases before <;> cases hsplit

theorem Orderly.accepts_dropHooks (horderly : s.Orderly hooks c) (hdistinct : s.Distinct hooks)
    {hs : List Hook} (hsub : ∀ h ∈ hs, h ∈ hooks) :
    ∃ c', Accepts (s.Orderly hooks) (hs.flatMap s.dropHook) c c' ∧
      ∀ x, x ∈ c' ↔ x ∈ c ∧ ∀ h ∈ hs, x.object ∉ objects (s.created h) := by
  induction hs generalizing c with
  | nil => exact ⟨c, .nil horderly, fun x => by simp⟩
  | cons h hs ih =>
    obtain ⟨hh, hrest⟩ := List.forall_mem_cons.mp hsub
    obtain ⟨c₁, haccepts₁, horderly₁, hc₁⟩ := horderly.accepts_dropHook hdistinct hh
    obtain ⟨c₂, haccepts₂, hc₂⟩ := ih horderly₁ hrest
    refine ⟨c₂, haccepts₁.append haccepts₂, fun x => ?_⟩
    rw [hc₂, hc₁, List.forall_mem_cons, and_assoc]

theorem Orderly.accepts_replaceHooks (horderly : s.Orderly hooks c)
    (hdistinct : s.Distinct hooks) {hs : List Hook} (hsub : ∀ h ∈ hs, h ∈ hooks) :
    ∃ c', Accepts (s.Orderly hooks) (hs.flatMap fun h => s.dropHook h ++ s.createHook h) c c' ∧
      ∀ x, x ∈ c' ↔ s.LastCreated hs x ∨ x ∈ c ∧ ∀ h ∈ hs, x.object ∉ objects (s.created h) := by
  induction hs generalizing c with
  | nil => exact ⟨c, .nil horderly, fun x => by simp [not_lastCreated_nil]⟩
  | cons h hs ih =>
    obtain ⟨hh, hrest⟩ := List.forall_mem_cons.mp hsub
    obtain ⟨c₁, haccepts₁, horderly₁, hc₁⟩ := horderly.accepts_replaceHook hdistinct hh
    obtain ⟨c₂, haccepts₂, hc₂⟩ := ih horderly₁ hrest
    refine ⟨c₂, haccepts₁.append haccepts₂, fun x => ?_⟩
    rw [hc₂, hc₁, lastCreated_cons, List.forall_mem_cons, or_and_right, or_assoc, and_assoc]

end TriggerSource

namespace Operation

variable {s : TriggerSource} {hooks : List Hook} {c c' : List Entry}

/-- What a completed operation makes of a catalog. Of hooks with the same name the last one is
there, and what no hook of the operation stands for is left alone. -/
def Achieves (s : TriggerSource) (c c' : List Entry) : Operation → Prop
  | .install models => ∀ x, x ∈ c' ↔
      x = s.counterEntry ∨ x = s.procedureEntry ∨ s.LastCreated (s.allHooks models) x ∨
        x ∈ c ∧ x.object ≠ s.counterEntry.object ∧ x.object ≠ s.procedureEntry.object ∧
          ∀ h ∈ s.allHooks models, x.object ∉ objects (s.created h)
  | .uninstall models => ∀ x, x ∈ c' ↔
      x ∈ c ∧ ∀ h ∈ s.allHooks models, x.object ∉ objects (s.created h)
  | .recreateCounter => ∀ x, x ∈ c' ↔ x = s.counterEntry ∨ x ∈ c

theorem mem_allHooks_uninstalled {models : List EventModel} {h : Hook} :
    h ∈ models.flatMap (fun m => s.changeHooks m ++ [s.cleanupHook m]) ↔
      h ∈ s.allHooks models := by
  rw [TriggerSource.allHooks, List.mem_flatMap, List.mem_flatMap]
  refine exists_congr fun m => and_congr_right fun _ => ?_
  rw [List.mem_append, List.mem_singleton, TriggerSource.hooks, List.mem_cons, or_comm]

theorem counter_not_mem_created (s : TriggerSource) (h : Hook) :
    s.counterEntry.object ∉ objects (s.created h) := by
  cases hdialect : s.dialect with
  | mysql =>
    rw [TriggerSource.objects_created_mysql hdialect]
    simp [TriggerSource.counterEntry, Entry.object]
  | postgresql =>
    rw [TriggerSource.objects_created_postgresql hdialect]
    simp [TriggerSource.counterEntry, Entry.object]

theorem accepts (op : Operation) (horderly : s.Orderly hooks c) (hdistinct : s.Distinct hooks)
    (hsub : ∀ h ∈ s.allHooks op.models, h ∈ hooks)
    (hchecked : ∀ m ∈ op.models, m.checked = .ok m) :
    ∃ sts c', (∀ db, op.perform s db = Database.executor.run (sts.map .ok) db) ∧
      Accepts (s.Orderly hooks) sts c c' ∧ op.Achieves s c c' := by
  cases op with
  | install models =>
    simp only [Operation.models] at hsub hchecked
    obtain ⟨c₁, haccepts₁, horderly₁, hc₁⟩ := horderly.accepts_setup hdistinct
    obtain ⟨c₂, haccepts₂, hc₂⟩ := horderly₁.accepts_replaceHooks hdistinct hsub
    refine ⟨_, c₂, fun db => ?_, haccepts₁.append haccepts₂, fun x => ?_⟩
    · rw [perform, Executor.install_eq_run, TriggerSource.installPlan_ok]
      exact fun m hm => (EventModel.checked_iff_usable.mp (hchecked m hm)).columnPairs_ne_nil
    · have hcounter : ∀ h ∈ s.allHooks models, s.counterEntry.object ∉ objects (s.created h) :=
        fun h _ => counter_not_mem_created s h
      have hprocedure : ∀ h ∈ s.allHooks models, s.procedureEntry.object ∉ objects (s.created h) :=
        fun h hh => hdistinct.procedure_apart h (hsub h hh)
      rw [hc₂, hc₁]
      constructor
      · rintro (hlast | ⟨hx | hx | ⟨hx, hne, hne'⟩, hnone⟩)
        · exact Or.inr (Or.inr (Or.inl hlast))
        · exact Or.inl hx
        · exact Or.inr (Or.inl hx)
        · exact Or.inr (Or.inr (Or.inr ⟨hx, hne, hne', hnone⟩))
      · rintro (rfl | rfl | hlast | ⟨hx, hne, hne', hnone⟩)
        · exact Or.inr ⟨Or.inl rfl, hcounter⟩
        · exact Or.inr ⟨Or.inr (Or.inl rfl), hprocedure⟩
        · exact Or.inl hlast
        · exact Or.inr ⟨Or.inr (Or.inr ⟨hx, hne, hne'⟩), hnone⟩
  | uninstall models =>
    simp only [Operation.models] at hsub
    obtain ⟨c₁, haccepts₁, hc₁⟩ := horderly.accepts_dropHooks hdistinct
      fun h hh => hsub h (mem_allHooks_uninstalled.mp hh)
    refine ⟨_, c₁, fun db => ?_, haccepts₁, fun x => ?_⟩
    · rw [perform, Executor.uninstall_eq_run, TriggerSource.teardown_eq]
    · rw [hc₁]
      simp only [mem_allHooks_uninstalled]
  | recreateCounter =>
    obtain ⟨c₁, haccepts₁, -, hc₁⟩ := horderly.accepts_recreateCounter hdistinct
    refine ⟨_, c₁, fun db => ?_, haccepts₁, hc₁⟩
    rw [perform, Executor.recreateCounter, Executor.runAll_eq_run]

theorem perform_orderly {op : Operation} {db db' : Database} {r : Except InstallError Nat}
    (horderly : s.Orderly hooks db.catalog) (hdistinct : s.Distinct hooks)
    (hsub : ∀ h ∈ s.allHooks op.models, h ∈ hooks)
    (hchecked : ∀ m ∈ op.models, m.checked = .ok m) (hrun : op.perform s db = (r, db')) :
    s.Orderly hooks db'.catalog ∧ db'.refused = db.refused ∧
      (∀ n, r = .ok n → op.Achieves s db.catalog db'.catalog) ∧
      ((∀ d ∈ db.deliveries, d = .answered) → ∃ n, r = .ok n) := by
  obtain ⟨sts, c, hperform, haccepts, hachieves⟩ := op.accepts horderly hdistinct hsub hchecked
  rw [hperform] at hrun
  obtain ⟨hrefused, horderly', hdone, hall⟩ := run_accepts haccepts hrun
  refine ⟨horderly', hrefused, ?_, fun hanswered => ⟨_, hall hanswered⟩⟩
  intro n hn
  rw [hdone n hn]
  exact hachieves

theorem performAll_orderly {ops : List Operation} {db : Database}
    (horderly : s.Orderly hooks db.catalog) (hdistinct : s.Distinct hooks)
    (hsub : ∀ op ∈ ops, ∀ h ∈ s.allHooks op.models, h ∈ hooks)
    (hchecked : ∀ op ∈ ops, ∀ m ∈ op.models, m.checked = .ok m) :
    s.Orderly hooks (performAll s db ops).catalog ∧ (performAll s db ops).refused = db.refused := by
  induction ops generalizing db with
  | nil => exact ⟨horderly, rfl⟩
  | cons op ops ih =>
    obtain ⟨hsub₁, hsub⟩ := List.forall_mem_cons.mp hsub
    obtain ⟨hchecked₁, hchecked⟩ := List.forall_mem_cons.mp hchecked
    obtain ⟨horderly₁, hrefused₁, -⟩ := perform_orderly horderly hdistinct hsub₁ hchecked₁
      (rfl : op.perform s db = ((op.perform s db).1, (op.perform s db).2))
    obtain ⟨horderly₂, hrefused₂⟩ := ih horderly₁ hsub hchecked
    exact ⟨horderly₂, hrefused₂.trans hrefused₁⟩

end Operation

/-- The models can be installed, and nothing that they leave in the catalog is there yet: the
tables and event logs are there and have names that need no quotes, and no function behind a trigger
has the name of the procedure. -/
structure TriggerSource.Prepared (s : TriggerSource) (models : List EventModel) (c : List Entry) :
    Prop where
  counter : Nameable s.counter
  procedure : Nameable s.procedure
  procedure_apart : ∀ h ∈ s.allHooks models, s.procedureEntry.object ∉ objects (s.created h)
  checked : ∀ m ∈ models, m.checked = .ok m
  plain : ∀ m ∈ models, Plain m.table ∧ Plain m.log
  tables : ∀ m ∈ models, .table m.table ∈ objects c ∧ .table m.log ∈ objects c
  closed : ∀ x ∈ c, ∀ o ∈ x.needs, o ∈ objects c
  counter_new : s.counterEntry.object ∉ objects c
  procedure_new : s.procedureEntry.object ∉ objects c
  hooks_new : ∀ h ∈ s.allHooks models, ∀ o ∈ objects (s.created h), o ∉ objects c

namespace TriggerSource

variable {s : TriggerSource} {models : List EventModel} {c : List Entry}

theorem mem_allHooks {h : Hook} (hh : h ∈ s.allHooks models) :
    ∃ m ∈ models, (h.table = m.log ∧ h.name = cleanupName h.table) ∨
      h.table = m.table ∧ ∃ kind, h.name = triggerName h.table kind := by
  obtain ⟨m, hm, hh⟩ := List.mem_flatMap.mp hh
  refine ⟨m, hm, ?_⟩
  rcases List.mem_cons.mp hh with rfl | hh
  · exact Or.inl ⟨rfl, rfl⟩
  · obtain ⟨kind, -, rfl⟩ := List.mem_map.mp hh
    exact Or.inr ⟨rfl, kind, rfl⟩

theorem Prepared.distinct (h : s.Prepared models c) : s.Distinct (s.allHooks models) where
  counter := h.counter
  procedure := h.procedure
  name := by
    intro hook hh
    obtain ⟨m, hm, ⟨htable, hname⟩ | ⟨htable, kind, hname⟩⟩ := mem_allHooks hh
    · rw [hname, htable]
      exact plain_cleanupName (h.plain m hm).2
    · rw [hname, htable]
      exact plain_triggerName (h.plain m hm).1 kind
  table := by
    intro hook hh
    obtain ⟨m, hm, ⟨htable, -⟩ | ⟨htable, -⟩⟩ := mem_allHooks hh
    · rw [htable]
      exact (h.plain m hm).2
    · rw [htable]
      exact (h.plain m hm).1
  apart := by
    intro hook hh hook' hh' hsame
    obtain ⟨-, -, ⟨-, hname⟩ | ⟨-, kind, hname⟩⟩ := mem_allHooks hh <;>
      obtain ⟨-, -, ⟨-, hname'⟩ | ⟨-, kind', hname'⟩⟩ := mem_allHooks hh' <;>
      rw [hname, hname'] at hsame
    · exact cleanupName_inj hsame
    · exact absurd hsame.symm (triggerName_ne_cleanupName _ _ _)
    · exact absurd hsame (triggerName_ne_cleanupName _ _ _)
    · exact (triggerName_inj hsame).1
  counter_apart := by
    intro hook hh hsame
    apply h.counter_new
    rw [counterEntry, Entry.object, ← hsame]
    obtain ⟨m, hm, ⟨htable, -⟩ | ⟨htable, -⟩⟩ := mem_allHooks hh
    · rw [htable]
      exact (h.tables m hm).2
    · rw [htable]
      exact (h.tables m hm).1
  procedure_apart := h.procedure_apart

theorem Prepared.orderly (h : s.Prepared models c) : s.Orderly (s.allHooks models) c where
  tables := by
    intro hook hh
    obtain ⟨m, hm, ⟨htable, -⟩ | ⟨htable, -⟩⟩ := mem_allHooks hh
    · rw [htable]
      exact (h.tables m hm).2
    · rw [htable]
      exact (h.tables m hm).1
  callers hook hh x hx o ho hneeds := absurd (h.closed x hx o hneeds) (h.hooks_new hook hh o ho)
  idle x hx :=
    ⟨fun hneeds => h.counter_new (h.closed x hx _ hneeds),
      fun hneeds => h.procedure_new (h.closed x hx _ hneeds)⟩

end TriggerSource

/-- Installing is safe over whatever earlier operations left, completed or cut off at any statement:
the catalog refuses no statement, a completed operation leaves exactly what it is to leave, and an
operation is completed if its statements are answered. -/
theorem installing_safe {s : TriggerSource} {ops : List Operation} {db : Database}
    (h : s.Prepared (ops.flatMap Operation.models) db.catalog) :
    (Operation.performAll s db ops).refused = db.refused ∧
      ∀ earlier op later, ops = earlier ++ op :: later →
        ∀ r db', op.perform s (Operation.performAll s db earlier) = (r, db') →
          (∀ n, r = .ok n →
            op.Achieves s (Operation.performAll s db earlier).catalog db'.catalog) ∧
          ((∀ d ∈ (Operation.performAll s db earlier).deliveries, d = .answered) →
            ∃ n, r = .ok n) := by
  have hsub : ∀ op ∈ ops, ∀ h ∈ s.allHooks op.models,
      h ∈ s.allHooks (ops.flatMap Operation.models) := by
    intro op hop hook hh
    obtain ⟨m, hm, hh⟩ := List.mem_flatMap.mp hh
    exact List.mem_flatMap.mpr ⟨m, List.mem_flatMap.mpr ⟨op, hop, hm⟩, hh⟩
  have hchecked : ∀ op ∈ ops, ∀ m ∈ op.models, m.checked = .ok m :=
    fun op hop m hm => h.checked m (List.mem_flatMap.mpr ⟨op, hop, hm⟩)
  refine ⟨(Operation.performAll_orderly h.orderly h.distinct hsub hchecked).2, ?_⟩
  rintro earlier op later rfl r db' hrun
  rw [List.forall_mem_append, List.forall_mem_cons] at hsub hchecked
  have horderly := (Operation.performAll_orderly h.orderly h.distinct hsub.1 hchecked.1).1
  exact (Operation.perform_orderly horderly h.distinct hsub.2.1 hchecked.2.1 hrun).2.2

namespace Sample

def placeModel : EventModel :=
  ⟨"place", "place_log", "kind", [.single ⟨"Place"⟩ "place_id" "id" .int64]⟩

def codeModel : EventModel :=
  ⟨"place", "place_log", "kind", [.single ⟨"Place"⟩ "place_code" "code" .text]⟩

def database : Database where
  catalog := [.table "place", .table "place_log"]
  deliveries := [.answered, .answered, .answered, .answered, .answered, .answered, .unanswered,
    .answered, .answered, .lost]
  refused := []

def operations : List Operation :=
  [.install [placeModel], .uninstall [placeModel], .recreateCounter,
    .install [placeModel, codeModel]]

theorem prepared (d : Dialect) : (d.triggerSource none none).Prepared
    (operations.flatMap Operation.models) database.catalog where
  counter := by
    cases d with
    | mysql => exact Or.inr ⟨'\x60', "_____unique____id____hsearch".toList, by decide⟩
    | postgresql => exact Or.inl (by decide)
  procedure := Or.inl (by cases d <;> decide)
  procedure_apart := by cases d <;> decide +kernel
  checked := by
    have hplace : placeModel.checked = .ok placeModel := rfl
    have hcode : codeModel.checked = .ok codeModel := rfl
    simp [operations, Operation.models, hplace, hcode]
  plain := by decide +kernel
  tables := by decide +kernel
  closed := by decide +kernel
  counter_new := by cases d <;> decide +kernel
  procedure_new := by cases d <;> decide +kernel
  hooks_new := by cases d <;> decide +kernel

end Sample

theorem installing_safe_sample :
    (Operation.performAll (Dialect.mysql.triggerSource none none) Sample.database
        Sample.operations).refused = [] ∧
      (Operation.performAll (Dialect.postgresql.triggerSource none none) Sample.database
        Sample.operations).refused = [] :=
  ⟨(installing_safe (Sample.prepared .mysql)).1, (installing_safe (Sample.prepared .postgresql)).1⟩

end SearchSync
