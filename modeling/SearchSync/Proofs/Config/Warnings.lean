import SearchSync.Config.Yaml
import SearchSync.Proofs.Config.SetupScript
import SearchSync.Proofs.EventLog.Usable
import SearchSync.Proofs.Sync.Erasure
import SearchSync.Proofs.Sync.Resolution

/-!
# Warnings of configurations

A configuration that reports changes which no root holds is accepted, with a warning for each of its
mappings that does. The warnings are no less than needed, since a change that is warned of stops
every batch, and no more, since nothing else is missing from the schema.
-/
namespace SearchSync

namespace Config

def Reports (c : Config) (change : Change) : Prop :=
  ∃ m ∈ c.models, ∃ kindCode row changes, m.changes kindCode row = .ok changes ∧ change ∈ changes

variable {c : Config} {schema : Schema}

theorem warnings_eq (h : schema.WellFormed) (hrooted : schema.roots ≠ []) :
    c.warnings schema = c.models.flatMap fun m =>
      (m.mappings.filter fun i => (schema.containment.rootsFor i.entityType).isNone).map fun i =>
        ⟨m.table, i.entityType⟩ := by
  unfold warnings
  rw [if_neg (by simpa using hrooted)]
  refine List.flatMap_congr fun m _ => congrArg _ (List.filter_congr fun i _ => ?_)
  have hnone : (schema.containment.rootsFor i.entityType).isNone ↔
      i.entityType ∉ schema.relevantTypes := by
    rw [Option.isNone_iff_eq_none, h.rootsFor_eq_none_iff]
  rw [Bool.eq_iff_iff, hnone]
  simp

theorem mem_warnings (hrooted : schema.roots ≠ []) {w : UncontainedWarning} :
    w ∈ c.warnings schema ↔ ∃ m ∈ c.models, ∃ i ∈ m.mappings,
      i.entityType ∉ schema.relevantTypes ∧ ⟨m.table, i.entityType⟩ = w := by
  unfold warnings
  rw [if_neg (by simpa using hrooted), List.mem_flatMap]
  simp only [List.mem_map, List.mem_filter, Bool.not_eq_true', List.contains_eq_mem,
    decide_eq_false_iff_not, and_assoc]

theorem Reports.relevant {change : Change} (h : c.Reports change) (hrooted : schema.roots ≠ [])
    (hnone : c.warnings schema = []) : change.entityType ∈ schema.relevantTypes := by
  obtain ⟨m, hm, kindCode, row, changes, hchanges, hmem⟩ := h
  obtain ⟨kind, -, hall⟩ := EventModel.mem_changes hchanges
  obtain ⟨-, i, hi, htype⟩ := hall change hmem
  by_contra hirrelevant
  have hwarned : ⟨m.table, i.entityType⟩ ∈ c.warnings schema :=
    (mem_warnings hrooted).mpr ⟨m, hm, i, hi, htype ▸ hirrelevant, rfl⟩
  rw [hnone] at hwarned
  cases hwarned

end Config

/-- The warnings about an accepted configuration are one for each mapping whose type no root holds.
If there are none, no batch of reported changes stops for want of a root or of an embedding,
whatever the store and the index do. A batch of a change that is warned of stops before any call. -/
theorem warnings_exact {c : Config} (h : c.check = .ok ()) (hrooted : c.roots ≠ []) :
    ∃ schema, c.schema = .ok schema ∧
      (∀ text warnings, Config.ofText text = .ok (c, warnings) →
        warnings = c.warnings schema) ∧
      (c.warnings schema = c.models.flatMap fun m =>
        (m.mappings.filter fun i => (schema.containment.rootsFor i.entityType).isNone).map fun i =>
          ⟨m.table, i.entityType⟩) ∧
      ∀ {τ σ : Type} (store : EntityStore σ) (sink : SearchIndex τ σ) (tx : τ) (w : σ),
        let u := Updater.ofSchema schema store sink
        (c.warnings schema = [] → ∀ changes, (∀ change ∈ changes, c.Reports change) → ∀ type,
          (u.apply tx changes w).1 ≠ .error (.unresolved type .notContained) ∧
            (u.apply tx changes w).1 ≠ .error (.unresolved type .noEmbedding)) ∧
        ∀ m ∈ c.models, ∀ i ∈ m.mappings, ⟨m.table, i.entityType⟩ ∈ c.warnings schema →
          ∀ id kind, (u.apply tx [⟨i.entityType, id, kind⟩] w).1 =
              .error (.unresolved i.entityType .notContained) ∧
            (u.traced.apply tx [⟨i.entityType, id, kind⟩] ⟨w, []⟩).2.world = ⟨w, []⟩ := by
  obtain ⟨-, schema, hschema⟩ := Config.check_ok_iff.mp h
  obtain ⟨hroots, hwell⟩ := Schema.wellFormed_of_ofRoots hschema
  have hrooted : schema.roots ≠ [] := by rwa [hroots]
  refine ⟨schema, hschema, ?_, Config.warnings_eq hwell hrooted, ?_⟩
  · intro text warnings hread
    obtain ⟨-, -, rfl⟩ := Config.ofText_eq_ok_iff.mp hread
    rw [hschema]
    rfl
  · intro τ σ store sink tx w u
    constructor
    · intro hnone changes hreported type
      obtain ⟨hembedding, hcontained⟩ := apply_unresolved_iff store sink tx hwell changes w type
      refine ⟨fun hstop => ?_, hembedding⟩
      obtain ⟨earlier, change, later, rfl, rfl, hirrelevant, -⟩ := hcontained.mp hstop
      exact hirrelevant ((hreported change (by simp)).relevant hrooted hnone)
    · intro m _ i _ hwarned id kind
      obtain ⟨_, _, j, _, hirrelevant, heq⟩ := (Config.mem_warnings hrooted).mp hwarned
      have hchange : (⟨i.entityType, id, kind⟩ : Change).entityType ∉ schema.relevantTypes := by
        rwa [(UncontainedWarning.mk.inj heq).2] at hirrelevant
      constructor
      · exact congrArg Prod.fst (apply_irrelevant store sink tx hwell hchange w)
      · exact congrArg (fun run => run.2.world) (apply_irrelevant (Traced.store store)
          (Traced.sink sink) tx hwell hchange ⟨w, []⟩)

namespace Sample

def dwelling (type : EntityType) : EventModel :=
  ⟨"dwelling", "dwelling_log", EventModel.defaultKindColumn,
    [.single place "placeId" "place" .int64, .single type "residentId" "resident" .int64]⟩

def inhabited (type : EntityType) : Config :=
  ⟨.mysql, none, none, [dwelling type], roots⟩

def movedIn : List Change := [⟨place, .int 1, .insert⟩, ⟨sorcerer, .int 2, .insert⟩]

theorem reports_movedIn : ∀ change ∈ movedIn, (inhabited sorcerer).Reports change := by
  intro change hchange
  refine ⟨dwelling sorcerer, List.mem_singleton_self _, ChangeKind.insert.code,
    [("placeId", .number (.integer 1)), ("residentId", .string "2")], movedIn, rfl, hchange⟩

end Sample

/-- The documents hold sorcerers but no dragons, so there is a warning of the dragons. -/
theorem warnings_exact_inhabited :
    ((Sample.inhabited Sample.sorcerer).check = .ok () ∧
      (Sample.inhabited Sample.sorcerer).warnings Sample.schema = [] ∧
      ∀ type, ((Updater.ofSnapshot Sample.schema Sample.entities fun _ _ _ _ => []).apply ()
        Sample.movedIn ∅).1 ≠ .error (.unresolved type .notContained)) ∧
    (Sample.inhabited Sample.dragon).check = .ok () ∧
      (Sample.inhabited Sample.dragon).warnings Sample.schema =
        [⟨"dwelling", Sample.dragon⟩] ∧
      ((Updater.ofSnapshot Sample.schema Sample.entities fun _ _ _ _ => []).apply ()
        [⟨Sample.dragon, .int 3, .insert⟩] ∅).1 =
          .error (.unresolved Sample.dragon .notContained) := by
  have hsorcerer : (Sample.inhabited Sample.sorcerer).check = .ok () := rfl
  have hdragon : (Sample.inhabited Sample.dragon).check = .ok () := rfl
  have hrooted : Sample.roots ≠ [] := List.cons_ne_nil _ _
  have hschema : (Sample.inhabited Sample.sorcerer).schema = .ok Sample.schema := rfl
  have hnone : (Sample.inhabited Sample.sorcerer).warnings Sample.schema = [] := by decide
  have hwarned : (Sample.inhabited Sample.dragon).warnings Sample.schema =
      [⟨"dwelling", Sample.dragon⟩] := by decide
  refine ⟨⟨hsorcerer, hnone, fun type => ?_⟩, hdragon, hwarned, ?_⟩
  · obtain ⟨schema, hread, -, -, hall⟩ := warnings_exact hsorcerer hrooted
    obtain rfl : Sample.schema = schema := Except.ok.inj (hschema.symm.trans hread)
    obtain ⟨hgoes, -⟩ := hall Sample.entities.store (Documents.sink fun _ _ _ _ => []) () ∅
    exact (hgoes hnone Sample.movedIn Sample.reports_movedIn type).1
  · obtain ⟨schema, hread, -, -, hall⟩ := warnings_exact hdragon hrooted
    obtain rfl : Sample.schema = schema := Except.ok.inj (hschema.symm.trans hread)
    obtain ⟨-, hstops⟩ := hall Sample.entities.store (Documents.sink fun _ _ _ _ => []) () ∅
    exact (hstops _ (List.mem_singleton_self _) (.single Sample.dragon "residentId" "resident"
      .int64) (by simp [Sample.dwelling]) (by rw [hwarned]; exact List.mem_singleton_self _)
      (.int 3) .insert).1

end SearchSync
