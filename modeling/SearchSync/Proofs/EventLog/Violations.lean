import SearchSync.Proofs.EventLog.Usable

/-!
# What a refused event model is told

A model is checked mapping by mapping and each mapping column by column, with the columns seen so
far carried along. The error is the first violation in that order, said here without the check.
-/
namespace SearchSync

namespace IdMapping

variable {mapping : IdMapping} {e : ModelError}

inductive Violates (mapping : IdMapping) : ModelError → Prop
  | unpaired (lengths : mapping.logColumns.length ≠ mapping.tableColumns.length) :
      Violates mapping (.columnCountMismatch mapping.entityType mapping.logColumns.length
        mapping.tableColumns.length)
  | empty (lengths : mapping.logColumns.length = mapping.tableColumns.length)
      (empty : mapping.logColumns = []) : Violates mapping (.noColumns mapping.entityType)
  | untyped {before after : List String} {column : String}
      (lengths : mapping.logColumns.length = mapping.tableColumns.length)
      (columns : mapping.logColumns = before ++ column :: after)
      (typed : ∀ c ∈ before, ∃ type, mapping.columnTypes.get? c = some type)
      (untyped : mapping.columnTypes.get? column = none) :
      Violates mapping (.untypedColumn mapping.entityType column)

theorem find?_untyped {types : NameMap ColumnType} {columns : List String} {column : String} :
    columns.find? (fun c => !types.contains c) = some column ↔
      ∃ before after, columns = before ++ column :: after ∧
        (∀ c ∈ before, ∃ type, types.get? c = some type) ∧ types.get? column = none := by
  rw [List.find?_eq_some_iff_append]
  simp only [NameMap.contains, Bool.not_eq_true', Bool.not_not, Option.isSome_eq_false_iff,
    Option.isNone_iff_eq_none, Option.isSome_iff_exists]
  constructor
  · rintro ⟨hnone, before, after, hsplit, htyped⟩
    exact ⟨before, after, hsplit, htyped, hnone⟩
  · rintro ⟨before, after, hsplit, htyped, hnone⟩
    exact ⟨hnone, before, after, hsplit, htyped⟩

theorem check_of_violates (h : mapping.Violates e) : mapping.check = .error e := by
  unfold check
  cases h with
  | unpaired lengths =>
    rw [if_pos lengths]
    rfl
  | empty lengths empty =>
    rw [if_neg (by simpa using lengths), if_pos (by simpa using empty)]
    rfl
  | untyped lengths columns typed untyped =>
    have hfind := find?_untyped.mpr ⟨_, _, columns, typed, untyped⟩
    have hne : mapping.logColumns.isEmpty = false := by simp [columns]
    rw [if_neg (by simpa using lengths), if_neg (by simp [hne])]
    simp only [hfind]
    rfl

theorem usable_or_violates (mapping : IdMapping) : mapping.Usable ∨ ∃ e, mapping.Violates e := by
  by_cases hlengths : mapping.logColumns.length = mapping.tableColumns.length
  · by_cases hempty : mapping.logColumns = []
    · exact Or.inr ⟨_, .empty hlengths hempty⟩
    · cases hfind : mapping.logColumns.find? fun c => !mapping.columnTypes.contains c with
      | none =>
        refine Or.inl ⟨hlengths, hempty, fun c hc => ?_⟩
        have htyped := List.find?_eq_none.mp hfind c hc
        rw [Bool.not_eq_true', Bool.not_eq_false] at htyped
        exact Option.isSome_iff_exists.mp htyped
      | some column =>
        obtain ⟨before, after, hcolumns, htyped, huntyped⟩ := find?_untyped.mp hfind
        exact Or.inr ⟨_, .untyped hlengths hcolumns htyped huntyped⟩
  · exact Or.inr ⟨_, .unpaired hlengths⟩

theorem check_error_iff : mapping.check = .error e ↔ mapping.Violates e := by
  refine ⟨fun h => ?_, check_of_violates⟩
  rcases usable_or_violates mapping with husable | ⟨e', hviolates⟩
  · rw [check_ok_iff.mpr husable] at h
    cases h
  · rw [check_of_violates hviolates] at h
    cases h
    exact hviolates

end IdMapping

namespace EventModel

variable {m : EventModel} {e : ModelError} {table : String}

theorem firstRepeated?_eq_some {seen columns : List String} {column : String} :
    firstRepeated? seen columns = some column ↔ ∃ before after,
      columns = before ++ column :: after ∧ before.Nodup ∧ (∀ c ∈ before, c ∉ seen) ∧
        (column ∈ seen ∨ column ∈ before) := by
  induction columns generalizing seen with
  | nil => simp [firstRepeated?]
  | cons c columns ih =>
    by_cases hseen : c ∈ seen
    · rw [firstRepeated?, if_pos (by simpa using hseen)]
      constructor
      · rintro ⟨⟩
        exact ⟨[], columns, rfl, List.nodup_nil, List.forall_mem_nil _, Or.inl hseen⟩
      · rintro ⟨before, after, hsplit, -, hnew, -⟩
        cases before with
        | nil =>
          cases hsplit
          rfl
        | cons d before =>
          obtain ⟨rfl, -⟩ := List.cons.inj hsplit
          exact absurd hseen (hnew c List.mem_cons_self)
    · rw [firstRepeated?, if_neg (by simpa using hseen), ih]
      constructor
      · rintro ⟨before, after, rfl, hnodup, hnew, hrepeated⟩
        simp only [List.mem_cons, not_or] at hnew hrepeated
        refine ⟨c :: before, after, rfl, ?_, ?_, ?_⟩
        · exact List.nodup_cons.mpr ⟨fun hc => (hnew c hc).1 rfl, hnodup⟩
        · exact List.forall_mem_cons.mpr ⟨hseen, fun d hd => (hnew d hd).2⟩
        · rw [List.mem_cons]
          tauto
      · rintro ⟨before, after, hsplit, hnodup, hnew, hrepeated⟩
        cases before with
        | nil =>
          obtain ⟨rfl, -⟩ := List.cons.inj hsplit
          exact absurd (hrepeated.resolve_right List.not_mem_nil) hseen
        | cons d before =>
          obtain ⟨rfl, rfl⟩ := List.cons.inj hsplit
          obtain ⟨hc, hnodup⟩ := List.nodup_cons.mp hnodup
          refine ⟨before, after, rfl, hnodup, fun d hd hmem => ?_, ?_⟩
          · rcases List.mem_cons.mp hmem with rfl | hmem
            · exact hc hd
            · exact hnew d (List.mem_cons_of_mem c hd) hmem
          · rw [List.mem_cons] at hrepeated ⊢
            tauto

/-- What is wrong with a mapping of which all before it are usable and have the given columns, each
once. -/
inductive Objection (table : String) (seen : List String) (mapping : IdMapping) : ModelError → Prop
  | violates {e : ModelError} (violates : mapping.Violates e) : Objection table seen mapping e
  | repeats {before after : List String} {column : String} (usable : mapping.Usable)
      (columns : mapping.logColumns = before ++ column :: after) (new : (seen ++ before).Nodup)
      (repeated : column ∈ seen ++ before) :
      Objection table seen mapping (.duplicateColumn table column)

inductive FirstViolation (m : EventModel) : ModelError → Prop
  | noMappings (empty : m.mappings = []) : FirstViolation m (.noMappings m.table)
  | mapping {before after : List IdMapping} {mapping : IdMapping} {e : ModelError}
      (split : m.mappings = before ++ mapping :: after)
      (usable : ∀ earlier ∈ before, earlier.Usable)
      (nodup : (before.flatMap IdMapping.logColumns).Nodup)
      (objection : Objection m.table (before.flatMap IdMapping.logColumns) mapping e) :
      FirstViolation m e

theorem Objection.perm {seen seen' : List String} {mapping : IdMapping}
    (h : Objection table seen mapping e) (hperm : seen.Perm seen') :
    Objection table seen' mapping e := by
  cases h with
  | violates violates => exact .violates violates
  | @repeats before _ _ usable columns new repeated =>
    have hsame := hperm.append_right before
    exact .repeats usable columns (hsame.nodup_iff.mp new) (hsame.mem_iff.mp repeated)

section Head

variable {seen : List String} {mapping : IdMapping} {mappings : List IdMapping}

theorem checkMappings_cons : checkMappings table seen (mapping :: mappings) =
    (checkMappings table seen [mapping]).bind fun _ =>
      checkMappings table (mapping.logColumns ++ seen) mappings := by
  rw [checkMappings, checkMappings]
  cases mapping.check with
  | error => rfl
  | ok => cases firstRepeated? seen mapping.logColumns <;> rfl

theorem check_head_ok_iff (hseen : seen.Nodup) : checkMappings table seen [mapping] = .ok () ↔
    mapping.Usable ∧ (seen ++ mapping.logColumns).Nodup := by
  rw [checkMappings_ok_iff, List.nodup_append']
  simp only [List.forall_mem_singleton, List.flatMap_singleton]
  constructor
  · rintro ⟨husable, hnodup, hnew⟩
    exact ⟨husable, hseen, hnodup, fun c hc hc' => hnew c hc' hc⟩
  · rintro ⟨husable, -, hnodup, hnew⟩
    exact ⟨husable, hnodup, fun c hc hc' => hnew hc' hc⟩

theorem firstRepeated?_of_nodup (hseen : seen.Nodup) {columns : List String} {column : String} :
    firstRepeated? seen columns = some column ↔ ∃ before after,
      columns = before ++ column :: after ∧ (seen ++ before).Nodup ∧ column ∈ seen ++ before := by
  have hnew (before : List String) : (seen ++ before).Nodup ↔
      before.Nodup ∧ ∀ c ∈ before, c ∉ seen := by
    rw [List.nodup_append']
    constructor
    · rintro ⟨-, hnodup, happart⟩
      exact ⟨hnodup, fun c hc hc' => happart hc' hc⟩
    · rintro ⟨hnodup, happart⟩
      exact ⟨hseen, hnodup, fun c hc hc' => happart c hc' hc⟩
  simp only [firstRepeated?_eq_some, hnew, List.mem_append, and_assoc]

theorem check_head_error_iff (hseen : seen.Nodup) :
    checkMappings table seen [mapping] = .error e ↔ Objection table seen mapping e := by
  rw [checkMappings]
  constructor
  · intro h
    cases hcheck : mapping.check with
    | error e' =>
      rw [hcheck] at h
      cases h
      exact .violates (IdMapping.check_error_iff.mp hcheck)
    | ok =>
      cases hfirst : firstRepeated? seen mapping.logColumns with
      | none =>
        rw [hcheck, hfirst] at h
        cases h
      | some column =>
        rw [hcheck, hfirst] at h
        cases h
        obtain ⟨before, after, hsplit, hnew, hrepeated⟩ := (firstRepeated?_of_nodup hseen).mp hfirst
        exact .repeats (IdMapping.check_ok_iff.mp hcheck) hsplit hnew hrepeated
  · rintro (hviolates | ⟨husable, hsplit, hnew, hrepeated⟩)
    · rw [IdMapping.check_of_violates hviolates]
      rfl
    · have hfirst := (firstRepeated?_of_nodup hseen).mpr ⟨_, _, hsplit, hnew, hrepeated⟩
      rw [IdMapping.check_ok_iff.mpr husable, hfirst]
      rfl

end Head

theorem checkMappings_error_iff {seen : List String} {mappings : List IdMapping}
    (hseen : seen.Nodup) : checkMappings table seen mappings = .error e ↔
      ∃ before mapping after, mappings = before ++ mapping :: after ∧
        (∀ earlier ∈ before, earlier.Usable) ∧
          (seen ++ before.flatMap IdMapping.logColumns).Nodup ∧
            Objection table (seen ++ before.flatMap IdMapping.logColumns) mapping e := by
  induction mappings generalizing seen with
  | nil => simp [checkMappings]
  | cons mapping mappings ih =>
    rw [checkMappings_cons]
    cases hhead : checkMappings table seen [mapping] with
    | error e' =>
      have hobjection := (check_head_error_iff hseen).mp hhead
      constructor
      · rintro ⟨⟩
        exact ⟨[], mapping, mappings, rfl, List.forall_mem_nil _, by simpa using hseen,
          by simpa using hobjection⟩
      · rintro ⟨before, mapping', after, hsplit, husable, hnodup, hobjection'⟩
        cases before with
        | nil =>
          obtain ⟨rfl, rfl⟩ := List.cons.inj hsplit
          rw [List.flatMap_nil, List.append_nil, ← check_head_error_iff hseen, hhead] at hobjection'
          exact hobjection'
        | cons first before =>
          obtain ⟨rfl, rfl⟩ := List.cons.inj hsplit
          rw [List.flatMap_cons, ← List.append_assoc] at hnodup
          have hok : checkMappings table seen [mapping] = .ok () := (check_head_ok_iff hseen).mpr
            ⟨husable mapping List.mem_cons_self, (List.nodup_append'.mp hnodup).1⟩
          rw [hhead] at hok
          cases hok
    | ok =>
      obtain ⟨husable, hnodup⟩ := (check_head_ok_iff hseen).mp hhead
      have hswap : (seen ++ mapping.logColumns).Perm (mapping.logColumns ++ seen) :=
        List.perm_append_comm
      simp only [Except.bind, ih (hswap.nodup_iff.mp hnodup)]
      constructor
      · rintro ⟨before, mapping', after, rfl, hbefore, hnodup, hobjection⟩
        have hperm := hswap.append_right (before.flatMap IdMapping.logColumns)
        rw [List.append_assoc] at hperm
        refine ⟨mapping :: before, mapping', after, rfl, ?_, ?_, ?_⟩
        · exact List.forall_mem_cons.mpr ⟨husable, hbefore⟩
        · exact hperm.nodup_iff.mpr hnodup
        · exact hobjection.perm hperm.symm
      · rintro ⟨before, mapping', after, hsplit, hbefore, hnodup, hobjection⟩
        cases before with
        | nil =>
          obtain ⟨rfl, rfl⟩ := List.cons.inj hsplit
          rw [List.flatMap_nil, List.append_nil, ← check_head_error_iff hseen, hhead] at hobjection
          cases hobjection
        | cons first before =>
          obtain ⟨rfl, rfl⟩ := List.cons.inj hsplit
          have hperm := hswap.append_right (before.flatMap IdMapping.logColumns)
          rw [List.append_assoc] at hperm
          refine ⟨before, mapping', after, rfl, (List.forall_mem_cons.mp hbefore).2, ?_, ?_⟩
          · exact hperm.nodup_iff.mp hnodup
          · exact hobjection.perm hperm

theorem checked_error_iff : m.checked = .error e ↔ m.FirstViolation e := by
  have hchecked : m.checked = .error e ↔ m.check = .error e := by
    unfold checked
    cases m.check <;> simp [Except.map]
  rw [hchecked, check]
  by_cases hempty : m.mappings = []
  · rw [if_pos (by simpa using hempty)]
    constructor
    · rintro ⟨⟩
      exact .noMappings hempty
    · rintro (- | ⟨hsplit, -, -, -⟩)
      · rfl
      · rw [hempty] at hsplit
        simp at hsplit
  · rw [if_neg (by simpa using hempty), checkMappings_error_iff List.nodup_nil]
    constructor
    · rintro ⟨before, mapping, after, hsplit, husable, hnodup, hobjection⟩
      exact .mapping hsplit husable hnodup hobjection
    · rintro (hnone | ⟨hsplit, husable, hnodup, hobjection⟩)
      · exact absurd hnone hempty
      · exact ⟨_, _, _, hsplit, husable, hnodup, hobjection⟩

theorem readColumn_ne_untyped {mapping : IdMapping} {log column : String}
    {row : List (String × Json)} (htyped : ∃ type, mapping.columnTypes.get? column = some type)
    (type : EntityType) (c : String) :
    mapping.readColumn log row column ≠ .error (.untypedColumn type c) := by
  obtain ⟨columnType, htype⟩ := htyped
  unfold IdMapping.readColumn
  intro h
  cases hvalue : row.lookup column with
  | none =>
    rw [hvalue] at h
    cases h
  | some value =>
    simp only [hvalue, htype] at h
    cases hid : EntityId.ofColumn? columnType value with
    | none =>
      simp only [hid] at h
      cases h
    | some id =>
      simp only [hid] at h
      cases h

theorem Usable.changes_ne_untyped (h : m.Usable) (code : Int) (row : List (String × Json))
    (type : EntityType) (column : String) :
    m.changes code row ≠ .error (.untypedColumn type column) := by
  intro hchanges
  rcases changes_error_iff.mp hchanges with ⟨_, -, hunknown⟩ | ⟨-, _, mapping, _, hsplit, -, hid⟩
  · cases hunknown
  · obtain ⟨_, c, _, hcolumns, -, hcolumn⟩ := readId_error_iff.mp hid
    have husable := h.mappings mapping (by simp [hsplit])
    exact readColumn_ne_untyped (husable.typed c (by simp [hcolumns])) type column hcolumn

end EventModel

end SearchSync
