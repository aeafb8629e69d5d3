import Mathlib.Data.List.Forall2
import Mathlib.Data.List.Nodup
import SearchSync.EventLog.Basic

/-!
# Usable event models and their rows

What the check of a model asks for, told as properties of its mappings, and how the rows of its
event log are read, column by column.
-/

namespace SearchSync

theorem mapM_ok_iff {α β ε : Type} {f : α → Except ε β} {as : List α} {bs : List β} :
    as.mapM f = .ok bs ↔ List.Forall₂ (fun a b => f a = .ok b) as bs := by
  induction as generalizing bs with
  | nil => cases bs <;> simp [pure, Except.pure]
  | cons a as ih =>
    rw [List.mapM_cons, List.forall₂_cons_left_iff]
    cases ha : f a with
    | error e => simp [bind, Except.bind]
    | ok b =>
      cases has : as.mapM f with
      | error e => simp [bind, Except.bind, ← ih, has]
      | ok rest => simp [bind, Except.bind, pure, Except.pure, ← ih, has, eq_comm]

theorem exists_mapM_ok_iff {α β ε : Type} {f : α → Except ε β} {as : List α} :
    (∃ bs, as.mapM f = .ok bs) ↔ ∀ a ∈ as, ∃ b, f a = .ok b := by
  simp only [mapM_ok_iff]
  induction as with
  | nil => simp
  | cons a as ih =>
    rw [List.forall_mem_cons, ← ih]
    constructor
    · rintro ⟨bs, hbs⟩
      obtain ⟨b, rest, hb, hrest, -⟩ := List.forall₂_cons_left_iff.mp hbs
      exact ⟨⟨b, hb⟩, rest, hrest⟩
    · rintro ⟨⟨b, hb⟩, rest, hrest⟩
      exact ⟨b :: rest, .cons hb hrest⟩

theorem mapM_congr {α β ε : Type} {f g : α → Except ε β} {as : List α}
    (h : ∀ a ∈ as, f a = g a) : as.mapM f = as.mapM g := by
  induction as with
  | nil => rfl
  | cons a as ih =>
    obtain ⟨ha, has⟩ := List.forall_mem_cons.mp h
    rw [List.mapM_cons, List.mapM_cons, ha, ih has]

theorem mapM_error_iff {α β ε : Type} {f : α → Except ε β} {as : List α} {e : ε} :
    as.mapM f = .error e ↔ ∃ before a after, as = before ++ a :: after ∧
      (∀ b ∈ before, ∃ c, f b = .ok c) ∧ f a = .error e := by
  induction as with
  | nil => simp [pure, Except.pure]
  | cons a as ih =>
    rw [List.mapM_cons]
    cases ha : f a with
    | error e' =>
      constructor
      · rintro ⟨⟩
        exact ⟨[], a, as, rfl, nofun, ha⟩
      · rintro ⟨before, a', after, hsplit, hbefore, ha'⟩
        cases before with
        | nil =>
          obtain ⟨rfl, -⟩ := List.cons.inj hsplit
          rw [ha] at ha'
          cases ha'
          rfl
        | cons b before =>
          obtain ⟨rfl, -⟩ := List.cons.inj hsplit
          obtain ⟨c, hc⟩ := hbefore a List.mem_cons_self
          rw [ha] at hc
          cases hc
    | ok b =>
      have hrest : (do let bs ← as.mapM f; pure (b :: bs) : Except ε (List β)) = .error e ↔
          as.mapM f = .error e := by
        cases as.mapM f <;> simp [bind, Except.bind, pure, Except.pure]
      refine hrest.trans (ih.trans ?_)
      constructor
      · rintro ⟨before, a', after, rfl, hbefore, ha'⟩
        exact ⟨a :: before, a', after, rfl, List.forall_mem_cons.mpr ⟨⟨b, ha⟩, hbefore⟩, ha'⟩
      · rintro ⟨before, a', after, hsplit, hbefore, ha'⟩
        cases before with
        | nil =>
          obtain ⟨rfl, -⟩ := List.cons.inj hsplit
          rw [ha] at ha'
          cases ha'
        | cons b' before =>
          obtain ⟨-, rfl⟩ := List.cons.inj hsplit
          exact ⟨before, a', after, rfl, (List.forall_mem_cons.mp hbefore).2, ha'⟩

namespace EventModel

variable {m : EventModel} {code : Int} {row : List (String × Json)} {cs : List Change}

theorem changeOf_ok_iff {mapping : IdMapping} {log : String} {kind : ChangeKind} {c : Change} :
    (do return ⟨mapping.entityType, ← mapping.readId log row, kind⟩ : Except ModelError Change) =
      .ok c ↔ c.entityType = mapping.entityType ∧ mapping.readId log row = .ok c.id ∧
        c.kind = kind := by
  obtain ⟨type, id, kind'⟩ := c
  cases mapping.readId log row <;> simp [bind, Except.bind, pure, Except.pure, eq_comm]

theorem changes_ok_iff :
    m.changes code row = .ok cs ↔ ∃ kind, ChangeKind.ofCode code = .ok kind ∧
      List.Forall₂ (fun mapping c => c.entityType = mapping.entityType ∧
        mapping.readId m.log row = .ok c.id ∧ c.kind = kind) m.mappings cs := by
  unfold changes
  cases ChangeKind.ofCode code with
  | error e => simp [Except.mapError, bind, Except.bind]
  | ok kind =>
    simp only [← changeOf_ok_iff, ← mapM_ok_iff, Except.ok.injEq, exists_eq_left']
    rfl

theorem readId_error_iff {mapping : IdMapping} {log : String} {e : ModelError} :
    mapping.readId log row = .error e ↔ ∃ before column after,
      mapping.logColumns = before ++ column :: after ∧
        (∀ c ∈ before, ∃ id, mapping.readColumn log row c = .ok id) ∧
          mapping.readColumn log row column = .error e := by
  rw [← mapM_error_iff, IdMapping.readId]
  cases mapping.logColumns.mapM (mapping.readColumn log row) with
  | error e' => simp [bind, Except.bind]
  | ok ids => rcases ids with - | ⟨id, - | ⟨id', ids⟩⟩ <;> exact iff_of_false nofun nofun

theorem changes_error_iff {e : ModelError} : m.changes code row = .error e ↔
    (∃ unknown, ChangeKind.ofCode code = .error unknown ∧ e = .unknownKind unknown) ∨
      (∃ kind, ChangeKind.ofCode code = .ok kind) ∧ ∃ before mapping after,
        m.mappings = before ++ mapping :: after ∧
          (∀ earlier ∈ before, ∃ id, earlier.readId m.log row = .ok id) ∧
            mapping.readId m.log row = .error e := by
  have hchange (mapping : IdMapping) (kind : ChangeKind) (e : ModelError) :
      (do return ⟨mapping.entityType, ← mapping.readId m.log row, kind⟩ :
        Except ModelError Change) = .error e ↔ mapping.readId m.log row = .error e := by
    cases mapping.readId m.log row <;> simp [bind, Except.bind, pure, Except.pure]
  have hread (mapping : IdMapping) (kind : ChangeKind) :
      (∃ c, (do return ⟨mapping.entityType, ← mapping.readId m.log row, kind⟩ :
        Except ModelError Change) = .ok c) ↔ ∃ id, mapping.readId m.log row = .ok id := by
    cases mapping.readId m.log row <;> simp [bind, Except.bind, pure, Except.pure]
  unfold changes
  cases ChangeKind.ofCode code with
  | error unknown => simp [Except.mapError, bind, Except.bind, eq_comm]
  | ok kind =>
    simp only [← hchange _ kind, ← hread _ kind, ← mapM_error_iff]
    simp [Except.mapError, bind, Except.bind]

theorem mem_changes (h : m.changes code row = .ok cs) :
    ∃ kind, ChangeKind.ofCode code = .ok kind ∧ ∀ c ∈ cs, c.kind = kind ∧
      ∃ mapping ∈ m.mappings, c.entityType = mapping.entityType := by
  obtain ⟨kind, hkind, hall⟩ := changes_ok_iff.mp h
  refine ⟨kind, hkind, ?_⟩
  clear h
  generalize m.mappings = mappings at hall
  induction hall with
  | nil => nofun
  | cons hc _ ih =>
    rw [List.forall_mem_cons]
    refine ⟨⟨hc.2.2, _, List.mem_cons_self, hc.1⟩, fun c hmem => ?_⟩
    obtain ⟨hkind, mapping, hmapping, htype⟩ := ih c hmem
    exact ⟨hkind, mapping, List.mem_cons_of_mem _ hmapping, htype⟩

end EventModel

namespace IdMapping

structure Usable (mapping : IdMapping) : Prop where
  paired : mapping.logColumns.length = mapping.tableColumns.length
  nonempty : mapping.logColumns ≠ []
  typed : ∀ c ∈ mapping.logColumns, ∃ type, mapping.columnTypes.get? c = some type

variable {mapping : IdMapping}

theorem check_ok_iff : mapping.check = .ok () ↔ mapping.Usable := by
  unfold check
  by_cases hpaired : mapping.logColumns.length = mapping.tableColumns.length
  · by_cases hempty : mapping.logColumns = []
    · simp only [hempty, List.isEmpty_nil, if_true]
      constructor
      · intro h
        split at h <;> cases h
      · intro h
        exact absurd hempty h.nonempty
    · simp only [hpaired, ne_eq, not_true_eq_false, if_false, List.isEmpty_iff, hempty]
      cases hfind : mapping.logColumns.find? fun c => !mapping.columnTypes.contains c with
      | none =>
        refine iff_of_true rfl ⟨hpaired, hempty, ?_⟩
        intro c hc
        have htyped := List.find?_eq_none.mp hfind c hc
        rw [← Option.isSome_iff_exists]
        simpa [NameMap.contains, ← Option.isSome_iff_ne_none] using htyped
      | some c =>
        refine iff_of_false nofun fun h => ?_
        obtain ⟨type, htype⟩ := h.typed c (List.mem_of_find?_eq_some hfind)
        have huntyped := List.find?_some hfind
        simp [NameMap.contains, htype] at huntyped
  · simp only [ne_eq, hpaired, not_false_eq_true, if_true]
    exact iff_of_false nofun fun h => hpaired h.paired

theorem Usable.columnPairs_ne_nil (h : mapping.Usable) : mapping.columnPairs ≠ [] := by
  intro hpairs
  have hlength := congrArg List.length hpairs
  rw [columnPairs, List.length_zip, ← h.paired, Nat.min_self] at hlength
  exact h.nonempty (List.length_eq_zero_iff.mp hlength)

theorem Usable.map_fst_columnPairs (h : mapping.Usable) :
    mapping.columnPairs.map Prod.fst = mapping.logColumns :=
  List.map_fst_zip (Nat.le_of_eq h.paired)

theorem Usable.map_snd_columnPairs (h : mapping.Usable) :
    mapping.columnPairs.map Prod.snd = mapping.tableColumns :=
  List.map_snd_zip (Nat.le_of_eq h.paired.symm)

end IdMapping

namespace EventModel

def idColumns (m : EventModel) : List String := m.mappings.flatMap IdMapping.logColumns

def originalColumns (m : EventModel) : List String := m.mappings.flatMap IdMapping.tableColumns

def columnPairs (m : EventModel) : List (String × String) :=
  m.mappings.flatMap IdMapping.columnPairs

structure Usable (m : EventModel) : Prop where
  nonempty : m.mappings ≠ []
  mappings : ∀ mapping ∈ m.mappings, mapping.Usable
  nodup : m.idColumns.Nodup

theorem firstRepeated?_eq_none {seen columns : List String} :
    firstRepeated? seen columns = none ↔ columns.Nodup ∧ ∀ c ∈ columns, c ∉ seen := by
  induction columns generalizing seen with
  | nil => simp [firstRepeated?]
  | cons c columns ih =>
    by_cases hseen : c ∈ seen
    · simp [firstRepeated?, hseen]
    · rw [firstRepeated?, if_neg (by simpa using hseen), ih, List.nodup_cons, List.forall_mem_cons]
      constructor
      · rintro ⟨hnodup, hnew⟩
        exact ⟨⟨fun hc => hnew c hc List.mem_cons_self, hnodup⟩, hseen,
          fun d hd hd' => hnew d hd (List.mem_cons_of_mem c hd')⟩
      · rintro ⟨⟨hc, hnodup⟩, -, hnew⟩
        refine ⟨hnodup, fun d hd hd' => ?_⟩
        rcases List.mem_cons.mp hd' with rfl | hd'
        · exact hc hd
        · exact hnew d hd hd'

theorem checkMappings_ok_iff {table : String} {seen : List String} {mappings : List IdMapping} :
    checkMappings table seen mappings = .ok () ↔ (∀ mapping ∈ mappings, mapping.Usable) ∧
      (mappings.flatMap IdMapping.logColumns).Nodup ∧
        ∀ c ∈ mappings.flatMap IdMapping.logColumns, c ∉ seen := by
  induction mappings generalizing seen with
  | nil => simp [checkMappings]
  | cons mapping mappings ih =>
    rw [List.forall_mem_cons, List.flatMap_cons, List.nodup_append', List.forall_mem_append,
      ← IdMapping.check_ok_iff, checkMappings]
    cases hcheck : mapping.check with
    | error e => exact iff_of_false nofun (by rintro ⟨⟨⟨⟩, -⟩, -⟩)
    | ok =>
      simp only [bind, Except.bind]
      cases hfirst : firstRepeated? seen mapping.logColumns with
      | some c =>
        refine iff_of_false nofun ?_
        rintro ⟨-, ⟨hnodup, -, -⟩, hnew, -⟩
        rw [firstRepeated?_eq_none.mpr ⟨hnodup, hnew⟩] at hfirst
        cases hfirst
      | none =>
        obtain ⟨hnodup, hnew⟩ := firstRepeated?_eq_none.mp hfirst
        simp only [ih, List.mem_append, not_or, forall_and, true_and, hnodup]
        constructor
        · rintro ⟨husable, hrest, happart, hseen⟩
          exact ⟨husable, ⟨hrest, fun c hc hc' => happart c hc' hc⟩, hnew, hseen⟩
        · rintro ⟨husable, ⟨hrest, happart⟩, -, hseen⟩
          exact ⟨husable, hrest, fun c hc hc' => happart hc' hc, hseen⟩

variable {m : EventModel}

theorem checked_iff_usable : m.checked = .ok m ↔ m.Usable := by
  have hchecked : m.checked = .ok m ↔ m.check = .ok () := by
    unfold checked
    cases m.check <;> simp [Except.map]
  rw [hchecked, check]
  by_cases hnil : m.mappings = []
  · rw [if_pos (by rw [hnil]; rfl)]
    exact iff_of_false nofun fun h => h.nonempty hnil
  · rw [if_neg (by rwa [List.isEmpty_iff]), checkMappings_ok_iff]
    constructor
    · rintro ⟨hmappings, hnodup, -⟩
      exact ⟨hnil, hmappings, hnodup⟩
    · intro h
      exact ⟨h.mappings, h.nodup, fun _ _ => List.not_mem_nil⟩

theorem Usable.columnPairs_ne_nil (h : m.Usable) : m.columnPairs ≠ [] := by
  obtain ⟨mapping, hmapping⟩ := List.exists_mem_of_ne_nil _ h.nonempty
  intro hnil
  exact (h.mappings mapping hmapping).columnPairs_ne_nil
    (List.flatMap_eq_nil_iff.mp hnil mapping hmapping)

theorem Usable.map_fst_columnPairs (h : m.Usable) :
    m.columnPairs.map Prod.fst = m.idColumns := by
  rw [columnPairs, List.map_flatMap]
  exact List.flatMap_congr fun mapping hmapping => (h.mappings mapping hmapping).map_fst_columnPairs

theorem Usable.map_snd_columnPairs (h : m.Usable) :
    m.columnPairs.map Prod.snd = m.originalColumns := by
  rw [columnPairs, List.map_flatMap]
  exact List.flatMap_congr fun mapping hmapping => (h.mappings mapping hmapping).map_snd_columnPairs

theorem Usable.idColumns_ne_nil (h : m.Usable) : m.idColumns ≠ [] := by
  rw [← h.map_fst_columnPairs, ne_eq, List.map_eq_nil_iff]
  exact h.columnPairs_ne_nil

theorem Usable.zip_idColumns (h : m.Usable) :
    m.idColumns.zip m.originalColumns = m.columnPairs := by
  rw [← h.map_fst_columnPairs, ← h.map_snd_columnPairs, List.zip_map', List.map_id']

end EventModel

end SearchSync
