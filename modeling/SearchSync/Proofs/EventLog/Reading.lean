import SearchSync.Proofs.EventLog.Violations

/-!
# A row is read as a whole

Whether a row of the event log can be read, and as what, is said here of its kind and its id columns
one by one. If all of them can be read, the row stands for a change of every mapping. Otherwise it
stands for none, and the error is about the first of them that cannot be.
-/
namespace SearchSync

def EntityId.ofParts : List EntityId → EntityId
  | [id] => id
  | ids => .composite ids

theorem EntityId.ofColumn?_null (type : ColumnType) : ofColumn? type .null = none := by
  cases type <;> rfl

namespace ChangeKind

variable {code : Int} {kind : ChangeKind} {e : Unknown}

theorem ofCode_ok_iff : ofCode code = .ok kind ↔ (kind.code : Int) = code := by
  unfold ofCode
  constructor
  · intro h
    split at h
    · rename_i k hfind
      have hcode := List.find?_some hfind
      obtain rfl := Except.ok.inj h
      exact eq_of_beq hcode
    · cases h
  · rintro rfl
    cases kind <;> rfl

theorem ofCode_error_iff :
    ofCode code = .error e ↔ (∀ kind : ChangeKind, (kind.code : Int) ≠ code) ∧ e = .code code := by
  constructor
  · intro h
    refine ⟨fun kind hkind => ?_, ?_⟩
    · rw [ofCode_ok_iff.mpr hkind] at h
      cases h
    · unfold ofCode at h
      split at h <;> cases h
      rfl
  · rintro ⟨hunknown, rfl⟩
    unfold ofCode
    split
    · rename_i kind hfind
      have hcode := List.find?_some hfind
      exact absurd (eq_of_beq hcode) (hunknown kind)
    · rfl

end ChangeKind

namespace IdMapping

variable {mapping : IdMapping} {log column : String} {row row' : List (String × Json)}
  {id : EntityId} {e : ModelError}

def Holds (mapping : IdMapping) (row : List (String × Json)) (column : String)
    (id : EntityId) : Prop :=
  ∃ value type, row.lookup column = some value ∧ mapping.columnTypes.get? column = some type ∧
    EntityId.ofColumn? type value = some id

inductive Fault (mapping : IdMapping) (log : String) (row : List (String × Json))
    (column : String) : ModelError → Prop
  | missing (absent : row.lookup column = none) :
      Fault mapping log row column (.missingColumn log column)
  | unreadable {value : Json} {type : ColumnType} (present : row.lookup column = some value)
      (typed : mapping.columnTypes.get? column = some type)
      (unreadable : EntityId.ofColumn? type value = none) :
      Fault mapping log row column (.invalidId log column value type)

theorem readColumn_ok_iff :
    mapping.readColumn log row column = .ok id ↔ mapping.Holds row column id := by
  unfold readColumn Holds
  cases hvalue : row.lookup column with
  | none => exact iff_of_false nofun nofun
  | some value =>
    cases htype : mapping.columnTypes.get? column with
    | none => exact iff_of_false nofun nofun
    | some type =>
      cases hid : EntityId.ofColumn? type value with
      | none => simp [hid, throw, throwThe, MonadExceptOf.throw]
      | some id' => simp [hid, pure, Except.pure]

theorem readColumn_error_iff (htyped : ∃ type, mapping.columnTypes.get? column = some type) :
    mapping.readColumn log row column = .error e ↔ mapping.Fault log row column e := by
  obtain ⟨type, htype⟩ := htyped
  unfold readColumn
  constructor
  · intro h
    cases hvalue : row.lookup column with
    | none =>
      rw [hvalue] at h
      cases h
      exact .missing hvalue
    | some value =>
      cases hid : EntityId.ofColumn? type value with
      | none =>
        simp only [hvalue, htype, hid] at h
        cases h
        exact .unreadable hvalue htype hid
      | some id =>
        simp only [hvalue, htype, hid] at h
        cases h
  · intro h
    cases h with
    | missing absent =>
      rw [absent]
      rfl
    | unreadable present typed unreadable =>
      simp only [present, typed, unreadable]
      rfl

theorem mapM_readColumn_ok_iff (log : String) {columns : List String} {ids : List EntityId} :
    columns.mapM (mapping.readColumn log row) = .ok ids ↔
      List.Forall₂ (mapping.Holds row) columns ids := by
  rw [mapM_ok_iff]
  constructor
  · intro h
    exact h.imp fun _ _ => readColumn_ok_iff.mp
  · intro h
    exact h.imp fun _ _ => readColumn_ok_iff.mpr

theorem readId_eq : mapping.readId log row =
    (mapping.logColumns.mapM (mapping.readColumn log row)).map .ofParts := by
  unfold readId
  cases mapping.logColumns.mapM (mapping.readColumn log row) with
  | error e => rfl
  | ok ids => rcases ids with - | ⟨id, - | ⟨id', ids⟩⟩ <;> rfl

theorem readId_ok_iff : mapping.readId log row = .ok id ↔
    ∃ ids, List.Forall₂ (mapping.Holds row) mapping.logColumns ids ∧ id = .ofParts ids := by
  simp only [← mapM_readColumn_ok_iff log, readId_eq]
  cases mapping.logColumns.mapM (mapping.readColumn log row) <;> simp [Except.map, eq_comm]

theorem exists_readId_iff (log : String) : (∃ id, mapping.readId log row = .ok id) ↔
    ∀ column ∈ mapping.logColumns, ∃ id, mapping.Holds row column id := by
  have hcolumns : (∃ ids, mapping.logColumns.mapM (mapping.readColumn log row) = .ok ids) ↔
      ∀ column ∈ mapping.logColumns, ∃ id, mapping.readColumn log row column = .ok id :=
    exists_mapM_ok_iff
  simp only [mapM_readColumn_ok_iff, readColumn_ok_iff] at hcolumns
  rw [← hcolumns]
  constructor
  · rintro ⟨id, hid⟩
    obtain ⟨ids, hids, -⟩ := readId_ok_iff.mp hid
    exact ⟨ids, hids⟩
  · rintro ⟨ids, hids⟩
    exact ⟨_, readId_ok_iff.mpr ⟨ids, hids, rfl⟩⟩

theorem readId_congr (h : ∀ column ∈ mapping.logColumns,
    mapping.readColumn log row' column = mapping.readColumn log row column) :
    mapping.readId log row' = mapping.readId log row := by
  rw [readId_eq, readId_eq, mapM_congr h]

end IdMapping

namespace EventModel

variable {m : EventModel} {code : Int} {row row' : List (String × Json)} {e : ModelError}

/-- The first thing that is wrong with a row: its kind, or else the first column in the order of the
mappings that is missing or cannot be read. -/
inductive FirstFault (m : EventModel) (code : Int) (row : List (String × Json)) : ModelError → Prop
  | kind (unknown : ∀ kind : ChangeKind, (kind.code : Int) ≠ code) :
      FirstFault m code row (.unknownKind (.code code))
  | column {kind : ChangeKind} {before after : List IdMapping} {mapping : IdMapping}
      {earlier later : List String} {column : String} {e : ModelError}
      (known : (kind.code : Int) = code) (mappings : m.mappings = before ++ mapping :: after)
      (columns : mapping.logColumns = earlier ++ column :: later)
      (readBefore : ∀ other ∈ before, ∀ c ∈ other.logColumns, ∃ id, other.Holds row c id)
      (readEarlier : ∀ c ∈ earlier, ∃ id, mapping.Holds row c id)
      (fault : mapping.Fault m.log row column e) : FirstFault m code row e

theorem exists_changes_iff : (∃ cs, m.changes code row = .ok cs) ↔
    (∃ kind : ChangeKind, (kind.code : Int) = code) ∧
      ∀ mapping ∈ m.mappings, ∀ column ∈ mapping.logColumns, ∃ id,
        mapping.Holds row column id := by
  simp only [← IdMapping.exists_readId_iff m.log, ← ChangeKind.ofCode_ok_iff]
  constructor
  · rintro ⟨cs, hcs⟩
    obtain ⟨kind, hkind, hall⟩ := changes_ok_iff.mp hcs
    refine ⟨⟨kind, hkind⟩, exists_mapM_ok_iff.mp ?_⟩
    refine ⟨cs.map (·.id), mapM_ok_iff.mpr (List.forall₂_map_right_iff.mpr ?_)⟩
    exact hall.imp fun _ _ h => h.2.1
  · rintro ⟨⟨kind, hkind⟩, hmappings⟩
    -- A row that is not read has an error, and there is none that it could be.
    cases hchanges : m.changes code row with
    | ok cs => exact ⟨cs, rfl⟩
    | error e =>
      rcases changes_error_iff.mp hchanges with
        ⟨_, hunknown, -⟩ | ⟨-, _, mapping, _, hsplit, -, hid⟩
      · cases hkind.symm.trans hunknown
      · obtain ⟨id, hread⟩ := hmappings mapping (by simp [hsplit])
        cases hread.symm.trans hid

theorem Usable.changes_error_iff_firstFault (h : m.Usable) :
    m.changes code row = .error e ↔ m.FirstFault code row e := by
  rw [changes_error_iff]
  simp only [ChangeKind.ofCode_error_iff, ChangeKind.ofCode_ok_iff, IdMapping.exists_readId_iff,
    readId_error_iff]
  have hcolumn {mapping : IdMapping} {before after : List IdMapping} {earlier later : List String}
      {column : String} (hmappings : m.mappings = before ++ mapping :: after)
      (hcolumns : mapping.logColumns = earlier ++ column :: later) :
      mapping.readColumn m.log row column = .error e ↔ mapping.Fault m.log row column e :=
    IdMapping.readColumn_error_iff
      ((h.mappings mapping (by simp [hmappings])).typed column (by simp [hcolumns]))
  constructor
  · rintro (⟨_, ⟨hunknown, rfl⟩, rfl⟩ | ⟨⟨kind, hkind⟩, before, mapping, after, hmappings, hbefore,
      earlier, column, later, hcolumns, hearlier, hfault⟩)
    · exact .kind hunknown
    · simp only [IdMapping.readColumn_ok_iff] at hearlier
      exact .column hkind hmappings hcolumns hbefore hearlier
        ((hcolumn hmappings hcolumns).mp hfault)
  · intro hfirst
    cases hfirst with
    | kind unknown => exact Or.inl ⟨_, ⟨unknown, rfl⟩, rfl⟩
    | column known mappings columns readBefore readEarlier fault =>
      refine Or.inr ⟨⟨_, known⟩, _, _, _, mappings, readBefore, _, _, _, columns, ?_, ?_⟩
      · simpa only [IdMapping.readColumn_ok_iff] using readEarlier
      · exact (hcolumn mappings columns).mpr fault

theorem changes_congr (h : ∀ mapping ∈ m.mappings, ∀ column ∈ mapping.logColumns,
    mapping.readColumn m.log row' column = mapping.readColumn m.log row column) (code : Int) :
    m.changes code row' = m.changes code row := by
  unfold changes
  refine bind_congr fun kind => mapM_congr fun mapping hmapping => ?_
  rw [IdMapping.readId_congr (h mapping hmapping)]

end EventModel

/-- Through a model that passes its check a row is read as a whole or not at all. It is read exactly
if its kind is known and every id column of every mapping holds a value of the declared type, which
null never is, and then as one change of that kind for each mapping. Otherwise the error is about
the first of them that is wrong. Nothing but the kind and the id columns matters. -/
theorem row_read_whole {m : EventModel} (h : m.checked = .ok m) (code : Int)
    (row : List (String × Json)) :
    ((∃ cs, m.changes code row = .ok cs) ↔ (∃ kind : ChangeKind, (kind.code : Int) = code) ∧
      ∀ mapping ∈ m.mappings, ∀ column ∈ mapping.logColumns, ∃ id,
        mapping.Holds row column id) ∧
    (∀ cs, m.changes code row = .ok cs ↔ ∃ kind : ChangeKind, (kind.code : Int) = code ∧
      List.Forall₂ (fun mapping c => c.entityType = mapping.entityType ∧
        (∃ ids, List.Forall₂ (mapping.Holds row) mapping.logColumns ids ∧ c.id = .ofParts ids) ∧
          c.kind = kind) m.mappings cs) ∧
    (∀ e, m.changes code row = .error e ↔ m.FirstFault code row e) ∧
    (∀ (mapping : IdMapping) column, row.lookup column = some .null →
      ∀ id, ¬mapping.Holds row column id) ∧
    ∀ row', (∀ column ∈ m.idColumns, row'.lookup column = row.lookup column) →
      m.changes code row' = m.changes code row := by
  have husable := EventModel.checked_iff_usable.mp h
  refine ⟨EventModel.exists_changes_iff, fun cs => ?_,
    fun e => husable.changes_error_iff_firstFault, ?_, fun row' hrow => ?_⟩
  · simp only [EventModel.changes_ok_iff, IdMapping.readId_ok_iff, ChangeKind.ofCode_ok_iff]
  · rintro mapping column hnull id ⟨value, type, hvalue, -, hid⟩
    obtain rfl := Option.some.inj (hnull.symm.trans hvalue)
    rw [EntityId.ofColumn?_null] at hid
    cases hid
  · refine EventModel.changes_congr (fun mapping hmapping column hcolumn => ?_) code
    have hlookup := hrow column (List.mem_flatMap.mpr ⟨mapping, hmapping, hcolumn⟩)
    rw [IdMapping.readColumn, IdMapping.readColumn, hlookup]

namespace Sample

def guilds : IdMapping :=
  ⟨⟨"Guild"⟩, ["land", "number"], ["guild_land", "guild_number"],
    NameMap.ofList [("land", .text), ("number", .int32)]⟩

def membership : EventModel where
  table := "guild_sorcerer"
  log := "guild_sorcerer_log"
  kindColumn := EventModel.defaultKindColumn
  mappings := [guilds, .single ⟨"Sorcerer"⟩ "sorcerer" "sorcerer_id" .uuid]

end Sample

/-- A row without a sorcerer is refused for the number of its guild, which comes first. -/
theorem row_read_whole_membership :
    Sample.membership.checked = .ok Sample.membership ∧
      Sample.membership.changes ChangeKind.delete.code
        [("land", .string "Anduin"), ("number", .null)] =
          .error (.invalidId "guild_sorcerer_log" "number" .null .int32) := by
  have hchecked : Sample.membership.checked = .ok Sample.membership := rfl
  have hmappings : Sample.membership.mappings =
      [] ++ Sample.guilds :: [.single ⟨"Sorcerer"⟩ "sorcerer" "sorcerer_id" .uuid] := rfl
  have hcolumns : Sample.guilds.logColumns = ["land"] ++ "number" :: [] := rfl
  have hland : Sample.guilds.Holds [("land", .string "Anduin"), ("number", .null)] "land"
      (.text "Anduin") := ⟨_, _, rfl, rfl, rfl⟩
  obtain ⟨-, -, herror, -, -⟩ := row_read_whole hchecked ChangeKind.delete.code
    [("land", .string "Anduin"), ("number", .null)]
  refine ⟨hchecked, (herror _).mpr ?_⟩
  exact .column rfl hmappings hcolumns nofun (List.forall_mem_singleton.mpr ⟨_, hland⟩)
    (.unreadable rfl rfl rfl)

end SearchSync
