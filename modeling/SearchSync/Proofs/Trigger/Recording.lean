import SearchSync.Proofs.Text.Pieces
import SearchSync.Proofs.Trigger.Plan

/-!
# What a trigger records

The row that a trigger appends to the event log, as the text of the trigger says: which columns it
fills, and that the model reads the ids of the changed row back from them.
-/
namespace SearchSync

def Inserts (text table columns values : String) : Prop :=
  ∃ before after, text = before ++ ("INSERT INTO " ++ table ++ "(" ++ columns ++ ")\n" ++
    "        VALUES(" ++ values ++ ");") ++ after

/-- A row of the event log has the values of a changed row, each under the column that it is copied
to. -/
def Copies (row : List (String × Json)) (columns : List (String × String))
    (changed : String → Json) : Prop :=
  ∀ c ∈ columns, row.lookup c.1 = some (changed c.2)

section Text

variable {m : EventModel} {kind : ChangeKind}

theorem Inserts.extend {text table columns values : String} (h : Inserts text table columns values)
    (before after : String) : Inserts (before ++ text ++ after) table columns values := by
  obtain ⟨first, last, rfl⟩ := h
  exact ⟨before ++ first, last ++ after, by simp only [String.append_assoc]⟩

theorem LogEntry.inserts_insertText (e : LogEntry) (id : String) :
    Inserts (e.insertText id) e.log ("id, " ++ e.kindColumn ++ ", " ++ e.columnList)
      (id ++ ", " ++ Decimal.natText e.kind.code ++ ", " ++ e.valueList) := by
  have htext : e.insertText id = "    INSERT INTO " ++ e.log ++ "(id, " ++ e.kindColumn ++ ", " ++
    e.columnList ++ ")\n" ++ "        VALUES(" ++ id ++ ", " ++ Decimal.natText e.kind.code ++
      ", " ++ e.valueList ++ ");" := rfl
  have hinsert : "    INSERT INTO " = "    " ++ "INSERT INTO " := by decide
  have hid : "(id, " = "(" ++ "id, " := by decide
  refine ⟨"    ", "", ?_⟩
  rw [htext, hinsert, hid]
  simp only [String.append_assoc, String.append_empty]

theorem createTrigger_inserts (s : TriggerSource) (h : m.columnPairs ≠ []) (kind : ChangeKind) :
    ∃ sts, s.createTrigger m kind = .ok sts ∧ ∃ st ∈ sts, ∃ id, Inserts st.text m.log
      ("id, " ++ m.kindColumn ++ ", " ++ (TriggerSource.logEntry m kind).columnList)
      (id ++ ", " ++ Decimal.natText kind.code ++ ", " ++
        (TriggerSource.logEntry m kind).valueList) := by
  have hrow := (TriggerSource.logEntry m kind).inserts_insertText
  refine ⟨_, TriggerSource.createTrigger_eq h kind, ?_⟩
  unfold TriggerSource.createHook TriggerSource.create
  cases s.dialect with
  | mysql =>
    refine ⟨_, List.mem_singleton_self _, "@unique_id", ?_⟩
    have hbody := (hrow "@unique_id").extend ("    CALL " ++ s.procedure ++ "(@unique_id);\n") ""
    rw [String.append_empty] at hbody
    exact hbody.extend _ "\nEND;"
  | postgresql =>
    refine ⟨_, List.mem_cons_self, s.procedure ++ "()", ?_⟩
    exact (hrow (s.procedure ++ "()")).extend _ "\n    RETURN NULL;\nEND;\n$$ LANGUAGE plpgsql;"

end Text

theorem toOption_mapM {α β ε : Type} {f : α → Except ε β} {g : α → Option β} {xs : List α}
    (h : ∀ x ∈ xs, (f x).toOption = g x) : (xs.mapM f).toOption = xs.mapM g := by
  induction xs with
  | nil => rfl
  | cons x xs ih =>
    obtain ⟨hx, hxs⟩ := List.forall_mem_cons.mp h
    rw [List.mapM_cons, List.mapM_cons, ← hx, ← ih hxs]
    cases f x with
    | error e => rfl
    | ok y => cases xs.mapM f <;> rfl

namespace IdMapping

variable {mapping : IdMapping} {row : List (String × Json)} {changed : String → Json}

/-- The id that a mapping finds in the changed row itself: what the columns of the table hold, read
as the columns that they are copied to. -/
def idIn? (mapping : IdMapping) (changed : String → Json) : Option EntityId := do
  let ids ← mapping.columnPairs.mapM fun c => do
    EntityId.ofColumn? (← mapping.columnTypes.get? c.1) (changed c.2)
  match ids with
  | [id] => return id
  | ids => return .composite ids

theorem toOption_readColumn (log : String) {c : String} {value : Json}
    (h : row.lookup c = some value) : (mapping.readColumn log row c).toOption =
      (do EntityId.ofColumn? (← mapping.columnTypes.get? c) value) := by
  unfold readColumn
  rw [h]
  cases htype : mapping.columnTypes.get? c with
  | none => rfl
  | some type => cases hid : EntityId.ofColumn? type value <;> simp [hid] <;> rfl

theorem toOption_readId (h : mapping.Usable) (log : String)
    (hrow : Copies row mapping.columnPairs changed) :
    (mapping.readId log row).toOption = mapping.idIn? changed := by
  unfold readId idIn?
  rw [← toOption_mapM fun c hc => toOption_readColumn log (hrow c hc), ← h.map_fst_columnPairs,
    List.mapM_map]
  show _ = ((mapping.columnPairs.mapM (mapping.readColumn log row ∘ Prod.fst)).toOption >>= _)
  cases mapping.columnPairs.mapM (mapping.readColumn log row ∘ Prod.fst) with
  | error e => rfl
  | ok ids => rcases ids with _ | ⟨id, _ | ⟨id', ids⟩⟩ <;> rfl

end IdMapping

namespace EventModel

variable {m : EventModel} {row : List (String × Json)} {changed : String → Json}

def changesIn? (m : EventModel) (kind : ChangeKind) (changed : String → Json) :
    Option (List Change) :=
  m.mappings.mapM fun mapping => do return ⟨mapping.entityType, ← mapping.idIn? changed, kind⟩

theorem toOption_changes (h : m.Usable) (hrow : Copies row m.columnPairs changed)
    (kind : ChangeKind) : (m.changes kind.code row).toOption = m.changesIn? kind changed := by
  have hmappings : ∀ mapping ∈ m.mappings,
      (do return (⟨mapping.entityType, ← mapping.readId m.log row, kind⟩ : Change) :
        Except ModelError Change).toOption =
          (do return ⟨mapping.entityType, ← mapping.idIn? changed, kind⟩) := by
    intro mapping hmapping
    have hcopies : Copies row mapping.columnPairs changed :=
      fun c hc => hrow c (List.mem_flatMap.mpr ⟨mapping, hmapping, hc⟩)
    rw [← IdMapping.toOption_readId (h.mappings mapping hmapping) m.log hcopies]
    cases mapping.readId m.log row <;> rfl
  rw [changesIn?, ← toOption_mapM hmappings, changes, ChangeKind.ofCode_code]
  rfl

end EventModel

theorem copies_zip {columns : List (String × String)} (h : (columns.map (·.1)).Nodup)
    (changed : String → Json) :
    Copies ((columns.map (·.1)).zip ((columns.map (·.2)).map changed)) columns changed := by
  induction columns with
  | nil => nofun
  | cons c columns ih =>
    rw [List.map_cons, List.nodup_cons] at h
    intro d hd
    rw [List.map_cons, List.map_cons, List.map_cons, List.zip_cons_cons, List.lookup_cons]
    rcases List.mem_cons.mp hd with rfl | hd
    · rw [beq_self_eq_true]
    · have hne : d.1 ≠ c.1 := fun heq => h.1 (heq ▸ List.mem_map_of_mem hd)
      rw [beq_eq_false_iff_ne.mpr hne]
      exact ih h.2 d hd

theorem pieces_columnList {e : LogEntry} (hne : e.columns ≠ [])
    (h : ∀ c ∈ e.columns, ',' ∉ c.1.toList) :
    Text.pieces ", " e.columnList = e.columns.map (·.1) := by
  refine Text.pieces_intercalate (by decide) (by simpa using hne) ?_
  rw [List.forall_mem_map]
  exact fun c hc => Text.uncut_pair (h c hc)

theorem pieces_valueList {e : LogEntry} (hne : e.columns ≠ [])
    (h : ∀ c ∈ e.columns, ',' ∉ c.2.toList) :
    Text.pieces ", " e.valueList = e.columns.map fun c => e.rowName ++ "." ++ c.2 := by
  refine Text.pieces_intercalate (by decide) (by simpa using hne) ?_
  rw [List.forall_mem_map]
  intro c hc
  apply Text.uncut_pair
  have hrow : ',' ∉ e.rowName.toList ++ ".".toList := by
    unfold LogEntry.rowName
    cases e.kind <;> decide
  rw [String.toList_append, String.toList_append, List.mem_append, not_or]
  exact ⟨hrow, h c hc⟩

/-- What a trigger writes is what the model reads back: the texts of the lists of id columns and of
their values fall into the id columns of the model and the columns that they are copied from, and a
row of the event log that holds those values is read as the changes that the changed row itself
stands for. The two texts are the same in either dialect. -/
theorem recorded_row_reads_back {m : EventModel} (h : m.checked = .ok m)
    (hnames : ∀ c ∈ m.columnPairs, ',' ∉ c.1.toList ∧ ',' ∉ c.2.toList) (kind : ChangeKind) :
    ∃ columns values : String,
      (∀ s : TriggerSource, ∃ sts, s.createTrigger m kind = .ok sts ∧ ∃ st ∈ sts, ∃ id,
        Inserts st.text m.log ("id, " ++ m.kindColumn ++ ", " ++ columns)
          (id ++ ", " ++ Decimal.natText kind.code ++ ", " ++ values)) ∧
      Text.pieces ", " columns = m.idColumns ∧
      Text.pieces ", " values =
        m.originalColumns.map (fun c => (if kind = .delete then "OLD." else "NEW.") ++ c) ∧
      m.idColumns.length = m.originalColumns.length ∧
      ∀ changed : String → Json,
        Copies (m.idColumns.zip (m.originalColumns.map changed))
          (m.idColumns.zip m.originalColumns) changed ∧
        ∀ row, Copies row (m.idColumns.zip m.originalColumns) changed →
          ∀ cs, m.changes kind.code row = .ok cs ↔ m.changesIn? kind changed = some cs := by
  have husable := EventModel.checked_iff_usable.mp h
  have hne := husable.columnPairs_ne_nil
  refine ⟨_, _, fun s => createTrigger_inserts s hne kind, ?_, ?_, ?_, fun changed => ⟨?_, ?_⟩⟩
  · rw [pieces_columnList hne fun c hc => (hnames c hc).1]
    exact husable.map_fst_columnPairs
  · rw [pieces_valueList hne fun c hc => (hnames c hc).2, ← husable.map_snd_columnPairs,
      List.map_map]
    refine List.map_congr_left fun c _ => ?_
    cases kind <;> rfl
  · rw [← husable.map_fst_columnPairs, ← husable.map_snd_columnPairs, List.length_map,
      List.length_map]
  · rw [husable.zip_idColumns, ← husable.map_fst_columnPairs, ← husable.map_snd_columnPairs]
    apply copies_zip
    rw [husable.map_fst_columnPairs]
    exact husable.nodup
  · intro row hrow cs
    rw [husable.zip_idColumns] at hrow
    rw [← EventModel.toOption_changes husable hrow kind]
    cases m.changes kind.code row <;> simp [Except.toOption]

namespace Sample

def booking : EventModel where
  table := "booking"
  log := "booking_log"
  kindColumn := EventModel.defaultKindColumn
  mappings := [
    ⟨⟨"Booking"⟩, ["roomId", "day"], ["room", "day"],
      NameMap.ofList [("day", .text), ("roomId", .int64)]⟩,
    .single ⟨"Guest"⟩ "guestId" "guest" .int32]

def booked (column : String) : Json :=
  if column = "room" then .string "4"
  else if column = "day" then .string "monday"
  else .number (.integer 7)

end Sample

/-- A deleted booking is read back as the deletion of the booking and of its guest. -/
theorem recorded_row_reads_back_booking :
    Sample.booking.checked = .ok Sample.booking ∧
      (∀ c ∈ Sample.booking.columnPairs, ',' ∉ c.1.toList ∧ ',' ∉ c.2.toList) ∧
      Sample.booking.changes ChangeKind.delete.code
        [("day", .string "monday"), ("guestId", .number (.integer 7)), ("roomId", .string "4")] =
          .ok [⟨⟨"Booking"⟩, .composite [.int 4, .text "monday"], .delete⟩,
            ⟨⟨"Guest"⟩, .int 7, .delete⟩] := by
  have hchecked : Sample.booking.checked = .ok Sample.booking := rfl
  have hnames : ∀ c ∈ Sample.booking.columnPairs, ',' ∉ c.1.toList ∧ ',' ∉ c.2.toList := by
    decide
  refine ⟨hchecked, hnames, ?_⟩
  obtain ⟨-, -, -, -, -, -, hread⟩ := recorded_row_reads_back hchecked hnames .delete
  refine ((hread Sample.booked).2 _ ?_ _).mpr rfl
  exact List.forall_mem_cons.mpr ⟨rfl, List.forall_mem_cons.mpr
    ⟨rfl, List.forall_mem_singleton.mpr rfl⟩⟩

/-- A trigger that is written for a model fills the column of unique ids, that of kinds and the id
columns. They are distinct exactly if the first two differ from each other and from the others,
which no check of the model ensures. -/
theorem inserted_columns_nodup_iff {m : EventModel} (h : m.checked = .ok m) (s : TriggerSource)
    (kind : ChangeKind) :
    ∃ columns : List String,
      (∃ sts, s.createTrigger m kind = .ok sts ∧ ∃ st ∈ sts, ∃ values,
        Inserts st.text m.log (", ".intercalate columns) values) ∧
      columns = "id" :: m.kindColumn :: m.idColumns ∧
      (columns.Nodup ↔ m.kindColumn ≠ "id" ∧ "id" ∉ m.idColumns ∧ m.kindColumn ∉ m.idColumns) := by
  have husable := EventModel.checked_iff_usable.mp h
  refine ⟨_, ?_, rfl, ?_⟩
  · obtain ⟨sts, hsts, st, hst, id, hrow⟩ := createTrigger_inserts s husable.columnPairs_ne_nil kind
    have hlist : (TriggerSource.logEntry m kind).columnList = ", ".intercalate m.idColumns :=
      congrArg _ husable.map_fst_columnPairs
    have hid : "id, " = "id" ++ ", " := by decide
    have hcolumns : "id, " ++ m.kindColumn ++ ", " ++ (TriggerSource.logEntry m kind).columnList =
        ", ".intercalate ("id" :: m.kindColumn :: m.idColumns) := by
      rw [hlist, hid, String.intercalate_cons_cons,
        String.intercalate_cons_of_ne_nil husable.idColumns_ne_nil]
      simp only [String.append_assoc]
    rw [hcolumns] at hrow
    exact ⟨sts, hsts, st, hst, _, hrow⟩
  · rw [List.nodup_cons, List.nodup_cons, List.mem_cons, not_or]
    have hnodup := husable.nodup
    constructor
    · rintro ⟨⟨hne, hid⟩, hkind, -⟩
      exact ⟨Ne.symm hne, hid, hkind⟩
    · rintro ⟨hne, hid, hkind⟩
      exact ⟨⟨hne.symm, hid⟩, hkind, hnodup⟩

/-- The columns that a booking is recorded in are distinct. -/
theorem inserted_columns_nodup_iff_booking :
    ∃ columns : List String,
      (∃ sts, (Dialect.postgresql.triggerSource none none).createTrigger Sample.booking .update =
        .ok sts ∧ ∃ st ∈ sts, ∃ values,
          Inserts st.text Sample.booking.log (", ".intercalate columns) values) ∧
      columns.Nodup := by
  obtain ⟨columns, hrow, -, hnodup⟩ := inserted_columns_nodup_iff
    (rfl : Sample.booking.checked = .ok Sample.booking)
    (Dialect.postgresql.triggerSource none none) .update
  exact ⟨columns, hrow, hnodup.mpr (by decide)⟩

namespace Sample

def misnamed : EventModel :=
  ⟨"place", "place_log", EventModel.defaultKindColumn, [.single ⟨"Place"⟩ "id" "id" .int32]⟩

end Sample

/-- A model that passes its check may have a trigger that fills one column twice. -/
theorem column_filled_twice :
    Sample.misnamed.checked = .ok Sample.misnamed ∧
      (∃ sts, (Dialect.mysql.triggerSource none none).createTrigger Sample.misnamed .insert =
        .ok sts ∧ ∃ st ∈ sts, ∃ values,
          Inserts st.text "place_log" (", ".intercalate ["id", "eventType", "id"]) values) ∧
      ¬["id", "eventType", "id"].Nodup := by
  refine ⟨rfl, ?_, by decide⟩
  obtain ⟨sts, hsts, st, hst, id, hrow⟩ := createTrigger_inserts (m := Sample.misnamed)
    (Dialect.mysql.triggerSource none none) (by decide) .insert
  exact ⟨sts, hsts, st, hst, _, hrow⟩

end SearchSync
