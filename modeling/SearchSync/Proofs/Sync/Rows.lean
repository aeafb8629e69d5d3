import SearchSync.Config.Json
import SearchSync.Proofs.Entity.Encoding
import SearchSync.Proofs.EventLog.Reading
import SearchSync.Proofs.EventLog.Usable
import SearchSync.Proofs.Sync.Convergence
import SearchSync.Proofs.Sync.Resolution

/-!
# Rows of an event log in a batch

A row of a join table stands for a change of either side, and each of these changes has the row's
kind. A row that is deleted there only unlinks two entities, which may both still exist, but either
change reads as the deletion of a root. What becomes of a document of such a root is said here
exactly.

The ids of a key agree, whether they come from rows of an event log, from back-references or from
records, and in whatever encodings. So what concerns one key is known to concern one entity.
-/

namespace SearchSync

/-- A row of an event log: the code of its kind, and its columns. -/
abbrev LogRow := Int × List (String × Json)

namespace EventModel

def changesOfRows (m : EventModel) : List LogRow → Except ModelError (List Change)
  | [] => .ok []
  | row :: rest => do
    let first ← m.changes row.1 row.2
    let others ← m.changesOfRows rest
    return first ++ others

/-- The row's kind, if one of its changes is of the entity under the key. -/
def kindFor? (m : EventModel) (key : DocumentKey) (row : LogRow) : Option ChangeKind :=
  match m.changes row.1 row.2 with
  | .ok changes =>
    if changes.any (·.key = key) then (ChangeKind.ofCode row.1).toOption else none
  | .error _ => none

/-- The kind of the last row that stands for a change of the entity under the key. -/
def lastRowKind? (m : EventModel) (key : DocumentKey) (rows : List LogRow) : Option ChangeKind :=
  rows.reverse.findSome? (m.kindFor? key)

variable {m : EventModel} {key : DocumentKey}

theorem lastKind?_of_row {row : LogRow} {changes : List Change}
    (h : m.changes row.1 row.2 = .ok changes) :
    lastKind? key changes = m.kindFor? key row := by
  obtain ⟨kind, hcode, hchanges⟩ := mem_changes h
  have hkind : ∀ c ∈ changes, c.kind = kind := fun c hc => (hchanges c hc).1
  simp only [kindFor?, h, hcode]
  unfold lastKind?
  cases hfind : changes.reverse.find? (·.key = key) with
  | some c =>
    have hc := List.mem_reverse.mp (List.mem_of_find?_eq_some hfind)
    have hkey := List.find?_some hfind
    have hany : changes.any (·.key = key) = true := List.any_eq_true.mpr ⟨c, hc, hkey⟩
    rw [hany, Option.map_some, hkind c hc]
    rfl
  | none =>
    have hany : changes.any (·.key = key) = false := by
      rw [List.any_eq_false]
      intro c hc
      exact List.find?_eq_none.mp hfind c (List.mem_reverse.mpr hc)
    rw [hany]
    rfl

theorem lastKind?_of_rows (key : DocumentKey) {rows : List LogRow} {changes : List Change}
    (h : m.changesOfRows rows = .ok changes) :
    lastKind? key changes = m.lastRowKind? key rows := by
  induction rows generalizing changes with
  | nil =>
    cases h
    rfl
  | cons row rest ih =>
    unfold changesOfRows at h
    cases hfirst : m.changes row.1 row.2 with
    | error e =>
      rw [hfirst] at h
      cases h
    | ok first =>
      cases hothers : m.changesOfRows rest with
      | error e =>
        rw [hfirst, hothers] at h
        cases h
      | ok others =>
        rw [hfirst, hothers] at h
        cases h
        have happend : lastKind? key (first ++ others) =
            (lastKind? key others).or (lastKind? key first) := by
          unfold lastKind?
          rw [List.reverse_append, List.find?_append, Option.map_or]
        have hrows : m.lastRowKind? key (row :: rest) =
            (m.lastRowKind? key rest).or (m.kindFor? key row) := by
          unfold lastRowKind?
          rw [List.reverse_cons, List.findSome?_append, List.findSome?_singleton]
        rw [happend, hrows, ih hothers, lastKind?_of_row hfirst]

end EventModel

section Deletion

variable {schema : Schema} {entities : Snapshot} {key : DocumentKey}

variable {τ : Type}

/-- A root of which the store has a record loses its document when the last of its changes deletes
it and no change from there on is resolved to it. -/
theorem lookup_apply_of_deleted (h : schema.WellFormed) {find : Lookup} {tx : τ}
    {changes : List Change} {docs : Documents} (hkey : key.1 ∈ schema.rootTypes)
    (hdelete : lastKind? key changes = some .delete)
    (hok : ∃ counts,
      ((Updater.ofSnapshot schema entities find).apply tx changes docs).1 = .ok counts) :
    ((Updater.ofSnapshot schema entities find).apply tx changes docs).2.world.lookup key = none ∨
      ∃ earlier c later, changes = earlier ++ c :: later ∧ (∀ d ∈ later, d.key ≠ key) ∧
        (Updater.ofSnapshot schema entities find).ResolvesTo tx docs earlier c key := by
  have hfree := (apply_ok_iff schema entities find tx changes docs).mp hok
  obtain ⟨counts, hcounts⟩ := hok
  unfold lastKind? at hdelete
  rw [← h.lastOwn?_effects hkey] at hdelete
  obtain ⟨c, hlast, hkind⟩ := Option.map_eq_some_iff.mp hdelete
  obtain ⟨xs, ys, hsplit, rfl, hnone⟩ := split_of_lastOwn? hlast
  have hparts := hfree
  rw [hsplit, List.forall_mem_append, List.forall_mem_cons] at hparts
  obtain ⟨hbefore, hown, hafter⟩ := hparts
  have hgone (d : Documents) : ((Effect.own c).apply entities find d).lookup c.key = none := by
    rw [Effect.lookup_apply_own, if_pos rfl]
    exact if_pos hkind
  rcases lookup_replay_of_unowned find
    ((Effect.own c).apply entities find (replay entities find xs docs).2) hafter hnone with
    hsame | ⟨zs, c', e, ws, rfl, hroot, hid⟩
  · left
    rw [apply_world, hsplit, replay_append_free hbefore, replay_cons hown, hsame, hgone]
  · right
    have hwhole : schema.effects changes = (xs ++ .own c :: zs) ++ .owners c' e :: ws := by
      rw [hsplit, List.append_assoc, List.cons_append]
    obtain ⟨earlier, later, rfl, ⟨he, hembeds⟩, hmoment, hlater⟩ := h.effects_split hwhole
    refine ⟨earlier, c', later, rfl, ?_, ?_⟩
    · apply (h.lastOwn?_effects_eq_none hkey).mp
      rw [← hlater, lastOwn?_eq_none_iff]
      intro d hd
      exact lastOwn?_eq_none_iff.mp hnone d
        (List.mem_append_right zs (List.mem_cons_of_mem (.owners c' e) hd))
    · refine (resolvesTo_iff h hcounts c.key).mpr ⟨e, hroot, he, hembeds, ?_⟩
      have hzs : ∀ eff ∈ zs, eff.obstacle? entities = none :=
        fun eff heff => hafter eff (List.mem_append_left _ heff)
      rw [← hmoment, replay_append_free hbefore, replay_cons hown]
      exact hid

/-- When the rows of a batch that goes through name a root that the store still has, its document
is the root's record if the last row that names it is not a deletion, or if a change that is not
followed by one of the root is resolved to it. Otherwise the root has no document. -/
theorem unlinking_keeps {roots : List RootType} (hschema : Schema.ofRoots roots = .ok schema)
    {m : EventModel} {rows : List LogRow} {changes : List Change}
    (hrows : m.changesOfRows rows = .ok changes) (entities : Snapshot) (find : Lookup) (tx : τ)
    (docs : Documents) {c : Change} (hc : c ∈ changes) (hroot : c.entityType ∈ schema.rootTypes)
    {r : Record} (hr : entities.find? c.key = some r) :
    let u := Updater.ofSnapshot schema entities find
    let final := (u.apply tx changes docs).2.world
    let kept := m.lastRowKind? c.key rows ≠ some .delete ∨
      ∃ earlier c' later, changes = earlier ++ c' :: later ∧ (∀ d ∈ later, d.key ≠ c.key) ∧
        u.ResolvesTo tx docs earlier c' c.key
    (∃ counts, (u.apply tx changes docs).1 = .ok counts) →
      (kept → final.lookup c.key = some r) ∧ (¬kept → final.lookup c.key = none) := by
  intro u final kept hok
  have h := (Schema.wellFormed_of_ofRoots hschema).2
  have hfree := (apply_ok_iff schema entities find tx changes docs).mp hok
  have hfinal : final = (replay entities find (schema.effects changes) docs).2 :=
    apply_world schema entities find tx changes docs
  have hkind := EventModel.lastKind?_of_rows c.key hrows
  constructor
  · rintro (hlast | ⟨earlier, c', later, rfl, hlater, hresolves⟩)
    · rw [hfinal, ← hr]
      apply lookup_replay_of_last hfree
      · exact fun _ => remains_of_lastOwn h hroot (Or.inl (hkind ▸ hlast))
      · exact fun hnone => absurd rfl ((h.lastOwn?_effects_eq_none hroot).mp hnone c hc)
    · obtain ⟨counts, hcounts⟩ := hok
      obtain ⟨e, hkey, he, hembeds, hid⟩ := (resolvesTo_iff h hcounts c.key).mp hresolves
      rw [hfinal]
      refine lookup_replay_of_resolved h hfree hkey he hembeds hid hr fun d hd => ?_
      rw [(h.lastOwn?_effects_eq_none hroot).mpr hlater] at hd
      cases hd
  · intro hkept
    obtain ⟨hdelete, hresolved⟩ := not_or.mp hkept
    have hdelete := hkind.trans (not_not.mp hdelete)
    exact (lookup_apply_of_deleted h hroot hdelete hok).resolve_right hresolved

end Deletion

namespace Sample

def residence : EventModel where
  table := "place_sorcerer"
  log := "place_sorcerer_log"
  kindColumn := EventModel.defaultKindColumn
  mappings := [.single place "placeId" "place_id" .int64,
    .single sorcerer "sorcererId" "sorcerer_id" .int64]

/-- A row by which the sorcerer moves into his tower or out of it. -/
def residenceRow (kind : ChangeKind) : LogRow :=
  (kind.code, [("placeId", .number (.integer 1)), ("sorcererId", .number (.integer 2))])

end Sample

/-- The sorcerer moves out of his tower and in again. -/
theorem unlinking_keeps_tower :
    ((Updater.ofSnapshot Sample.schema Sample.entities fun _ _ _ _ => []).apply ()
        [⟨Sample.place, .int 1, .delete⟩, ⟨Sample.sorcerer, .int 2, .delete⟩,
          ⟨Sample.place, .int 1, .insert⟩, ⟨Sample.sorcerer, .int 2, .insert⟩]
        ∅).2.world.lookup (Sample.place, .int 1) = some Sample.tower := by
  have hschema : Schema.ofRoots Sample.roots = .ok Sample.schema := by rfl
  have hrows : Sample.residence.changesOfRows
      [Sample.residenceRow .delete, Sample.residenceRow .insert] =
        .ok [⟨Sample.place, .int 1, .delete⟩, ⟨Sample.sorcerer, .int 2, .delete⟩,
          ⟨Sample.place, .int 1, .insert⟩, ⟨Sample.sorcerer, .int 2, .insert⟩] := by rfl
  have hlast : Sample.residence.lastRowKind? (Sample.place, .int 1)
      [Sample.residenceRow .delete, Sample.residenceRow .insert] ≠ some .delete := by
    decide +kernel
  refine (unlinking_keeps hschema hrows Sample.entities (fun _ _ _ _ => []) () ∅
    (c := ⟨Sample.place, .int 1, .insert⟩) ?_ ?_ ?_ ⟨⟨2, 0, 2⟩, ?_⟩).1 (Or.inl ?_)
  · decide
  · decide
  · rfl
  · decide +kernel
  · exact hlast

/-- A deleted row of the join table takes the documents of both its roots away, although the store
still has their records. -/
theorem unlinking_deletes_live_roots :
    let u := Updater.ofSnapshot Sample.schema Sample.entities fun _ _ _ _ => []
    let docs := ((∅ : Documents).insert Sample.tower.key Sample.tower).insert Sample.merlin.key
      Sample.merlin
    let changes : List Change :=
      [⟨Sample.place, .int 1, .delete⟩, ⟨Sample.sorcerer, .int 2, .delete⟩]
    let final := (u.apply () changes docs).2.world
    Schema.ofRoots Sample.roots = .ok Sample.schema ∧
      Sample.residence.checked = .ok Sample.residence ∧
      Sample.residence.changesOfRows [Sample.residenceRow .delete] = .ok changes ∧
      (u.apply () changes docs).1 = .ok ⟨0, 0, 2⟩ ∧
      (Sample.entities.find? Sample.tower.key = some Sample.tower ∧
        final.lookup Sample.tower.key = none) ∧
      Sample.entities.find? Sample.merlin.key = some Sample.merlin ∧
        final.lookup Sample.merlin.key = none := by
  refine ⟨rfl, rfl, rfl, ?_, ⟨rfl, ?_⟩, rfl, ?_⟩
  · rfl
  · rfl
  · rfl

open BatchAction
open EntityId (Encodes ofColumn?)

/-- The id is one of those that columns of the type hold. -/
def ColumnType.Has (type : ColumnType) : EntityId → Prop
  | .int w => w.toInt ∈ type.integers
  | .text _ => type = .text
  | .uuid _ => type = .uuid
  | .composite _ => False

/-- Wherever the value stands for an id of the type, it is read as the key: in a row, as a
back-reference and as the id of a record, which comes from a column of its own or from JSON. -/
structure StandsFor (type : ColumnType) (v : Json) (key : EntityId) : Prop where
  row (mapping : IdMapping) (log column : String) (row : List (String × Json))
    (value : row.lookup column = some v) (typed : mapping.columnTypes.get? column = some type) :
    mapping.readColumn log row column = .ok key
  reference (r : Record) (property idProperty : String)
    (form : Record.Expresses idProperty [v] (r.data.lookup property)) :
    r.referenceIds? property idProperty type = some [key]
  record (id : EntityId)
    (read : ofColumn? type v = some id ∨ EntityId.ofJson v = .ok id ∧ type.Has id) : id = key

/-- In an id column two rows hold the same key, each in an encoding of its own. -/
def IdMapping.SameKey (mapping : IdMapping) (row row' : List (String × Json))
    (column : String) : Prop :=
  ∃ type key v v', mapping.columnTypes.get? column = some type ∧
    row.lookup column = some v ∧ Encodes type key v ∧
    row'.lookup column = some v' ∧ Encodes type key v'

section Readings

variable {type : ColumnType} {key id : EntityId} {v : Json} {s : String}

theorem EntityId.ofJson_ok_iff : EntityId.ofJson v = .ok id ↔ ofJson? v = some id := by
  rw [EntityId.ofJson]
  cases ofJson? v <;> simp

theorem EntityId.ofJson?_string (h : ofJson? (.string s) = some id) :
    id = .text s ∨ ∃ u, id = .uuid u := by
  rw [ofJson?] at h
  obtain rfl := Option.some.inj h
  cases Uuid.read? s with
  | none => exact .inl rfl
  | some u => exact .inr ⟨u, rfl⟩

namespace EntityId.Encodes

theorem isScalar (h : Encodes type key v) : v.IsScalar := by
  cases h with
  | number | numberText => exact .number _
  | numeral | text | uuid => exact .string _

/-- The JSON form of ids has no other id of the type for the value. -/
theorem eq_of_ofJson (h : Encodes type key v) (hid : EntityId.ofJson v = .ok id)
    (hhas : type.Has id) : id = key := by
  have hread := ofJson_ok_iff.mp hid
  cases h with
  | @number w hrange =>
    rw [Json.ofInt, ofJson?, Bounded.int64?_toInt] at hread
    exact (Option.some.inj hread).symm
  | numeral hrange hnumeral =>
    -- A string is read as a text or a UUID, and a column of integers has neither.
    rcases ofJson?_string hread with rfl | ⟨u, rfl⟩
    · obtain rfl : type = .text := hhas
      exact absurd hrange (Set.notMem_empty _)
    · obtain rfl : type = .uuid := hhas
      exact absurd hrange (Set.notMem_empty _)
  | text htype =>
    rcases ofJson?_string hread with rfl | ⟨u, rfl⟩
    · rfl
    · cases htype.symm.trans hhas
  | @numberText n htype =>
    subst htype
    cases n with
    | integer n =>
      obtain ⟨w, rfl, rfl⟩ := map_int64?_eq_some_iff.mp hread
      exact absurd hhas (Set.notMem_empty _)
    | double => cases hread
  | uuid htype hspelling =>
    rw [ofJson?, Uuid.read?_eq_some_iff.mpr hspelling] at hread
    exact (Option.some.inj hread).symm

theorem standsFor (h : Encodes type key v) : StandsFor type v key where
  row mapping log column row value typed := by
    have hread := ofColumn?_eq_some_iff.mpr h
    exact IdMapping.readColumn_ok_iff.mpr ⟨v, type, value, typed, hread⟩
  reference r property idProperty form := by
    have hids := Record.referenceIds?_eq form (List.forall_mem_singleton.mpr h.isScalar) type
    rw [hids, mapM_some_iff]
    exact .cons (ofColumn?_eq_some_iff.mpr h) .nil
  record id read := by
    rcases read with hread | ⟨hread, hhas⟩
    · exact Option.some.inj (hread.symm.trans (ofColumn?_eq_some_iff.mpr h))
    · exact h.eq_of_ofJson hread hhas

end EntityId.Encodes

theorem IdMapping.readColumn_of_sameKey {mapping : IdMapping} {row row' : List (String × Json)}
    {column : String} (h : mapping.SameKey row row' column) (log : String) :
    mapping.readColumn log row' column = mapping.readColumn log row column := by
  obtain ⟨type, key, v, v', htype, hv, hencodes, hv', hencodes'⟩ := h
  rw [hencodes.standsFor.row mapping log column row hv htype,
    hencodes'.standsFor.row mapping log column row' hv' htype]

end Readings

section References

variable {type : ColumnType} {key : EntityId} {vs : List Json} {r : Record}
  {property idProperty : String}

theorem referenceIds?_of_encodes (hvs : ∀ v ∈ vs, Encodes type key v)
    (hform : Record.Expresses idProperty vs (r.data.lookup property)) :
    r.referenceIds? property idProperty type = some (List.replicate vs.length key) := by
  have hids := Record.referenceIds?_eq hform (fun v hv => (hvs v hv).isScalar) type
  rw [hids, mapM_some_iff, ← List.map_const', List.forall₂_map_right_iff, List.forall₂_same]
  exact fun v hv => EntityId.ofColumn?_eq_some_iff.mpr (hvs v hv)

theorem firsts_replicate (n : Nat) : Updater.firsts (List.replicate (n + 1) key) = [key] := by
  induction n with
  | zero => rfl
  | succ n ih =>
    rw [List.replicate_succ, Updater.firsts, ih]
    simp

end References

/-- A column of integers takes a string exactly if it is a numeral of an integer of the type between
white space, and reads it as the number that it denotes. The text that an id is shown as is read as
the id again. So a key has one id in whatever encoding it is stored: in a row, as a back-reference
and as the id of a record. Rows that differ only in encodings stand for the same changes, and
references to one key refer to one document, which is not written again in a batch. -/
theorem one_key_one_id :
    (∀ type ∈ [ColumnType.int32, .int64], ∀ s,
      ((∃ id, ofColumn? type (.string s) = some id) ↔ ∃ n ∈ type.integers, HoldsNumeral n s) ∧
      ∀ n ∈ type.integers, HoldsNumeral n s → ∃ w : Int64, w.toInt = n ∧
        ofColumn? type (.string s) = some (.int w) ∧
        ofColumn? type (Json.ofInt n) = some (.int w)) ∧
    ((∀ w : Int64, ofColumn? .int64 (.string (EntityId.int w).display) = some (.int w)) ∧
      (∀ u : Uuid, ofColumn? .uuid (.string (EntityId.uuid u).display) = some (.uuid u)) ∧
      ∀ s, ofColumn? .text (.string (EntityId.text s).display) = some (.text s)) ∧
    (∀ type key v, ofColumn? type v = some key ↔ Encodes type key v) ∧
    (∀ type key v, Encodes type key v → StandsFor type v key) ∧
    (∀ (m : EventModel) row row', (∀ mapping ∈ m.mappings, ∀ column ∈ mapping.logColumns,
      mapping.SameKey row row' column) → ∀ code, m.changes code row' = m.changes code row) ∧
    ∀ type key vs, vs ≠ [] → (∀ v ∈ vs, Encodes type key v) →
      ∀ (r : Record) property idProperty, Record.Expresses idProperty vs (r.data.lookup property) →
      ∃ ids, r.referenceIds? property idProperty type = some ids ∧ Updater.firsts ids = [key] ∧
        ∀ {τ σ : Type} (u : Updater τ σ) (tx : τ) (e : Embedding) (b : Batch σ),
          b.hasWritten e.root key = true → (u.updateOwners tx e ids).run b = (.ok (), b) := by
  refine ⟨fun type htype s => ⟨⟨?_, ?_⟩, ?_⟩, ⟨?_, ?_, ?_⟩, ?_, ?_, ?_, ?_⟩
  · rintro ⟨id, hid⟩
    cases EntityId.ofColumn?_eq_some_iff.mp hid with
    | numeral hrange hnumeral => exact ⟨_, hrange, hnumeral⟩
    | text h | uuid h =>
      subst h
      exact absurd htype (by decide)
  · rintro ⟨n, hn, hnumeral⟩
    obtain ⟨w, rfl⟩ := EntityId.exists_toInt_eq hn
    exact ⟨_, EntityId.ofColumn?_eq_some_iff.mpr (.numeral hn hnumeral)⟩
  · intro n hn hnumeral
    obtain ⟨w, rfl⟩ := EntityId.exists_toInt_eq hn
    refine ⟨w, rfl, ?_, ?_⟩
    · exact EntityId.ofColumn?_eq_some_iff.mpr (.numeral hn hnumeral)
    · exact EntityId.ofColumn?_eq_some_iff.mpr (.number hn)
  · exact fun w => EntityId.ofColumn?_eq_some_iff.mpr (EntityId.encodes_display_int w)
  · exact fun u => EntityId.ofColumn?_eq_some_iff.mpr (EntityId.encodes_display_uuid u)
  · exact fun s => rfl
  · exact fun type key v => EntityId.ofColumn?_eq_some_iff
  · exact fun type key v h => h.standsFor
  · intro m row row' h code
    refine EventModel.changes_congr (fun mapping hmapping column hcolumn => ?_) code
    exact IdMapping.readColumn_of_sameKey (h mapping hmapping column hcolumn) m.log
  · intro type key vs hne hvs r property idProperty hform
    refine ⟨_, referenceIds?_of_encodes hvs hform, ?_, ?_⟩
    · obtain ⟨v, vs, rfl⟩ := List.exists_cons_of_ne_nil hne
      exact firsts_replicate vs.length
    · intro τ σ u tx e b hwritten
      refine Updater.updateOwners_of_written u tx fun id hid => ?_
      rw [List.eq_of_mem_replicate hid, hwritten]

namespace Sample

def relisted : Record where
  entityType := ⟨"Sorcerer"⟩
  id := .int 5
  data := [("guilds", .array [.number (.integer 3), .string " +03"])]

end Sample

theorem one_key_one_id_guild :
    HoldsNumeral 3 " +03" ∧
      Sample.guilds.readColumn "guild_log" [("number", .string " +03")] "number" = .ok (.int 3) ∧
      ∃ ids, Sample.relisted.referenceIds? "guilds" "code" .int32 = some ids ∧
        Updater.firsts ids = [.int 3] := by
  have hrange : (3 : Int64).toInt ∈ ColumnType.int32.integers := ⟨by decide, by decide⟩
  have hdigits : Decimal.DigitsOf 3 ['0', '3'] := ⟨nofun, by simp, by simp [Nat.ofDigits]⟩
  have hnumeral : HoldsNumeral (3 : Int64).toInt " +03" := by
    have hvalue : (3 : Int64).toInt = (3 : Nat) := by decide
    rw [hvalue]
    exact ⟨[' '], _, [], .plus hdigits, by simp [Text.isBlank], rfl⟩
  have hencodes : ∀ v ∈ [Json.ofInt (3 : Int64).toInt, .string " +03"],
      Encodes .int32 (.int 3) v := by
    rw [List.forall_mem_cons, List.forall_mem_singleton]
    exact ⟨.number hrange, .numeral hrange hnumeral⟩
  have hform : Record.Expresses "code" [Json.ofInt (3 : Int64).toInt, .string " +03"]
      (Sample.relisted.data.lookup "guilds") := .array (.cons .bare (.cons .bare .nil))
  obtain ⟨-, -, -, hstands, -, hreferences⟩ := one_key_one_id
  refine ⟨hnumeral, ?_, ?_⟩
  · exact (hstands .int32 _ _ (.numeral hrange hnumeral)).row _ _ _ _ rfl rfl
  · obtain ⟨ids, hids, hfirsts, -⟩ :=
      hreferences .int32 _ _ (List.cons_ne_nil _ _) hencodes _ _ _ hform
    exact ⟨ids, hids, hfirsts⟩

end SearchSync
