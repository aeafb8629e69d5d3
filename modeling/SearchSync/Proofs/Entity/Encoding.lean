import Mathlib.Data.List.Basic
import Mathlib.Data.List.Forall2
import Mathlib.Data.Set.Basic
import SearchSync.Config.Json
import SearchSync.Entity.Basic
import SearchSync.Proofs.Entity.Spelling
import SearchSync.Proofs.Text.Pieces

/-!
# Ids in columns, in JSON and in references

A key may be stored as a number or as text, and be referred to by its value or by an object that
holds it. All of these forms are read as one id. Only the JSON form of ids does not tell a text from
a UUID that it spells.
-/

namespace SearchSync

def ColumnType.integers : ColumnType → Set Int
  | .int32 => {n | -2 ^ 31 ≤ n ∧ n < 2 ^ 31}
  | .int64 => {n | -2 ^ 63 ≤ n ∧ n < 2 ^ 63}
  | .text | .uuid => ∅

def HoldsNumeral (n : Int) (s : String) : Prop :=
  ∃ before numeral after, Decimal.Numeral n numeral ∧
    (∀ c ∈ before ++ after, Text.isBlank c) ∧ s.toList = before ++ numeral ++ after

namespace EntityId

/-- The value stands for the id in a column of the type. -/
inductive Encodes (type : ColumnType) : EntityId → Json → Prop
  | number {w : Int64} (hrange : w.toInt ∈ type.integers) :
      Encodes type (.int w) (Json.ofInt w.toInt)
  | numeral {w : Int64} {s : String} (hrange : w.toInt ∈ type.integers)
      (hnumeral : HoldsNumeral w.toInt s) : Encodes type (.int w) (.string s)
  | text {s : String} (htype : type = .text) : Encodes type (.text s) (.string s)
  | numberText {n : Json.Number} (htype : type = .text) : Encodes type (.text n.text) (.number n)
  | uuid {u : Uuid} {s : String} (htype : type = .uuid) (hspelling : u.Spelling s.toList) :
      Encodes type (.uuid u) (.string s)

variable {type : ColumnType} {value : Json} {id : EntityId} {n : Int} {w : Int64} {s : String}

theorem integerOf?_string_eq_some_iff : integerOf? (.string s) = some n ↔ HoldsNumeral n s := by
  rw [integerOf?, Decimal.signedValue?_eq_some_iff]
  constructor
  · intro h
    obtain ⟨before, after, hblank, hs⟩ := (Text.trim_eq_iff h.isBlank_eq_false h.nonempty).mp rfl
    exact ⟨before, _, after, h, hblank, hs⟩
  · rintro ⟨before, numeral, after, h, hblank, hs⟩
    have htrim := (Text.trim_eq_iff h.isBlank_eq_false h.nonempty).mpr ⟨before, after, hblank, hs⟩
    rwa [htrim]

theorem integerOf?_eq_some_iff : integerOf? value = some n ↔
    value = Json.ofInt n ∨ ∃ s, value = .string s ∧ HoldsNumeral n s := by
  cases value with
  | string s => simp [integerOf?_string_eq_some_iff, Json.ofInt]
  | number m => cases m <;> simp [integerOf?, Json.ofInt]
  | _ => simp [integerOf?, Json.ofInt]

theorem fitsInt32_iff : Bounded.fitsInt32 n ↔ n ∈ ColumnType.int32.integers := by
  have hmin : Int32.minValue.toInt = -2 ^ 31 := rfl
  have hmax : Int32.maxValue.toInt = 2 ^ 31 - 1 := rfl
  rw [Bounded.fitsInt32, decide_eq_true_eq, ColumnType.integers, Set.mem_ofPred_eq, hmin, hmax]
  omega

theorem map_int64?_eq_some_iff :
    (Bounded.int64? n).map .int = some id ↔ ∃ w : Int64, w.toInt = n ∧ id = .int w := by
  rw [Option.map_eq_some_iff]
  constructor
  · rintro ⟨w, hw, rfl⟩
    exact ⟨w, Bounded.toInt_of_int64? hw, rfl⟩
  · rintro ⟨w, rfl, rfl⟩
    exact ⟨w, Bounded.int64?_toInt w, rfl⟩

theorem ofColumn?_int32_eq_some_iff : ofColumn? .int32 value = some id ↔
    ∃ w : Int64, w.toInt ∈ ColumnType.int32.integers ∧ integerOf? value = some w.toInt ∧
      id = .int w := by
  simp only [ofColumn?, Option.bind_eq_some_iff, Option.ite_none_right_eq_some,
    map_int64?_eq_some_iff, fitsInt32_iff]
  constructor
  · rintro ⟨_, hvalue, hrange, w, rfl, rfl⟩
    exact ⟨w, hrange, hvalue, rfl⟩
  · rintro ⟨w, hrange, hvalue, rfl⟩
    exact ⟨_, hvalue, hrange, w, rfl, rfl⟩

theorem ofColumn?_int64_eq_some_iff : ofColumn? .int64 value = some id ↔
    ∃ w : Int64, integerOf? value = some w.toInt ∧ id = .int w := by
  simp only [ofColumn?, Option.bind_eq_some_iff, map_int64?_eq_some_iff]
  constructor
  · rintro ⟨_, hvalue, w, rfl, rfl⟩
    exact ⟨w, hvalue, rfl⟩
  · rintro ⟨w, hvalue, rfl⟩
    exact ⟨_, hvalue, w, rfl, rfl⟩

theorem ofColumn?_eq_some_iff : ofColumn? type value = some id ↔ Encodes type id value := by
  constructor
  · intro h
    have hencodes {w : Int64} (hrange : w.toInt ∈ type.integers)
        (hvalue : integerOf? value = some w.toInt) : Encodes type (.int w) value := by
      rcases integerOf?_eq_some_iff.mp hvalue with rfl | ⟨s, rfl, hnumeral⟩
      · exact .number hrange
      · exact .numeral hrange hnumeral
    cases type with
    | int32 =>
      obtain ⟨w, hrange, hvalue, rfl⟩ := ofColumn?_int32_eq_some_iff.mp h
      exact hencodes hrange hvalue
    | int64 =>
      obtain ⟨w, hvalue, rfl⟩ := ofColumn?_int64_eq_some_iff.mp h
      exact hencodes ⟨w.le_toInt, w.toInt_lt⟩ hvalue
    | text =>
      cases value with
      | string s =>
        obtain rfl := Option.some.inj h
        exact .text rfl
      | number n =>
        obtain rfl := Option.some.inj h
        exact .numberText rfl
      | _ => cases h
    | uuid =>
      cases value with
      | string s =>
        obtain ⟨u, hu, rfl⟩ := Option.map_eq_some_iff.mp h
        exact .uuid rfl (Uuid.read?_eq_some_iff.mp hu)
      | _ => cases h
  · intro h
    have hread {w : Int64} (hrange : w.toInt ∈ type.integers)
        (hvalue : integerOf? value = some w.toInt) : ofColumn? type value = some (.int w) := by
      cases type with
      | int32 => exact ofColumn?_int32_eq_some_iff.mpr ⟨w, hrange, hvalue, rfl⟩
      | int64 => exact ofColumn?_int64_eq_some_iff.mpr ⟨w, hvalue, rfl⟩
      | text | uuid => exact absurd hrange (Set.notMem_empty _)
    cases h with
    | number hrange => exact hread hrange rfl
    | numeral hrange hnumeral => exact hread hrange (integerOf?_string_eq_some_iff.mpr hnumeral)
    | text htype =>
      rw [htype]
      rfl
    | numberText htype =>
      rw [htype]
      rfl
    | uuid htype hspelling =>
      rw [htype, ofColumn?, Uuid.read?_eq_some_iff.mpr hspelling]
      rfl

theorem exists_toInt_eq (h : n ∈ type.integers) : ∃ w : Int64, w.toInt = n := by
  have hrange : -2 ^ 63 ≤ n ∧ n < 2 ^ 63 := by
    cases type with
    | int32 =>
      obtain ⟨hlower, hupper⟩ := h
      omega
    | int64 => exact h
    | text | uuid => exact absurd h (Set.notMem_empty n)
  exact ⟨Int64.ofInt n, Int64.toInt_ofInt_of_le hrange.1 hrange.2⟩

theorem encodes_display_int (w : Int64) :
    Encodes .int64 (.int w) (.string (EntityId.int w).display) := by
  have hnumeral := Decimal.numeral_intText w.toInt
  exact .numeral ⟨w.le_toInt, w.toInt_lt⟩ ⟨[], _, [], hnumeral, nofun, (List.append_nil _).symm⟩

theorem encodes_display_uuid (u : Uuid) :
    Encodes .uuid (.uuid u) (.string (EntityId.uuid u).display) :=
  .uuid rfl (Uuid.read?_eq_some_iff.mp u.read?_text)

end EntityId

theorem ColumnType.ofJson_name (t : ColumnType) : ofJson (.string t.name) = .ok t := by
  cases t <;> rfl

namespace EntityId

@[elab_as_elim]
theorem parts_induction {motive : EntityId → Prop} (int : ∀ n, motive (.int n))
    (uuid : ∀ u, motive (.uuid u)) (text : ∀ s, motive (.text s))
    (composite : ∀ parts, (∀ p ∈ parts, motive p) → motive (.composite parts)) :
    ∀ id, motive id := by
  refine @EntityId.rec motive (fun parts => ∀ p ∈ parts, motive p) int uuid text composite ?_ ?_
  · intro p hp
    exact absurd hp List.not_mem_nil
  · intro p ps hp hps
    exact List.forall_mem_cons.mpr ⟨hp, hps⟩

mutual

/-- The id with a UUID in place of every text that spells one. -/
def asRead : EntityId → EntityId
  | .int n => .int n
  | .uuid u => .uuid u
  | .text s => ((Uuid.read? s).map .uuid).getD (.text s)
  | .composite parts => .composite (partsAsRead parts)

def partsAsRead : List EntityId → List EntityId
  | [] => []
  | p :: ps => p.asRead :: partsAsRead ps

end

mutual

def texts : EntityId → List String
  | .int _ | .uuid _ => []
  | .text s => [s]
  | .composite parts => partsTexts parts

def partsTexts : List EntityId → List String
  | [] => []
  | p :: ps => p.texts ++ partsTexts ps

end

section Parts

variable (parts : List EntityId)

theorem partsToJson_eq : partsToJson parts = parts.map toJson := by
  induction parts with
  | nil => rfl
  | cons p ps ih => rw [partsToJson, ih, List.map_cons]

theorem partsAsRead_eq : partsAsRead parts = parts.map asRead := by
  induction parts with
  | nil => rfl
  | cons p ps ih => rw [partsAsRead, ih, List.map_cons]

theorem partsTexts_eq : partsTexts parts = parts.flatMap texts := by
  induction parts with
  | nil => rfl
  | cons p ps ih => rw [partsTexts, ih, List.flatMap_cons]

theorem partsOfJson?_map (h : ∀ p ∈ parts, ofJson? p.toJson = some p.asRead) :
    partsOfJson? (parts.map toJson) = some (parts.map asRead) := by
  induction parts with
  | nil => rfl
  | cons p ps ih =>
    rw [List.forall_mem_cons] at h
    rw [List.map_cons, partsOfJson?, h.1, ih h.2]
    rfl

end Parts

theorem ofJson?_toJson (id : EntityId) : ofJson? id.toJson = some id.asRead := by
  induction id using parts_induction with
  | int n => rw [toJson, Json.ofInt, ofJson?, Bounded.int64?_toInt]; rfl
  | uuid u => rw [toJson, ofJson?, Uuid.read?_text]; rfl
  | text s => rfl
  | composite parts ih =>
    rw [toJson, ofJson?, partsToJson_eq, partsOfJson?_map parts ih, asRead, partsAsRead_eq]
    rfl

theorem ofJson_toJson (id : EntityId) : ofJson id.toJson = .ok id.asRead := by
  rw [ofJson, ofJson?_toJson]

theorem asRead_text_eq_uuid_iff {s : String} {u : Uuid} :
    (text s).asRead = .uuid u ↔ u.Spelling s.toList := by
  rw [← Uuid.read?_eq_some_iff, asRead]
  cases hread : Uuid.read? s <;> simp

theorem asRead_eq_iff (id : EntityId) : id.asRead = id ↔ ∀ s ∈ id.texts, ¬Uuid.IsSpelling s := by
  induction id using parts_induction with
  | int n => simp [asRead, texts]
  | uuid u => simp [asRead, texts]
  | text s =>
    simp only [texts, List.mem_singleton, forall_eq, ← Uuid.read?_eq_none_iff, asRead]
    cases hread : Uuid.read? s <;> simp
  | composite parts ih =>
    have hparts : parts.map asRead = parts ↔ ∀ p ∈ parts, p.asRead = p := by
      simpa using List.map_inj_left (l := parts) (f := asRead) (g := fun p => p)
    rw [asRead, texts, partsAsRead_eq, partsTexts_eq, EntityId.composite.injEq, hparts]
    constructor
    · intro hsame s hs
      obtain ⟨p, hp, hs⟩ := List.mem_flatMap.mp hs
      exact (ih p hp).mp (hsame p hp) s hs
    · intro hnone p hp
      exact (ih p hp).mpr fun s hs => hnone s (List.mem_flatMap.mpr ⟨p, hp, hs⟩)

/-- The texts that spell UUIDs are no longer there once the id is read back. -/
theorem texts_asRead (id : EntityId) :
    id.asRead.texts = id.texts.filter fun s => (Uuid.read? s).isNone := by
  induction id using parts_induction with
  | int n => rfl
  | uuid u => rfl
  | text s => cases hread : Uuid.read? s <;> simp [asRead, texts, hread]
  | composite parts ih =>
    rw [asRead, texts, texts, partsAsRead_eq, partsTexts_eq, partsTexts_eq, List.flatMap_map,
      List.filter_flatMap]
    exact List.flatMap_congr ih

theorem mem_texts_asRead {s : String} (id : EntityId) :
    s ∈ id.asRead.texts ↔ s ∈ id.texts ∧ ¬Uuid.IsSpelling s := by
  rw [texts_asRead, List.mem_filter, Option.isNone_iff_eq_none, Uuid.read?_eq_none_iff]

theorem asRead_asRead (id : EntityId) : id.asRead.asRead = id.asRead := by
  rw [asRead_eq_iff]
  intro s hs
  exact (id.mem_texts_asRead.mp hs).2

end EntityId

namespace Record

theorem toJson_eq (r : Record) : r.toJson = .object [("data", .object r.data),
    ("entity_type", .string r.entityType.name), ("id", r.id.toJson)] := by
  have hid : ¬"id" < "entity_type" := by decide
  have hdata : "data" < "entity_type" := by decide
  simp [toJson, Json.ofMembers, insertEntry, hid, hdata]

theorem ofJson_toJson (r : Record) : ofJson r.toJson = .ok { r with id := r.id.asRead } := by
  have hdata (d : Draft) : Draft.store "data" (.object r.data) d = .ok { d with data := r.data } :=
    rfl
  have htype (d : Draft) : Draft.store "entity_type" (.string r.entityType.name) d =
      .ok { d with entityType := some r.entityType } := rfl
  have hid (d : Draft) :
      Draft.store "id" r.id.toJson d = .ok { d with id := some r.id.asRead } := by
    change (EntityId.ofJson r.id.toJson).map _ = _
    rw [EntityId.ofJson_toJson]
    rfl
  have hread : shape.read Draft.store {} r.toJson =
      .ok (⟨some r.entityType, some r.id.asRead, r.data⟩, false) := by
    rw [toJson_eq]
    have hknown : ([("data", .object r.data), ("entity_type", .string r.entityType.name),
        ("id", r.id.toJson)] : List (String × Json)).filter (fun m => shape.fields.contains m.1) =
        [("data", .object r.data), ("entity_type", .string r.entityType.name),
          ("id", r.id.toJson)] := by simp [shape]
    simp only [Json.Shape.read, hknown, List.foldlM_cons, List.foldlM_nil, bind, Except.bind, pure,
      Except.pure, hdata, htype, hid]
  rw [ofJson, hread]
  rfl

end Record

/-- An id comes back from its JSON form, alone and in a record, as the same id unless a text in it
spells a UUID. Those texts come back as the UUIDs that they spell, once and for all. The form is a
JSON value: what becomes of numbers and of deep nesting when the value is written out as text and
parsed again is not told here. -/
theorem json_form_reads_back (type : EntityType) (id : EntityId) (data : List (String × Json)) :
    EntityId.ofJson id.toJson = .ok id.asRead ∧
      Record.ofJson (Record.toJson ⟨type, id, data⟩) = .ok ⟨type, id.asRead, data⟩ ∧
      (id.asRead = id ↔ ∀ s ∈ id.texts, ¬Uuid.IsSpelling s) ∧
      (∀ s, s ∈ id.asRead.texts ↔ s ∈ id.texts ∧ ¬Uuid.IsSpelling s) ∧
      (∀ s u, (EntityId.text s).asRead = .uuid u ↔ u.Spelling s.toList) ∧
      EntityId.ofJson id.asRead.toJson = .ok id.asRead := by
  refine ⟨id.ofJson_toJson, Record.ofJson_toJson _, id.asRead_eq_iff, fun _ => id.mem_texts_asRead,
    fun _ _ => EntityId.asRead_text_eq_uuid_iff, ?_⟩
  rw [EntityId.ofJson_toJson, EntityId.asRead_asRead]

/-- The digits of a UUID do not come back as a text. -/
theorem spelled_uuid_read_as_uuid :
    EntityId.ofJson (EntityId.text "67e5504410b1426f9247bb680e5fe0c8").toJson ≠
      .ok (.text "67e5504410b1426f9247bb680e5fe0c8") := by
  intro h
  rw [EntityId.ofJson_toJson, Except.ok.injEq, EntityId.asRead_eq_iff] at h
  have hspelled : Uuid.IsSpelling "67e5504410b1426f9247bb680e5fe0c8" := by decide
  exact h _ (List.mem_singleton_self _) hspelled

section Traversal

variable {α β : Type} {f : α → Option β} {as : List α}

theorem mapM_some_iff {bs : List β} :
    as.mapM f = some bs ↔ List.Forall₂ (fun a b => f a = some b) as bs := by
  induction as generalizing bs with
  | nil => cases bs <;> simp
  | cons a as ih =>
    rw [List.mapM_cons, List.forall₂_cons_left_iff]
    cases ha : f a with
    | none => simp
    | some b =>
      cases has : as.mapM f with
      | none => simp [← ih, has]
      | some rest => simp [← ih, has, eq_comm]

theorem mapM_none_iff : as.mapM f = none ↔ ∃ a ∈ as, f a = none := by
  induction as with
  | nil => simp
  | cons a as ih =>
    rw [List.mapM_cons, List.exists_mem_cons_iff, ← ih]
    cases f a with
    | none => simp
    | some b => cases as.mapM f <;> simp

end Traversal

inductive Json.IsScalar : Json → Prop
  | bool (value : Bool) : IsScalar (.bool value)
  | number (value : Json.Number) : IsScalar (.number value)
  | string (value : String) : IsScalar (.string value)

namespace Record

/-- A reference to the value is the value itself or an object that has it as its id. -/
inductive RefersTo (idProperty : String) (v : Json) : Json → Prop
  | bare : RefersTo idProperty v v
  | member {members : List (String × Json)} (hmember : members.lookup idProperty = some v) :
      RefersTo idProperty v (.object members)

/-- The items are references to the values, in their order, with nulls anywhere between them. -/
inductive Lists (idProperty : String) : List Json → List Json → Prop
  | nil : Lists idProperty [] []
  | null {vs items : List Json} (hrest : Lists idProperty vs items) :
      Lists idProperty vs (.null :: items)
  | cons {v item : Json} {vs items : List Json} (hitem : RefersTo idProperty v item)
      (hrest : Lists idProperty vs items) : Lists idProperty (v :: vs) (item :: items)

/-- What a property may hold that refers to the values. Of a single value the array may be left out,
and of no value the property. -/
inductive Expresses (idProperty : String) : List Json → Option Json → Prop
  | array {vs items : List Json} (hitems : Lists idProperty vs items) :
      Expresses idProperty vs (some (.array items))
  | single {v value : Json} (hvalue : RefersTo idProperty v value) :
      Expresses idProperty [v] (some value)
  | null : Expresses idProperty [] (some .null)
  | missing : Expresses idProperty [] none

variable {idProperty property : String} {v item : Json} {vs items : List Json} {r : Record}

theorem RefersTo.referenceId?_eq (h : RefersTo idProperty v item) (hscalar : v.IsScalar)
    (idType : ColumnType) :
    referenceId? idProperty idType item = EntityId.ofColumn? idType v := by
  cases h with
  | bare => cases hscalar <;> rfl
  | member hmember => rw [referenceId?, hmember, Option.bind_some]

theorem RefersTo.not_null (h : RefersTo idProperty v item) (hscalar : v.IsScalar) :
    item.isNull = false := by
  cases h with
  | bare => cases hscalar <;> rfl
  | member => rfl

theorem Lists.mapM_eq (h : Lists idProperty vs items) (hscalar : ∀ v ∈ vs, v.IsScalar)
    (idType : ColumnType) :
    (items.filter fun item => !item.isNull).mapM (referenceId? idProperty idType) =
      vs.mapM (EntityId.ofColumn? idType) := by
  induction h with
  | nil => rfl
  | null hrest ih => exact ih hscalar
  | cons hitem hrest ih =>
    obtain ⟨hv, hvs⟩ := List.forall_mem_cons.mp hscalar
    rw [List.filter_cons_of_pos (by rw [hitem.not_null hv]; rfl), List.mapM_cons, List.mapM_cons,
      hitem.referenceId?_eq hv, ih hvs]

theorem referenceIds?_of_single (h : RefersTo idProperty v item) (hscalar : v.IsScalar)
    (hitem : r.data.lookup property = some item) (idType : ColumnType) :
    r.referenceIds? property idProperty idType =
      (referenceId? idProperty idType item).map fun id => [id] := by
  rw [referenceIds?, hitem]
  cases h with
  | bare => cases hscalar <;> rfl
  | member => rfl

theorem referenceIds?_eq (h : Expresses idProperty vs (r.data.lookup property))
    (hscalar : ∀ v ∈ vs, v.IsScalar) (idType : ColumnType) :
    r.referenceIds? property idProperty idType = vs.mapM (EntityId.ofColumn? idType) := by
  generalize hvalue : r.data.lookup property = value at h
  cases h with
  | array hitems =>
    rw [referenceIds?, hvalue]
    exact hitems.mapM_eq hscalar idType
  | @single v item hitem =>
    have hv := List.forall_mem_singleton.mp hscalar
    rw [referenceIds?_of_single hitem hv hvalue, hitem.referenceId?_eq hv, List.mapM_cons,
      List.mapM_nil]
    cases EntityId.ofColumn? idType v <;> rfl
  | null =>
    rw [referenceIds?, hvalue]
    rfl
  | missing =>
    rw [referenceIds?, hvalue]
    rfl

end Record

/-- In whatever form a property refers to values, its ids are those that the values are read as, in
order and one for each of them. If one of the values cannot be read, there are none at all. So the
ids are the same in any form. -/
theorem reference_form_irrelevant {idProperty property : String} {vs : List Json}
    (hscalar : ∀ v ∈ vs, v.IsScalar) {r : Record}
    (h : Record.Expresses idProperty vs (r.data.lookup property)) (idType : ColumnType) :
    (∀ ids, r.referenceIds? property idProperty idType = some ids ↔
      List.Forall₂ (fun v id => EntityId.ofColumn? idType v = some id) vs ids) ∧
    (r.referenceIds? property idProperty idType = none ↔
      ∃ v ∈ vs, EntityId.ofColumn? idType v = none) ∧
    ∀ r' : Record, Record.Expresses idProperty vs (r'.data.lookup property) →
      r'.referenceIds? property idProperty idType =
        r.referenceIds? property idProperty idType := by
  have hids := Record.referenceIds?_eq h hscalar idType
  refine ⟨fun ids => ?_, ?_, fun r' h' => ?_⟩
  · rw [hids, mapM_some_iff]
  · rw [hids, mapM_none_iff]
  · rw [hids, Record.referenceIds?_eq h' hscalar idType]

namespace Sample

def member : Record where
  entityType := ⟨"Sorcerer"⟩
  id := .int 2
  data := [("guilds", .array [.null, .object [("code", .number (.integer 3)), ("name", .null)],
    .string " 4", .null])]

def plainMember : Record where
  entityType := ⟨"Sorcerer"⟩
  id := .int 2
  data := [("guilds", .array [.number (.integer 3), .string " 4"])]

end Sample

theorem reference_form_irrelevant_guilds :
    Sample.member.referenceIds? "guilds" "code" .int32 = some [.int 3, .int 4] ∧
      Sample.member.referenceIds? "guilds" "code" .uuid = none ∧
      ∀ idType, Sample.plainMember.referenceIds? "guilds" "code" idType =
        Sample.member.referenceIds? "guilds" "code" idType := by
  have hscalar : ∀ v ∈ [.number (.integer 3), .string " 4"], Json.IsScalar v := by
    rw [List.forall_mem_cons, List.forall_mem_singleton]
    exact ⟨.number _, .string _⟩
  have hmember : Record.Expresses "code" [.number (.integer 3), .string " 4"]
      (Sample.member.data.lookup "guilds") :=
    .array (.null (.cons (.member rfl) (.cons .bare (.null .nil))))
  have hplain : Record.Expresses "code" [.number (.integer 3), .string " 4"]
      (Sample.plainMember.data.lookup "guilds") :=
    .array (.cons .bare (.cons .bare .nil))
  have hforms := reference_form_irrelevant hscalar hmember
  refine ⟨((hforms .int32).1 _).mpr ?_, (hforms .uuid).2.1.mpr ?_, fun idType => ?_⟩
  · exact .cons rfl (.cons rfl .nil)
  · exact ⟨_, List.mem_cons_self, rfl⟩
  · exact (hforms idType).2.2 _ hplain

end SearchSync
