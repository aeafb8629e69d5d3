import Mathlib.Logic.Relation
import SearchSync.Config.Json
import SearchSync.Proofs.Entity.Encoding
import SearchSync.Proofs.Json.Fields
import SearchSync.Proofs.Schema.WellFormed

/-!
# Declarations in JSON

Event models, root declarations and schemas come back from their JSON forms, checked as they are
when they are built. A default may be left out at any depth.
-/

namespace SearchSync

open Json (Decoded Shape ItemRelated map_eq_ok)

namespace ContainedType

theorem toJson_eq (c : ContainedType) : c.toJson = .object [
    ("back_reference", (c.backReference.map Json.string).getD .null),
    ("entity_type", .string c.entityType.name), ("id_fields", Json.ofStrings c.idFields)] := by
  have hfields : ¬"id_fields" < "entity_type" := by decide
  have hreference : "back_reference" < "entity_type" := by decide
  simp [toJson, Json.ofMembers, insertEntry, hfields, hreference]

theorem ofJson_toJson (c : ContainedType) : ofJson c.toJson = .ok c := by
  have hreference (d : Draft) : Draft.store "back_reference"
      ((c.backReference.map Json.string).getD .null) d =
        .ok { d with backReference := c.backReference } := by
    cases c.backReference <;> rfl
  have htype (d : Draft) : Draft.store "entity_type" (.string c.entityType.name) d =
      .ok { d with entityType := some c.entityType } := rfl
  have hfields (d : Draft) : Draft.store "id_fields" (Json.ofStrings c.idFields) d =
      .ok { d with idFields := c.idFields } :=
    congrArg (Except.map _) (Json.asList_ofStrings c.idFields)
  have hread : shape.read Draft.store {} c.toJson =
      .ok (⟨some c.entityType, c.idFields, c.backReference⟩, false) := by
    rw [toJson_eq, Shape.read_object]
    simp [shape, bind, Except.bind, pure, Except.pure, Except.map, hreference, htype, hfields]
  rw [ofJson, hread]
  rfl

def Draft.Unset (field : String) (d : Draft) : Prop :=
  match field with
  | "entity_type" => d.entityType = none
  | "id_fields" => d.idFields = []
  | _ => d.backReference = none

theorem Draft.fieldwise : shape.Fieldwise Draft.store {} Draft.Unset where
  start field hfield := by
    simp only [shape, List.mem_cons, List.not_mem_nil, or_false] at hfield
    rcases hfield with rfl | rfl | rfl <;> rfl
  keeps name hname field hfield hne j d d' hd h := by
    simp only [shape, List.mem_cons, List.not_mem_nil, or_false] at hname hfield
    rcases hname with rfl | rfl | rfl <;> obtain ⟨_, rfl⟩ := map_eq_ok h <;>
      rcases hfield with rfl | rfl | rfl <;> first | exact absurd rfl hne | exact hd

inductive Completes : Json → Json → Prop
  | idFields {j full : Json} (h : shape.Completes "id_fields" (.array []) j full) : Completes j full
  | backReference {j full : Json} (h : shape.Completes "back_reference" .null j full) :
      Completes j full

theorem Completes.ofJson_eq {j full : Json} (h : Completes j full) : ofJson full = ofJson j := by
  rw [ofJson, ofJson]
  cases h with
  | idFields h =>
    rw [h.read_eq Draft.fieldwise (by decide) fun d hd => ?_]
    exact congrArg (fun fs => Except.ok { d with idFields := fs }) (Eq.symm hd)
  | backReference h =>
    rw [h.read_eq Draft.fieldwise (by decide) fun d hd => ?_]
    exact congrArg (fun b => Except.ok { d with backReference := b }) (Eq.symm hd)

end ContainedType

namespace RootType

theorem toJson_eq (r : RootType) : r.toJson = .object [
    ("contained", .array (r.contained.map ContainedType.toJson)),
    ("entity_type", .string r.entityType.name), ("id_property", .string r.idProperty),
    ("id_type", .string r.idType.name)] := by
  have hproperty : ¬"id_property" < "entity_type" := by decide
  have htype : ¬"id_type" < "entity_type" := by decide
  have htype' : ¬"id_type" < "id_property" := by decide
  have hcontained : "contained" < "entity_type" := by decide
  simp [toJson, Json.ofMembers, insertEntry, hproperty, htype, htype', hcontained]

theorem ofJson_toJson (r : RootType) : ofJson r.toJson = .ok r := by
  have htypes : (Json.array (r.contained.map ContainedType.toJson)).asList ContainedType.ofJson =
      .ok r.contained := Json.asList_map fun c _ => c.ofJson_toJson
  have hcontained (d : Draft) : Draft.store "contained"
      (.array (r.contained.map ContainedType.toJson)) d =
        .ok { d with contained := r.contained } := congrArg (Except.map _) htypes
  have htype (d : Draft) : Draft.store "entity_type" (.string r.entityType.name) d =
      .ok { d with entityType := some r.entityType } := rfl
  have hproperty (d : Draft) : Draft.store "id_property" (.string r.idProperty) d =
      .ok { d with idProperty := r.idProperty } := rfl
  have hidType (d : Draft) : Draft.store "id_type" (.string r.idType.name) d =
      .ok { d with idType := r.idType } :=
    congrArg (Except.map _) (ColumnType.ofJson_name r.idType)
  have hread : shape.read Draft.store {} r.toJson =
      .ok (⟨some r.entityType, r.idProperty, r.idType, r.contained⟩, false) := by
    rw [toJson_eq, Shape.read_object]
    simp [shape, bind, Except.bind, pure, Except.pure, Except.map, hcontained, htype, hproperty,
      hidType]
  rw [ofJson, hread]
  rfl

def Draft.Unset (field : String) (d : Draft) : Prop :=
  match field with
  | "entity_type" => d.entityType = none
  | "id_property" => d.idProperty = defaultIdProperty
  | "id_type" => d.idType = defaultIdType
  | _ => d.contained = []

theorem Draft.fieldwise : shape.Fieldwise Draft.store {} Draft.Unset where
  start field hfield := by
    simp only [shape, List.mem_cons, List.not_mem_nil, or_false] at hfield
    rcases hfield with rfl | rfl | rfl | rfl <;> rfl
  keeps name hname field hfield hne j d d' hd h := by
    simp only [shape, List.mem_cons, List.not_mem_nil, or_false] at hname hfield
    rcases hname with rfl | rfl | rfl | rfl <;> obtain ⟨_, rfl⟩ := map_eq_ok h <;>
      rcases hfield with rfl | rfl | rfl | rfl <;> first | exact absurd rfl hne | exact hd

inductive Completes : Json → Json → Prop
  | idProperty {j full : Json}
      (h : shape.Completes "id_property" (.string defaultIdProperty) j full) : Completes j full
  | idType {j full : Json} (h : shape.Completes "id_type" (.string defaultIdType.name) j full) :
      Completes j full
  | contained {j full : Json} (h : shape.Completes "contained" (.array []) j full) :
      Completes j full
  | within {j full : Json}
      (h : shape.FieldRelated "contained" (ItemRelated ContainedType.Completes) j full) :
      Completes j full

theorem Completes.ofJson_eq {j full : Json} (h : Completes j full) : ofJson full = ofJson j := by
  rw [ofJson, ofJson]
  cases h with
  | idProperty h =>
    rw [h.read_eq Draft.fieldwise (by decide) fun d hd => ?_]
    exact congrArg (fun p => Except.ok { d with idProperty := p }) (Eq.symm hd)
  | idType h =>
    rw [h.read_eq Draft.fieldwise (by decide) fun d hd => ?_]
    exact congrArg (fun t => Except.ok { d with idType := t }) (Eq.symm hd)
  | contained h =>
    rw [h.read_eq Draft.fieldwise (by decide) fun d hd => ?_]
    exact congrArg (fun cs => Except.ok { d with contained := cs }) (Eq.symm hd)
  | within h =>
    rw [h.read_eq (by decide) fun hitems d => ?_]
    exact congrArg (Except.map _) (hitems.asList_eq ContainedType.Completes.ofJson_eq)

end RootType

namespace Schema

def Declares (j : Json) (roots : List RootType) : Prop :=
  ∃ byPosition, shape.read (fun _ value _ => value.asList RootType.ofJson) [] j =
    .ok (roots, byPosition)

theorem declares_toJson (roots : List RootType) : Declares (toJson ⟨roots⟩) roots := by
  refine ⟨false, ?_⟩
  have hroots : (Json.array (roots.map RootType.toJson)).asList RootType.ofJson = .ok roots :=
    Json.asList_map fun r _ => r.ofJson_toJson
  have hform : toJson ⟨roots⟩ = .object [("roots", .array (roots.map RootType.toJson))] := rfl
  rw [hform, Shape.read_object]
  simp [shape, Except.map, hroots]

theorem ofJson_of_declares {j : Json} {roots : List RootType} (h : Declares j roots) :
    ofJson j = (ofRoots roots).mapError fun e => .refused e.message := by
  obtain ⟨byPosition, hread⟩ := h
  rw [ofJson, hread]
  rfl

theorem ofJson_ok_iff {j : Json} {s : Schema} :
    ofJson j = .ok s ↔ Declares j s.roots ∧ s.WellFormed := by
  constructor
  · intro h
    cases hread : shape.read (fun _ value _ => value.asList RootType.ofJson) [] j with
    | error e =>
      rw [ofJson, hread] at h
      cases h
    | ok read =>
      obtain ⟨roots, byPosition⟩ := read
      have hdeclares : Declares j roots := ⟨byPosition, hread⟩
      rw [ofJson_of_declares hdeclares] at h
      cases hroots : ofRoots roots with
      | error e =>
        rw [hroots] at h
        cases h
      | ok s' =>
        rw [hroots] at h
        cases h
        obtain ⟨hsame, hwellFormed⟩ := ofRoots_ok_iff.mp hroots
        rw [hsame]
        exact ⟨hdeclares, hwellFormed⟩
  · intro ⟨hdeclares, hwellFormed⟩
    rw [ofJson_of_declares hdeclares, ofRoots_ok_iff.mpr ⟨rfl, hwellFormed⟩]
    rfl

/-- A schema with a default written out at any depth. -/
inductive Completes : Json → Json → Prop
  | roots {j full : Json} (h : shape.Completes "roots" (.array []) j full) : Completes j full
  | within {j full : Json}
      (h : shape.FieldRelated "roots" (ItemRelated RootType.Completes) j full) : Completes j full

theorem fieldwise_roots : shape.Fieldwise (fun _ value _ => value.asList RootType.ofJson) []
    fun _ roots => roots = [] where
  start _ _ := rfl
  keeps _ hname _ hfield hne :=
    absurd ((List.mem_singleton.mp hname).trans (List.mem_singleton.mp hfield).symm) hne

theorem Completes.ofJson_eq {j full : Json} (h : Completes j full) : ofJson full = ofJson j := by
  rw [ofJson, ofJson]
  cases h with
  | roots h =>
    rw [h.read_eq fieldwise_roots (by decide) fun _ hroots => congrArg _ (Eq.symm hroots)]
  | within h =>
    rw [h.read_eq (by decide) fun hitems d => ?_]
    exact hitems.asList_eq RootType.Completes.ofJson_eq

end Schema

/-- A list of root declarations makes a schema exactly if it is well-formed, and is refused with its
first violation. In JSON the same lists make a schema, and the others are refused with the same
text, however they are written. -/
theorem wellFormed_roots_accepted (roots : List RootType) :
    (Schema.WellFormed ⟨roots⟩ ↔
      (∀ r ∈ roots, r.entityType.name ≠ "") ∧ (roots.map (·.entityType)).Nodup ∧
        ∀ r ∈ roots, (∀ c ∈ r.contained, c.entityType.name ≠ "") ∧
          (r.contained.map (·.entityType)).Nodup ∧
            ∀ c ∈ r.contained, c.idFields ≠ [] ∨ ∃ property, c.backReference = some property) ∧
      (∀ s, Schema.ofRoots roots = .ok s ↔ s.roots = roots ∧ s.WellFormed) ∧
      (∀ e, Schema.ofRoots roots = .error e ↔ Schema.FirstViolation roots e) ∧
      Schema.Declares (Schema.toJson ⟨roots⟩) roots ∧
      ∀ j, (∀ s, Schema.ofJson j = .ok s ↔ Schema.Declares j s.roots ∧ s.WellFormed) ∧
        ∀ e, Schema.Declares j roots → Schema.FirstViolation roots e →
          Schema.ofJson j = .error (.refused e.message) := by
  refine ⟨Schema.wellFormed_iff, fun s => Schema.ofRoots_ok_iff, fun e => Schema.ofRoots_error_iff,
    Schema.declares_toJson roots, fun j => ⟨fun s => Schema.ofJson_ok_iff, ?_⟩⟩
  intro e hdeclares hviolation
  rw [Schema.ofJson_of_declares hdeclares, Schema.ofRoots_error_iff.mpr hviolation]
  rfl

namespace Sample

def deeds : List RootType := [
  ⟨⟨"Sorcerer"⟩, "id", .int64, [⟨⟨"Sorcerer"⟩, ["master"], none⟩, ⟨⟨"Deed"⟩, [], none⟩]⟩,
  ⟨⟨""⟩, "id", .uuid, []⟩]

theorem firstViolation_deeds :
    Schema.FirstViolation deeds (.unresolvableContained ⟨"Sorcerer"⟩ ⟨"Deed"⟩) := by
  have hnone : Schema.WellFormed ⟨[]⟩ :=
    ⟨List.forall_mem_nil _, List.nodup_nil, List.forall_mem_nil _⟩
  have hearlier : RootType.WellFormed
      ⟨⟨"Sorcerer"⟩, "id", .int64, [⟨⟨"Sorcerer"⟩, ["master"], none⟩]⟩ :=
    ⟨by decide, by decide, by decide⟩
  refine ⟨[], _, _, rfl, hnone, ?_⟩
  exact .contained (by decide) List.not_mem_nil rfl hearlier
    (.unlocated (by decide) (by decide) rfl rfl)

end Sample

/-- A contained type without a way to it comes before a root without a name. -/
theorem wellFormed_roots_accepted_deeds :
    Schema.FirstViolation Sample.deeds (.unresolvableContained ⟨"Sorcerer"⟩ ⟨"Deed"⟩) ∧
      Schema.ofRoots Sample.deeds = .error (.unresolvableContained ⟨"Sorcerer"⟩ ⟨"Deed"⟩) ∧
      Schema.ofJson (Schema.toJson ⟨Sample.deeds⟩) = .error
        (.refused "Type 'Deed' under root 'Sorcerer' needs id_fields or a back_reference") := by
  have hfirst := Sample.firstViolation_deeds
  obtain ⟨-, -, herror, hdeclares, hjson⟩ := wellFormed_roots_accepted Sample.deeds
  obtain ⟨-, hrefused⟩ := hjson (Schema.toJson ⟨Sample.deeds⟩)
  exact ⟨hfirst, (herror _).mpr hfirst, hrefused _ hdeclares hfirst⟩

end SearchSync

namespace SearchSync

open Json (Shape ItemRelated)
open Relation (ReflTransGen)

/-- Reading does not depend on what a relation changes, however often. -/
theorem eq_of_reflTransGen {α β : Type} {r : α → α → Prop} {f : α → β} {a b : α}
    (h : ReflTransGen r a b) (hr : ∀ {a b}, r a b → f b = f a) : f b = f a := by
  have hsteps : ReflTransGen Eq (f a) (f b) :=
    ReflTransGen.lift f (fun _ _ hstep => (hr hstep).symm) a b h
  rw [Relation.reflTransGen_eq_self] at hsteps
  exact hsteps.symm

/-- An event model or a schema that was checked is read from its JSON form unchanged, and one that
would be refused is refused from JSON with the same text. Whatever is read from JSON has passed its
check, and a default that is left out is read as if it were written, in the model or schema itself
and in what is nested in it. -/
theorem declarations_read_back (m : EventModel) (roots : List RootType) :
    (m.checked = .ok m → EventModel.ofJson m.toJson = .ok m) ∧
      (∀ e, m.checked = .error e → EventModel.ofJson m.toJson = .error (.refused e.message)) ∧
      (∀ s, Schema.ofRoots roots = .ok s → Schema.ofJson s.toJson = .ok s) ∧
      (∀ e, Schema.ofRoots roots = .error e →
        Schema.ofJson (Schema.toJson ⟨roots⟩) = .error (.refused e.message)) ∧
      (∀ j m', EventModel.ofJson j = .ok m' → m'.checked = .ok m') ∧
      (∀ j s, Schema.ofJson j = .ok s → Schema.ofRoots s.roots = .ok s) ∧
      (∀ j full, ReflTransGen EventModel.Completes j full →
        EventModel.ofJson full = EventModel.ofJson j) ∧
      ∀ j full, ReflTransGen Schema.Completes j full → Schema.ofJson full = Schema.ofJson j := by
  have hmodel := EventModel.ofJson_of_declares m.declares_toJson
  have hschema := Schema.ofJson_of_declares (Schema.declares_toJson roots)
  refine ⟨?_, ?_, ?_, ?_, ?_, ?_, ?_, ?_⟩
  · intro hchecked
    rw [hmodel, hchecked]
    rfl
  · intro e hrefused
    rw [hmodel, hrefused]
    rfl
  · intro s hroots
    obtain ⟨rfl, -⟩ := Schema.ofRoots_ok_iff.mp hroots
    rw [hschema, hroots]
    rfl
  · intro e hrefused
    rw [hschema, hrefused]
    rfl
  · intro j m' hread
    exact (EventModel.ofJson_ok_iff.mp hread).2
  · intro j s hread
    exact Schema.ofRoots_ok_iff.mpr ⟨rfl, (Schema.ofJson_ok_iff.mp hread).2⟩
  · intro j full hcompletes
    exact eq_of_reflTransGen hcompletes EventModel.Completes.ofJson_eq
  · intro j full hcompletes
    exact eq_of_reflTransGen hcompletes Schema.Completes.ofJson_eq

namespace Sample

def unmapped : EventModel := ⟨"guest", "visitors", EventModel.defaultKindColumn, []⟩

def referring : Schema := ⟨[⟨⟨"Sorcerer"⟩, "id", .int64, [⟨⟨"Deed"⟩, [], some "sorcererId"⟩]⟩]⟩

def deedJson (idFields : List (String × Json)) : Json :=
  .object ([("back_reference", .string "sorcererId"), ("entity_type", .string "Deed")] ++ idFields)

def sorcererJson (deed : Json) : Json :=
  .object [("contained", .array [deed]), ("entity_type", .string "Sorcerer"),
    ("id_property", .string "id"), ("id_type", .string "int64")]

theorem completes_referring :
    Schema.Completes (.object [("roots", .array [sorcererJson (deedJson [])])])
      referring.toJson := by
  have hdeed : ContainedType.Completes (deedJson []) (deedJson [("id_fields", .array [])]) :=
    .idFields (@Shape.Completes.member _ _ _ _ [] (by simp))
  have hroot : RootType.Completes (sorcererJson (deedJson []))
      (sorcererJson (deedJson [("id_fields", .array [])])) :=
    .within (@Shape.FieldRelated.member _ _ _ [] _ _ _ (@ItemRelated.item _ [] [] _ _ hdeed))
  have hform : referring.toJson =
      .object [("roots", .array [sorcererJson (deedJson [("id_fields", .array [])])])] := rfl
  rw [hform]
  exact .within (@Shape.FieldRelated.member _ _ _ [] [] _ _ (@ItemRelated.item _ [] [] _ _ hroot))

end Sample

/-- A model without mappings is refused from JSON as it is by its check. Deeds are read with or
without their id fields, of which there are none. -/
theorem declarations_read_back_referring :
    EventModel.ofJson Sample.unmapped.toJson =
        .error (.refused "Event model for table 'guest' has no id mappings") ∧
      Schema.ofJson Sample.referring.toJson = .ok Sample.referring ∧
      Schema.ofJson (.object [("roots", .array [Sample.sorcererJson (Sample.deedJson [])])]) =
        .ok Sample.referring := by
  have hunmapped : Sample.unmapped.checked = .error (.noMappings "guest") := rfl
  have hreferring : Schema.ofRoots Sample.referring.roots = .ok Sample.referring := by decide
  obtain ⟨-, hrefused, hread, -, -, -, -, hcompletes⟩ :=
    declarations_read_back Sample.unmapped Sample.referring.roots
  refine ⟨hrefused _ hunmapped, hread _ hreferring, ?_⟩
  rw [← hcompletes _ _ (.single Sample.completes_referring)]
  exact hread _ hreferring

end SearchSync
