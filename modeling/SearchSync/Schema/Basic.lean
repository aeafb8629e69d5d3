import SearchSync.Entity.Basic

/-!
# Index schemas

Which entity types are documents of the index, its roots, and which other types each root embeds. A
schema is checked when it is built, root by root in declared order. From it follow the roots that
embed a type, the ways from the types to the documents of a root, and the types that matter at all.
-/

namespace SearchSync

structure ContainedType where
  entityType : EntityType
  idFields : List String
  /-- The property of the embedded entity that refers to its root documents. -/
  backReference : Option String
  deriving DecidableEq, Repr

structure RootType where
  entityType : EntityType
  /-- The member that holds the root's id where a back-reference is an object. -/
  idProperty : String
  idType : ColumnType
  contained : List ContainedType
  deriving DecidableEq, Repr

namespace RootType

def defaultIdProperty : String := "id"

def defaultIdType : ColumnType := .int64

end RootType

structure Schema where
  roots : List RootType
  deriving DecidableEq, Repr

inductive SchemaError
  | emptyName
  | duplicateRoot (root : EntityType)
  | duplicateContained (root contained : EntityType)
  | unresolvableContained (root contained : EntityType)
  deriving DecidableEq, Repr

def SchemaError.message : SchemaError → String
  | .emptyName => "Entity type names must not be empty"
  | .duplicateRoot r => "Root type declared more than once: " ++ r.name
  | .duplicateContained r c =>
    "Type '" ++ c.name ++ "' listed more than once under root '" ++ r.name ++ "'"
  | .unresolvableContained r c =>
    "Type '" ++ c.name ++ "' under root '" ++ r.name ++ "' needs id_fields or a back_reference"

namespace Schema

def checkContained (root : EntityType) (seen : List EntityType) :
    List ContainedType → Except SchemaError Unit
  | [] => .ok ()
  | c :: rest =>
    if c.entityType.name.isEmpty then .error .emptyName
    else if seen.contains c.entityType then .error (.duplicateContained root c.entityType)
    else if c.idFields.isEmpty && c.backReference.isNone then
      .error (.unresolvableContained root c.entityType)
    else checkContained root (c.entityType :: seen) rest

def checkRoots (seen : List EntityType) : List RootType → Except SchemaError Unit
  | [] => .ok ()
  | r :: rest =>
    if r.entityType.name.isEmpty then .error .emptyName
    else if seen.contains r.entityType then .error (.duplicateRoot r.entityType)
    else do
      checkContained r.entityType [] r.contained
      checkRoots (r.entityType :: seen) rest

def ofRoots (roots : List RootType) : Except SchemaError Schema :=
  (checkRoots [] roots).map fun _ => ⟨roots⟩

end Schema

/-- For each type, the roots whose documents hold it: a root itself first, then the other roots
that embed it in declared order. -/
structure Containment where
  entries : List (EntityType × List EntityType)
  deriving DecidableEq, Repr

namespace Containment

def rootsFor (c : Containment) (type : EntityType) : Option (List EntityType) :=
  c.entries.lookup type

def add (type root : EntityType) :
    List (EntityType × List EntityType) → List (EntityType × List EntityType)
  | [] => [(type, [root])]
  | (t, roots) :: rest =>
    if t = type then (t, if roots.contains root then roots else roots ++ [root]) :: rest
    else (t, roots) :: add type root rest

end Containment

structure Embedding where
  root : EntityType
  rootIdProperty : String
  rootIdType : ColumnType
  idFieldsByType : List (EntityType × List String)
  backReferenceByType : List (EntityType × String)
  deriving DecidableEq, Repr

namespace Embedding

def ofRoot (r : RootType) : Embedding where
  root := r.entityType
  rootIdProperty := r.idProperty
  rootIdType := r.idType
  idFieldsByType :=
    (r.contained.filter fun c => !c.idFields.isEmpty).map fun c => (c.entityType, c.idFields)
  backReferenceByType :=
    r.contained.filterMap fun c => c.backReference.map fun b => (c.entityType, b)

def idFields (e : Embedding) (type : EntityType) : List String :=
  (e.idFieldsByType.lookup type).getD []

def backReference? (e : Embedding) (type : EntityType) : Option String :=
  e.backReferenceByType.lookup type

def embeds (e : Embedding) (type : EntityType) : Bool :=
  (e.idFieldsByType.lookup type).isSome || (e.backReferenceByType.lookup type).isSome

end Embedding

namespace Schema

def containment (s : Schema) : Containment :=
  let own := s.roots.foldl (fun acc r => Containment.add r.entityType r.entityType acc) []
  ⟨s.roots.foldl (fun acc r =>
    r.contained.foldl (fun acc c => Containment.add c.entityType r.entityType acc) acc) own⟩

def embeddings (s : Schema) : List (EntityType × Embedding) :=
  s.roots.map fun r => (r.entityType, Embedding.ofRoot r)

def mentionedTypes (s : Schema) : List EntityType :=
  s.roots.flatMap fun r => r.entityType :: r.contained.map (·.entityType)

def insertType (type : EntityType) : List EntityType → List EntityType
  | [] => [type]
  | t :: rest =>
    if type.name < t.name then type :: t :: rest
    else if type = t then t :: rest
    else t :: insertType type rest

def relevantTypes (s : Schema) : List EntityType :=
  s.mentionedTypes.foldl (fun acc t => insertType t acc) []

end Schema

end SearchSync
