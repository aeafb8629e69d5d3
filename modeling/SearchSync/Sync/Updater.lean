import SearchSync.EventLog.Basic
import SearchSync.Schema.Basic
import SearchSync.Sync.Trace

/-!
# Updating an index

A change of a root writes or deletes the root's document; a change of an embedded entity updates the
documents that embed it. An action that fails leaves the state as the failure found it, so that what
was written before stays written.

The counts are natural numbers. A count of writes made one after another reaches `2 ^ 64` in no
run, so no overflow of it is modelled.
-/

namespace SearchSync

structure WriteCounts where
  indexed : Nat
  updated : Nat
  deleted : Nat
  deriving DecidableEq, Repr

namespace WriteCounts

def count (c : WriteCounts) : WriteKind → WriteCounts
  | .index => { c with indexed := c.indexed + 1 }
  | .update => { c with updated := c.updated + 1 }
  | .delete => { c with deleted := c.deleted + 1 }

end WriteCounts

/-- The documents of a root cannot be found: it declares no fields that hold ids of the type, and
there is no record whose back-reference could be followed. -/
structure UnlocatedWarning where
  root : EntityType
  type : EntityType
  id : EntityId
  deriving DecidableEq, Repr

namespace UnlocatedWarning

def message (w : UnlocatedWarning) : String :=
  "Cannot locate " ++ w.root.name ++ " documents embedding " ++ w.type.name ++ " " ++
    w.id.display ++ ": no id fields configured"

end UnlocatedWarning

structure Batch (σ : Type) where
  world : σ
  /-- The documents written in this batch and not deleted since. -/
  written : List (EntityType × EntityId)
  counts : WriteCounts
  warnings : List UnlocatedWarning
  /-- What the store answered about the entity of the change at hand, once it was asked. -/
  answer : Option (Option Record)

namespace Batch

def start {σ : Type} (world : σ) : Batch σ := ⟨world, [], ⟨0, 0, 0⟩, [], none⟩

def hasWritten {σ : Type} (b : Batch σ) (type : EntityType) (id : EntityId) : Bool :=
  b.written.contains (type, id)

def afterWrite {σ : Type} (kind : WriteKind) (type : EntityType) (id : EntityId) (b : Batch σ) :
    Batch σ :=
  { b with
    counts := b.counts.count kind
    written :=
      match kind with
      | .delete => b.written.filter (· ≠ (type, id))
      | _ => (type, id) :: b.written }

end Batch

abbrev BatchAction (σ : Type) := ExceptT UpdateError (StateM (Batch σ))

namespace BatchAction

variable {σ α : Type}

def call (action : σ → Except String α × σ) (failure : String → UpdateError) : BatchAction σ α := do
  let batch ← get
  let (answer, world) := action batch.world
  set { batch with world }
  match answer with
  | .ok a => return a
  | .error cause => throw (failure cause)

end BatchAction

structure Updater (τ σ : Type) where
  containment : Containment
  embeddings : List (EntityType × Embedding)
  store : EntityStore σ
  sink : SearchIndex τ σ

namespace Updater

variable {τ σ : Type}

def ofSchema (schema : Schema) (store : EntityStore σ) (sink : SearchIndex τ σ) : Updater τ σ :=
  ⟨schema.containment, schema.embeddings, store, sink⟩

/-- The record of the changed entity, asked for at most once per change. -/
def record (u : Updater τ σ) (c : Change) : BatchAction σ (Option Record) := do
  match (← get).answer with
  | some answer => return answer
  | none =>
    let answer ← BatchAction.call (u.store.get c.entityType c.id) (.store c.entityType (.one c.id))
    modify fun b => { b with answer := some answer }
    return answer

def writeDocument (u : Updater τ σ) (tx : τ) (isNew : Bool) (root : EntityType) (id : EntityId)
    (r : Record) : BatchAction σ Unit := do
  let kind : WriteKind := if isNew then .index else .update
  BatchAction.call (if isNew then u.sink.index r tx else u.sink.update r tx) (.write kind root id)
  modify (Batch.afterWrite kind root id)

def deleteDocument (u : Updater τ σ) (tx : τ) (roots : List EntityType) (c : Change) :
    BatchAction σ Unit := do
  BatchAction.call (u.sink.delete c.entityType roots c.id tx) (.write .delete c.entityType c.id)
  modify (Batch.afterWrite .delete c.entityType c.id)

/-- Applies the change of a root to its own document. A root that has vanished since the change
was logged is deleted. -/
def applyToRoot (u : Updater τ σ) (tx : τ) (roots : List EntityType) (c : Change) :
    BatchAction σ Unit := do
  if c.kind = .delete then
    u.deleteDocument tx roots c
  else if !(← get).hasWritten c.entityType c.id then
    match ← u.record c with
    | none => u.deleteDocument tx roots c
    | some r => u.writeDocument tx (c.kind = .insert) c.entityType c.id r

/-- The ids of a root's documents that embed the changed entity: those its back-reference names
while it exists, otherwise those that hold its id now. -/
def owners (u : Updater τ σ) (c : Change) (e : Embedding) : BatchAction σ (List EntityId) := do
  let record ← if c.kind = .delete then pure none else u.record c
  match record, e.backReference? c.entityType with
  | some r, some property =>
    match r.referenceIds? property e.rootIdProperty e.rootIdType with
    | some ids => return ids
    | none => throw (.unresolved c.entityType .unreadableReference)
  | _, _ =>
    match e.idFields c.entityType with
    | [] =>
      modify fun b => { b with warnings := b.warnings ++ [⟨e.root, c.entityType, c.id⟩] }
      return []
    | fields =>
      BatchAction.call (u.sink.findRootIds e.root fields c.id) (.lookup e.root c.entityType c.id)

def updateAll (u : Updater τ σ) (tx : τ) (root : EntityType) :
    List Record → BatchAction σ Unit
  | [] => pure ()
  | r :: rest => do
    if !(← get).hasWritten root r.id then
      u.writeDocument tx false root r.id r
    u.updateAll tx root rest

def firsts : List EntityId → List EntityId
  | [] => []
  | id :: rest => id :: (firsts rest).filter (· ≠ id)

def propagate (u : Updater τ σ) (tx : τ) (c : Change) (e : Embedding) : BatchAction σ Unit := do
  let owners ← u.owners c e
  let batch ← get
  match firsts (owners.filter fun id => !batch.hasWritten e.root id) with
  | [] => return ()
  | ids =>
    let records ← BatchAction.call (u.store.getBatch e.root ids) (.store e.root (.batch ids))
    u.updateAll tx e.root records

/-- Applies a change to the documents of the given roots, in order, where `all` are all roots that
hold the changed type. -/
def applyToRoots (u : Updater τ σ) (tx : τ) (all : List EntityType) (c : Change) :
    List EntityType → BatchAction σ Unit
  | [] => pure ()
  | root :: rest => do
    let some e := u.embeddings.lookup root | throw (.unresolved root .noEmbedding)
    if root = c.entityType then
      u.applyToRoot tx all c
    if root ≠ c.entityType || e.embeds c.entityType then
      u.propagate tx c e
    u.applyToRoots tx all c rest

def applyChange (u : Updater τ σ) (tx : τ) (c : Change) : BatchAction σ Unit := do
  let some roots := u.containment.rootsFor c.entityType
    | throw (.unresolved c.entityType .notContained)
  modify fun b => { b with answer := none }
  u.applyToRoots tx roots c roots

def applyAll (u : Updater τ σ) (tx : τ) : List Change → BatchAction σ WriteCounts
  | [] => return (← get).counts
  | c :: rest => do
    u.applyChange tx c
    u.applyAll tx rest

def apply (u : Updater τ σ) (tx : τ) (changes : List Change) (world : σ) :
    Except UpdateError WriteCounts × Batch σ :=
  (u.applyAll tx changes).run (Batch.start world)

end Updater

end SearchSync
