import SearchSync.Entity.Basic
import SearchSync.Scan.Basic

/-!
# The store, the index and traces of their calls

The two sides that are kept in step act on one state and may fail with a text. Nothing is assumed of
them: answers may change from call to call, and a failing call may have changed the state. It is
part of the trace as well.
-/

namespace SearchSync

structure EntityStore (σ : Type) where
  get : EntityType → EntityId → σ → Except String (Option Record) × σ
  /-- The records of several entities of one type, without those that no longer exist. -/
  getBatch : EntityType → List EntityId → σ → Except String (List Record) × σ

structure SearchIndex (τ σ : Type) where
  index : Record → τ → σ → Except String Unit × σ
  update : Record → τ → σ → Except String Unit × σ
  /-- Removes the document of an entity, given with all roots that may embed it. -/
  delete : EntityType → List EntityType → EntityId → τ → σ → Except String Unit × σ
  /-- The ids of a root's documents that hold an id in one of the fields. -/
  findRootIds : EntityType → List String → EntityId → σ → Except String (List EntityId) × σ

inductive WriteKind
  | index
  | update
  | delete
  deriving DecidableEq, Repr

def WriteKind.verb : WriteKind → String
  | .index => "index"
  | .update => "update"
  | .delete => "delete"

inductive Unresolved
  | notContained
  /-- A root has no embedding, which no schema brings about. -/
  | noEmbedding
  | unreadableReference
  deriving DecidableEq, Repr

namespace Unresolved

def message : Unresolved → String
  | .notContained => "not contained in any index root"
  | .noEmbedding => "no metadata for root type"
  | .unreadableReference => "back-reference does not hold ids of the root's id type"

end Unresolved

inductive Wanted
  | one (id : EntityId)
  | batch (ids : List EntityId)
  deriving DecidableEq, Repr

namespace Wanted

def text : Wanted → String
  | .one id => id.display
  | .batch ids => EntityId.quotedList ids

end Wanted

inductive UpdateError
  | unresolved (type : EntityType) (reason : Unresolved)
  | store (type : EntityType) (wanted : Wanted) (cause : String)
  | write (kind : WriteKind) (type : EntityType) (id : EntityId) (cause : String)
  | lookup (root type : EntityType) (id : EntityId) (cause : String)
  | scan (error : ScanError EntityType)
  deriving DecidableEq, Repr

namespace UpdateError

def message : UpdateError → String
  | .unresolved type reason =>
    "Cannot resolve index roots for " ++ type.name ++ ": " ++ reason.message
  | .store type wanted _ => "Failed to load " ++ type.name ++ " " ++ wanted.text
  | .write kind type id _ =>
    "Index failed to " ++ kind.verb ++ " " ++ type.name ++ " " ++ id.display
  | .lookup root type id _ =>
    "Index failed to find " ++ root.name ++ " documents embedding " ++ type.name ++ " " ++
      id.display
  | .scan e => "Bulk scan failed: " ++ e.message EntityType.quoted

def causes : UpdateError → List String
  | .unresolved _ _ => []
  | .store _ _ cause => [cause]
  | .write _ _ _ cause => [cause]
  | .lookup _ _ _ cause => [cause]
  | .scan e => e.message EntityType.quoted :: e.causes

end UpdateError

inductive Call (τ : Type)
  | get (type : EntityType) (id : EntityId)
  | getBatch (type : EntityType) (ids : List EntityId)
  | index (record : Record) (tx : τ)
  | update (record : Record) (tx : τ)
  | delete (type : EntityType) (roots : List EntityType) (id : EntityId) (tx : τ)
  | findRootIds (root : EntityType) (fields : List String) (id : EntityId)

structure Traced (τ σ : Type) where
  world : σ
  calls : List (Call τ)

namespace Traced

variable {τ σ α : Type}

def note (call : Call τ) (action : σ → Except String α × σ) (t : Traced τ σ) :
    Except String α × Traced τ σ :=
  ((action t.world).1, ⟨(action t.world).2, t.calls ++ [call]⟩)

def store (s : EntityStore σ) : EntityStore (Traced τ σ) where
  get type id := note (.get type id) (s.get type id)
  getBatch type ids := note (.getBatch type ids) (s.getBatch type ids)

def sink (s : SearchIndex τ σ) : SearchIndex τ (Traced τ σ) where
  index r tx := note (.index r tx) (s.index r tx)
  update r tx := note (.update r tx) (s.update r tx)
  delete type roots id tx := note (.delete type roots id tx) (s.delete type roots id tx)
  findRootIds root fields id := note (.findRootIds root fields id) (s.findRootIds root fields id)

end Traced

end SearchSync
