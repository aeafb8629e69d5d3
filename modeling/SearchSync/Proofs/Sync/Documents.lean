import Mathlib.Data.Finmap
import SearchSync.EventLog.Basic
import SearchSync.Sync.Updater

/-!
# A fixed store and a map of documents

The simplest two sides: a snapshot of the entities and a finite map of documents. `Faithful` says
of arbitrary collaborators that they act like these two whenever a call of theirs succeeds, so
what is proved of faithful collaborators holds of the plain map and of a map whose calls may fail.
-/
namespace SearchSync

abbrev DocumentKey := EntityType × EntityId

def Record.key (r : Record) : DocumentKey := (r.entityType, r.id)

def Change.key (c : Change) : DocumentKey := (c.entityType, c.id)

/-- The entities as they stand for the time of a batch. -/
structure Snapshot where
  find? : DocumentKey → Option Record
  /-- A record carries the type and the id under which it is found. -/
  key_of_find? : ∀ {key r}, find? key = some r → r.key = key

abbrev Documents := Finmap fun _ : DocumentKey => Record

/-- A search for the documents of a root that hold an id in one of the fields. -/
abbrev Lookup := Documents → EntityType → List String → EntityId → List EntityId

variable {τ σ α : Type}

def Snapshot.store (entities : Snapshot) : EntityStore σ where
  get type id w := (.ok (entities.find? (type, id)), w)
  getBatch type ids w := (.ok (ids.filterMap fun id => entities.find? (type, id)), w)

namespace Documents

/-- The index that is a map of documents. Both ways to write a document put the record. -/
def sink (find : Lookup) : SearchIndex τ Documents where
  index r _ docs := (.ok (), docs.insert r.key r)
  update r _ docs := (.ok (), docs.insert r.key r)
  delete type _ id _ docs := (.ok (), docs.erase (type, id))
  findRootIds root fields id docs := (.ok (find docs root fields id), docs)

/-- A root's document as its record stands now. A root that is gone keeps the document it has. -/
def rewrite (entities : Snapshot) (docs : Documents) (key : DocumentKey) : Documents :=
  match entities.find? key with
  | some r => docs.insert key r
  | none => docs

def rewriteAll (entities : Snapshot) (root : EntityType) (ids : List EntityId)
    (docs : Documents) : Documents :=
  ids.foldl (fun docs id => docs.rewrite entities (root, id)) docs

theorem lookup_rewrite (entities : Snapshot) (docs : Documents) (key k : DocumentKey) :
    (docs.rewrite entities key).lookup k =
      if k = key then (entities.find? key).or (docs.lookup key) else docs.lookup k := by
  unfold rewrite
  by_cases hk : k = key
  · subst k
    cases entities.find? key <;> simp
  · cases entities.find? key <;> simp [hk]

theorem lookup_rewriteAll (entities : Snapshot) (root : EntityType) (ids : List EntityId)
    (docs : Documents) (key : DocumentKey) :
    (docs.rewriteAll entities root ids).lookup key =
      if key.1 = root ∧ key.2 ∈ ids then (entities.find? key).or (docs.lookup key)
      else docs.lookup key := by
  unfold rewriteAll
  induction ids generalizing docs with
  | nil => simp
  | cons id ids ih =>
    rw [List.foldl_cons, ih, lookup_rewrite]
    obtain ⟨type, own⟩ := key
    by_cases hk : (type, own) = (root, id)
    · obtain ⟨rfl, rfl⟩ := Prod.mk.inj hk
      cases entities.find? (type, own) <;> simp
    · have hne : ¬(type = root ∧ own = id) := fun h => hk (Prod.ext h.1 h.2)
      have hmem : (type = root ∧ own ∈ id :: ids) ↔ (type = root ∧ own ∈ ids) := by
        simp only [List.mem_cons]
        tauto
      simp only [hk, ↓reduceIte, hmem]

/-- Putting the record that a document holds already changes nothing. -/
theorem insert_of_lookup {docs : Documents} {key : DocumentKey} {r : Record}
    (h : docs.lookup key = some r) : docs.insert key r = docs := by
  apply Finmap.ext_lookup
  intro k
  by_cases hk : k = key
  · subst k
    rw [Finmap.lookup_insert, h]
  · rw [Finmap.lookup_insert_of_ne _ hk]

end Documents

/-- A world whose calls may fail, with what awaits the calls to come: the cause of a failure, or
nothing where the call goes through. Calls beyond the list go through. -/
structure Unreliable (σ : Type) where
  world : σ
  faults : List (Option String)

namespace Unreliable

/-- Tries a call. One that fails does not reach the world. -/
def attempt (action : σ → Except String α × σ) (t : Unreliable σ) :
    Except String α × Unreliable σ :=
  match t.faults with
  | some cause :: rest => (.error cause, ⟨t.world, rest⟩)
  | _ => ((action t.world).1, ⟨(action t.world).2, t.faults.tail⟩)

def store (s : EntityStore σ) : EntityStore (Unreliable σ) where
  get type id := attempt (s.get type id)
  getBatch type ids := attempt (s.getBatch type ids)

def sink (s : SearchIndex τ σ) : SearchIndex τ (Unreliable σ) where
  index r tx := attempt (s.index r tx)
  update r tx := attempt (s.update r tx)
  delete type roots id tx := attempt (s.delete type roots id tx)
  findRootIds root fields id := attempt (s.findRootIds root fields id)

end Unreliable

namespace Updater

def ofSnapshot (schema : Schema) (entities : Snapshot) (find : Lookup) : Updater τ Documents :=
  .ofSchema schema entities.store (Documents.sink find)

def unreliable (u : Updater τ σ) : Updater τ (Unreliable σ) :=
  ⟨u.containment, u.embeddings, Unreliable.store u.store, Unreliable.sink u.sink⟩

end Updater

/-- What a call does to the documents. One that succeeds answers from them and acts on them as
told; one that fails, which only fallible calls do, leaves them alone. -/
structure Acts (docs : σ → Documents) (fallible : Prop) (action : σ → Except String α × σ)
    (answer : Documents → α) (effect : Documents → Documents) : Prop where
  succeeds : ∀ {w a w'}, action w = (.ok a, w') → a = answer (docs w) ∧ docs w' = effect (docs w)
  fails : ∀ {w cause w'}, action w = (.error cause, w') → fallible ∧ docs w' = docs w

/-- A store and an index that act as a snapshot and a map of documents, seen through `docs`. -/
structure Faithful (store : EntityStore σ) (sink : SearchIndex τ σ) (entities : Snapshot)
    (find : Lookup) (docs : σ → Documents) (fallible : Prop) : Prop where
  get : ∀ type id, Acts docs fallible (store.get type id)
    (fun _ => entities.find? (type, id)) (fun docs => docs)
  getBatch : ∀ type ids, Acts docs fallible (store.getBatch type ids)
    (fun _ => ids.filterMap fun id => entities.find? (type, id)) (fun docs => docs)
  index : ∀ r tx, Acts docs fallible (sink.index r tx) (fun _ => ()) (Finmap.insert r.key r)
  update : ∀ r tx, Acts docs fallible (sink.update r tx) (fun _ => ()) (Finmap.insert r.key r)
  delete : ∀ type roots id tx, Acts docs fallible (sink.delete type roots id tx) (fun _ => ())
    (Finmap.erase (type, id))
  findRootIds : ∀ root fields id, Acts docs fallible (sink.findRootIds root fields id)
    (fun docs => find docs root fields id) (fun docs => docs)

theorem faithful_documents (entities : Snapshot) (find : Lookup) :
    Faithful (τ := τ) entities.store (Documents.sink find) entities find (fun docs => docs)
      False := by
  constructor <;> intros <;> constructor <;> rintro _ _ _ ⟨⟩ <;> exact ⟨rfl, rfl⟩

namespace Unreliable

theorem attempt_ok {action : σ → Except String α × σ} {t t' : Unreliable σ} {a : α}
    (h : attempt action t = (.ok a, t')) : action t.world = (.ok a, t'.world) := by
  unfold attempt at h
  split at h
  · cases h
  · obtain ⟨ha, rfl⟩ := Prod.mk.inj h
    exact Prod.ext ha rfl

theorem attempt_error {action : σ → Except String α × σ} {t t' : Unreliable σ} {cause : String}
    (h : attempt action t = (.error cause, t')) :
    t'.world = t.world ∨ action t.world = (.error cause, t'.world) := by
  unfold attempt at h
  split at h
  · obtain ⟨-, rfl⟩ := Prod.mk.inj h
    exact Or.inl rfl
  · obtain ⟨ha, rfl⟩ := Prod.mk.inj h
    exact Or.inr (Prod.ext ha rfl)

end Unreliable

theorem Acts.attempt {docs : σ → Documents} {fallible : Prop}
    {action : σ → Except String α × σ} {answer : Documents → α} {effect : Documents → Documents}
    (h : Acts docs fallible action answer effect) :
    Acts (fun t : Unreliable σ => docs t.world) True (Unreliable.attempt action) answer
      effect where
  succeeds ha := h.succeeds (Unreliable.attempt_ok ha)
  fails ha := by
    refine ⟨trivial, ?_⟩
    rcases Unreliable.attempt_error ha with hw | hw
    · exact congrArg docs hw
    · exact (h.fails hw).2

theorem Faithful.unreliable {store : EntityStore σ} {sink : SearchIndex τ σ}
    {entities : Snapshot} {find : Lookup} {docs : σ → Documents} {fallible : Prop}
    (h : Faithful store sink entities find docs fallible) :
    Faithful (Unreliable.store store) (Unreliable.sink sink) entities find
      (fun t => docs t.world) True where
  get type id := (h.get type id).attempt
  getBatch type ids := (h.getBatch type ids).attempt
  index r tx := (h.index r tx).attempt
  update r tx := (h.update r tx).attempt
  delete type roots id tx := (h.delete type roots id tx).attempt
  findRootIds root fields id := (h.findRootIds root fields id).attempt

namespace Sample

def place : EntityType := ⟨"Place"⟩

def sorcerer : EntityType := ⟨"Sorcerer"⟩

/-- Places embed their sorcerers, who are documents in their own right. -/
def roots : List RootType :=
  [⟨place, "id", .int64, [⟨sorcerer, ["sorcerers.id"], some "placeId"⟩]⟩,
    ⟨sorcerer, "id", .int64, []⟩]

def schema : Schema := ⟨roots⟩

def tower : Record := ⟨place, .int 1, []⟩

def merlin : Record := ⟨sorcerer, .int 2, [("placeId", .number (.integer 1))]⟩

def entities : Snapshot where
  find? key :=
    if key = (place, .int 1) then some tower
    else if key = (sorcerer, .int 2) then some merlin
    else none
  key_of_find? := by
    intro key r h
    split at h
    · rename_i hkey
      cases h
      exact hkey.symm
    · split at h
      · rename_i hkey
        cases h
        exact hkey.symm
      · cases h

/-- The tower as it was when an apprentice lived there. -/
def formerTower : Record := ⟨place, .int 1, [("sorcerers.id", .number (.integer 3))]⟩

def apprentice : Record := ⟨sorcerer, .int 3, [("placeId", .number (.integer 1))]⟩

/-- The documents of the tower and the apprentice before he left. -/
def formerly : Documents :=
  (Finmap.singleton apprentice.key apprentice).insert formerTower.key formerTower

/-- The record holds the id in one of the fields. -/
def holds (fields : List String) (id : EntityId) (r : Record) : Bool :=
  r.data.any fun member =>
    fields.contains member.1 &&
      match member.2, id with
      | .number (.integer n), .int k => n == k.toInt
      | _, _ => false

end Sample

end SearchSync
