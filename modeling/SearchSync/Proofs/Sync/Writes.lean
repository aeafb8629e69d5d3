import SearchSync.Proofs.Schema.Views
import SearchSync.Proofs.Sync.Erasure
import SearchSync.Proofs.Sync.Refinement
import SearchSync.Proofs.Sync.Resolution

/-!
# The writes of a change and of a batch

While a change is applied, every call that writes has a reason in the change and in what the store
and the index have answered about it, and puts no document that was put before and not deleted
since. The memory of the batch is what its log tells. This holds of any store that hands records
out under the keys they were asked for, whatever else it and the index do.

It follows for every batch, also for one that is stopped, that a document is put once until it is
deleted, that the counts are those of the calls, and that what no change reaches stays as it is.
-/

namespace SearchSync

section OneChange

open BatchAction

variable {τ σ : Type}

/-- Records are handed out under the types and the ids that were asked for. -/
structure EntityStore.Keyed (store : EntityStore σ) : Prop where
  get : ∀ {type id w r w'}, store.get type id w = (.ok (some r), w') → r.key = (type, id)
  getBatch : ∀ {type ids w rs w'}, store.getBatch type ids w = (.ok rs, w') →
    ∀ r ∈ rs, r.entityType = type ∧ r.id ∈ ids

theorem Snapshot.keyed_store (entities : Snapshot) :
    (entities.store : EntityStore σ).Keyed where
  get h := entities.key_of_find? (Except.ok.inj (Prod.mk.inj h).1)
  getBatch {type ids _ _ _} h := by
    obtain rfl := Except.ok.inj (Prod.mk.inj h).1
    intro r hr
    obtain ⟨id, hid, hfind⟩ := List.mem_filterMap.mp hr
    obtain ⟨rfl, rfl⟩ := Prod.mk.inj (entities.key_of_find? hfind)
    exact ⟨rfl, hid⟩

/-- The root contains the type of the change, and the answers about the change name the document
`id`: while the changed entity exists and has a back-reference to the root, its record refers to
the document; otherwise the document was found by the id of the changed entity. -/
def Resolves (root : RootType) (c : Change) (log : Log τ) (id : EntityId) : Prop :=
  ∃ t ∈ root.contained, t.entityType = c.entityType ∧
    ((∃ r property ids, c.kind ≠ .delete ∧ t.backReference = some property ∧
        (⟨.get c.entityType c.id, .ok (some r)⟩ : Exchange τ) ∈ log ∧
        r.referenceIds? property root.idProperty root.idType = some ids ∧ id ∈ ids) ∨
      (c.kind = .delete ∨ (⟨.get c.entityType c.id, .ok none⟩ : Exchange τ) ∈ log ∨
          t.backReference = none) ∧
        ∃ ids : List EntityId,
          (⟨.findRootIds root.entityType t.idFields c.id, .ok ids⟩ : Exchange τ) ∈ log ∧ id ∈ ids)

/-- The change and the answers before a call are a reason for it. Only calls that write need one. -/
def Justified (schema : Schema) (c : Change) (before : Log τ) : Call τ → Prop
  | .delete type roots id _ => (type, id) = c.key ∧ type ∈ schema.rootTypes ∧
      (c.kind = .delete ∨ (⟨.get type id, .ok none⟩ : Exchange τ) ∈ before) ∧
      schema.containment.rootsFor type = some roots
  | .index r _ => r.key = c.key ∧ r.entityType ∈ schema.rootTypes ∧ c.kind = .insert
  | .update r _ => r.key = c.key ∧ r.entityType ∈ schema.rootTypes ∧ c.kind = .update ∨
      ∃ root ∈ schema.roots, root.entityType = r.entityType ∧ Resolves root c before r.id
  | .get _ _ | .getBatch _ _ | .findRootIds _ _ _ => True

theorem Resolves.append {root : RootType} {c : Change} {log : Log τ} {id : EntityId}
    (h : Resolves root c log id) (rest : Log τ) : Resolves root c (log ++ rest) id := by
  obtain ⟨t, ht, htype, ⟨r, property, ids, hkind, hp, hx, hids⟩ | ⟨hreason, ids, hx, hid⟩⟩ := h
  · exact ⟨t, ht, htype,
      Or.inl ⟨r, property, ids, hkind, hp, List.mem_append_left rest hx, hids⟩⟩
  · have hreason := hreason.imp_right (Or.imp_left (List.mem_append_left rest))
    exact ⟨t, ht, htype, Or.inr ⟨hreason, ids, List.mem_append_left rest hx, hid⟩⟩

theorem justified_of_look {schema : Schema} {c : Change} {before : Log τ} {call : Call τ}
    (h : call.write? = none) : Justified schema c before call := by
  cases call with
  | get | getBatch | findRootIds => trivial
  | index | update | delete => cases h

/-- The change of a root is a reason to write its own document only; any other write is an update
of a document that the change was resolved to. -/
theorem Justified.write {schema : Schema} {c : Change} {before : Log τ} {call : Call τ}
    {kind : WriteKind} {key : DocumentKey} (h : Justified schema c before call)
    (hwrite : call.write? = some (kind, key)) :
    (key = c.key ∧ key.1 ∈ schema.rootTypes) ∨
      kind = .update ∧ ∃ root ∈ schema.roots, root.entityType = key.1 ∧
        Resolves root c before key.2 := by
  cases call with
  | get | getBatch | findRootIds => cases hwrite
  | delete =>
    obtain ⟨hkey, hroot, -, -⟩ := h
    cases hwrite
    exact Or.inl ⟨hkey, hroot⟩
  | index =>
    obtain ⟨hkey, hroot, -⟩ := h
    cases hwrite
    exact Or.inl ⟨hkey, hroot⟩
  | update =>
    cases hwrite
    rcases h with ⟨hkey, hroot, -⟩ | hresolved
    · exact Or.inl ⟨hkey, hroot⟩
    · exact Or.inr ⟨rfl, hresolved⟩

/-- Nothing was put twice, and the batch remembers what its log tells. -/
structure Remembers (b : Batch (Logged τ σ)) : Prop where
  fresh : b.world.log.Fresh
  written : b.written = b.world.log.written
  counts : b.counts = b.world.log.counts

/-- The batch has come from the log `earlier` to `earlier ++ part` while it applies `c`. -/
structure Recorded (schema : Schema) (c : Change) (earlier part : Log τ)
    (b : Batch (Logged τ σ)) : Prop extends Remembers b where
  log : b.world.log = earlier ++ part
  justified : part.Throughout (Justified schema c)
  answer : ∀ a, b.answer = some a →
    ⟨.get c.entityType c.id, .ok a⟩ ∈ part ∧ ∀ r, a = some r → r.key = c.key

/-- A batch that was stopped while it applied `c`. Only its log counts. -/
structure Stopped (schema : Schema) (c : Change) (earlier : Log τ) (b : Batch (Logged τ σ)) :
    Prop where
  fresh : b.world.log.Fresh
  log : ∃ part, b.world.log = earlier ++ part ∧ part.Throughout (Justified schema c)

/-- What the store and the index have answered, when a change has come to a stage. -/
inductive Backed (schema : Schema) (c : Change) (part : Log τ) (written : List DocumentKey) :
    Stage → Prop
  | serve {rest} : Backed schema c part written (.serve rest)
  | own {root rest} (hroot : root ∈ schema.roots) (hown : root.entityType = c.entityType) :
      Backed schema c part written (.own (.ofRoot root) rest)
  | vanished {root rest} (hroot : root ∈ schema.roots) (hown : root.entityType = c.entityType)
      (hreason : c.kind = .delete ∨ (⟨.get c.entityType c.id, .ok none⟩ : Exchange τ) ∈ part) :
      Backed schema c part written (.settle (.ofRoot root) none rest)
  | stored {root r rest} (hroot : root ∈ schema.roots) (hown : root.entityType = c.entityType)
      (hkind : c.kind ≠ .delete) (hkey : r.key = c.key) (hnew : c.key ∉ written) :
      Backed schema c part written (.settle (.ofRoot root) (some r) rest)
  | turn {root rest} (hroot : root ∈ schema.roots) :
      Backed schema c part written (.turn (.ofRoot root) rest)
  | refer {root entity rest} (hroot : root ∈ schema.roots)
      (hreason : c.kind = .delete ∧ entity = none ∨
        c.kind ≠ .delete ∧ (⟨.get c.entityType c.id, .ok entity⟩ : Exchange τ) ∈ part) :
      Backed schema c part written (.refer (.ofRoot root) entity rest)
  | search {root rest} (hroot : root ∈ schema.roots)
      (hreason : c.kind = .delete ∨ (⟨.get c.entityType c.id, .ok none⟩ : Exchange τ) ∈ part ∨
        ∀ t ∈ root.contained, t.entityType = c.entityType → t.backReference = none) :
      Backed schema c part written (.search (.ofRoot root) rest)
  | found {root ids rest} (hroot : root ∈ schema.roots)
      (hids : ∀ id ∈ ids, Resolves root c part id) :
      Backed schema c part written (.found (.ofRoot root) ids rest)
  | load {root records rest} (hroot : root ∈ schema.roots)
      (hrecords : ∀ r ∈ records, r.entityType = root.entityType ∧ Resolves root c part r.id) :
      Backed schema c part written (.load (.ofRoot root) records rest)

theorem Backed.after {schema : Schema} {c : Change} {part : Log τ} {written : List DocumentKey}
    {root : RootType} (hroot : root ∈ schema.roots) (rest : List EntityType) :
    Backed schema c part written (.after c (.ofRoot root) rest) := by
  unfold Stage.after
  split
  · exact .turn hroot
  · exact .serve

section Steps

variable {schema : Schema} {u : Updater τ σ} {c : Change} {earlier part : Log τ}
  {b : Batch (Logged τ σ)}

theorem Recorded.stopped (h : Recorded schema c earlier part b) : Stopped schema c earlier b :=
  ⟨h.fresh, part, h.log, h.justified⟩

theorem Remembers.fresh_concat (h : Remembers b) {x : Exchange τ}
    (hx : ∀ key, x.call.Puts key → key ∉ b.written) : (b.world.log ++ [x]).Fresh := by
  apply h.fresh.concat
  rw [← h.written]
  exact hx

theorem Remembers.look (h : Remembers b) {x : Exchange τ} (hx : x.call.write? = none) (w : σ) :
    Remembers { b with world := ⟨w, b.world.log ++ [x]⟩ } where
  fresh := h.fresh_concat fun key hkey => absurd hkey (Call.not_puts_of_look hx key)
  written := h.written.trans (Log.written_concat_of_none hx).symm
  counts := h.counts.trans (Log.counts_concat_of_none hx).symm

theorem Remembers.write (h : Remembers b) {x : Exchange τ} {kind : WriteKind} {type : EntityType}
    {id : EntityId} (hx : x.call.write? = some (kind, (type, id)))
    (hnew : ∀ key, x.call.Puts key → key ∉ b.written) (w : σ) :
    Remembers (Batch.afterWrite kind type id { b with world := ⟨w, b.world.log ++ [x]⟩ }) where
  fresh := h.fresh_concat hnew
  written := by
    refine Eq.trans ?_ (Log.written_concat_of_some hx).symm
    rw [← h.written]
    cases kind <;> rfl
  counts := by
    refine Eq.trans ?_ (Log.counts_concat_of_some hx).symm
    rw [← h.counts]
    rfl

theorem Recorded.concat (h : Recorded schema c earlier part b) {x : Exchange τ}
    {b' : Batch (Logged τ σ)} (hb' : Remembers b') (hlog : b'.world.log = b.world.log ++ [x])
    (hanswer : b'.answer = b.answer) (hx : Justified schema c part x.call) :
    Recorded schema c earlier (part ++ [x]) b' where
  toRemembers := hb'
  log := by rw [hlog, h.log, List.append_assoc]
  justified := h.justified.concat hx
  answer a ha := by
    obtain ⟨hmem, hkey⟩ := h.answer a (hanswer.symm.trans ha)
    exact ⟨List.mem_append_left [x] hmem, hkey⟩

theorem Recorded.call (h : Recorded schema c earlier part b) (call : Call τ)
    {failure : String → UpdateError} {ok : call.Answer → Batch (Logged τ σ) → Prop}
    (hcall : Justified schema c part call) (hnew : ∀ key, call.Puts key → key ∉ b.written)
    (hok : ∀ a w, u.perform call b.world.world = (.ok a, w) →
      ok a { b with world := ⟨w, b.world.log ++ [⟨call, .ok a⟩]⟩ }) :
    Ensures (BatchAction.call (u.logged.perform call) failure) b ok
      (fun _ b' => Stopped schema c earlier b') := by
  rw [ensures_call, u.logged_perform]
  unfold Logged.note
  rcases haction : u.perform call b.world.world with ⟨cause | a, w⟩
  · refine ⟨h.fresh_concat hnew, part ++ [⟨call, .error cause⟩], ?_, h.justified.concat hcall⟩
    rw [h.log, List.append_assoc]
  · exact hok a w haction

theorem Recorded.ask (h : Recorded schema c earlier part b) (call : Call τ)
    {failure : String → UpdateError} {ok : call.Answer → Batch (Logged τ σ) → Prop}
    (hlook : call.write? = none)
    (hok : ∀ a w w', u.perform call w = (.ok a, w') → ∀ b', b'.written = b.written →
      Recorded schema c earlier (part ++ [⟨call, .ok a⟩]) b' → ok a b') :
    Ensures (BatchAction.call (u.logged.perform call) failure) b ok
      (fun _ b' => Stopped schema c earlier b') := by
  have hcall : Justified schema c part call := justified_of_look hlook
  refine h.call call hcall ?_ ?_
  · intro key hkey
    exact absurd hkey (Call.not_puts_of_look hlook key)
  · intro a w hw
    exact hok a b.world.world w hw _ rfl (h.concat (h.look hlook w) rfl rfl hcall)

theorem Recorded.exec_look (h : Recorded schema c earlier part b) {call : Call τ}
    {failure : String → UpdateError} {next : call.Answer → Stage}
    {ok : Stage → Batch (Logged τ σ) → Prop} (hlook : call.write? = none)
    (hok : ∀ a w w', u.perform call w = (.ok a, w') → ∀ b', b'.written = b.written →
      Recorded schema c earlier (part ++ [⟨call, .ok a⟩]) b' → ok (next a) b') :
    (u.logged.exec c (.look call failure next)).Ensures b ok
      (fun _ b' => Stopped schema c earlier b') := by
  rw [Updater.exec_look]
  exact h.ask call hlook hok

/-- The answer about the changed entity, given now or before, stands in the log from then on. -/
theorem Recorded.exec_ask (h : Recorded schema c earlier part b) (hkeyed : u.store.Keyed)
    {next : Option Record → Stage}
    (hnext : ∀ (a : Option Record) (part' : Log τ), ⟨.get c.entityType c.id, .ok a⟩ ∈ part' →
      (∀ r, a = some r → r.key = c.key) → Backed schema c part' b.written (next a)) :
    (u.logged.exec c (.ask next)).Ensures b
      (fun s b' => ∃ part, Recorded schema c earlier part b' ∧ Backed schema c part b'.written s)
      (fun _ b' => Stopped schema c earlier b') := by
  cases ha : b.answer with
  | some a =>
    obtain ⟨hmem, hkey⟩ := h.answer a ha
    rw [Updater.exec_ask_known ha]
    exact ⟨part, h, hnext a part hmem hkey⟩
  | none =>
    rw [Updater.exec_ask_unknown ha]
    refine h.ask (.get c.entityType c.id) rfl ?_
    intro a w w' hw b' hsame hb'
    have hkey : ∀ r, a = some r → r.key = c.key := by
      rintro r rfl
      exact hkeyed.get hw
    have hmem := List.mem_append_right part
      (List.mem_singleton_self (⟨.get c.entityType c.id, .ok a⟩ : Exchange τ))
    refine ⟨_, { hb' with answer := ?_ }, ?_⟩
    · rintro a' ⟨⟩
      exact ⟨hmem, hkey⟩
    · change Backed schema c _ b'.written (next a)
      rw [hsame]
      exact hnext a _ hmem hkey

/-- Writing a document, unless it was put before. -/
theorem Recorded.write (h : Recorded schema c earlier part b) {call : Call τ} {kind : WriteKind}
    {key : DocumentKey} {s : Stage} {ok : Stage → Batch (Logged τ σ) → Prop}
    (hwrite : call.write? = some (kind, key)) (hcall : Justified schema c part call)
    (hnew : kind ≠ .delete → key ∉ b.written)
    (hok : ∀ x b', Recorded schema c earlier (part ++ [x]) b' → ok s b') :
    (u.logged.exec c (.write kind key call s)).Ensures b ok
      (fun _ b' => Stopped schema c earlier b') := by
  have hputs : ∀ key', call.Puts key' → key' ∉ b.written := by
    intro key' hkey
    obtain ⟨hkind, rfl⟩ := hkey.of_write hwrite
    exact hnew hkind
  rw [Updater.exec_write]
  refine h.call call hcall hputs ?_
  intro a w _
  exact hok ⟨call, .ok a⟩ _ (h.concat (h.toRemembers.write hwrite hputs w) rfl rfl hcall)

end Steps

section Changes

variable {schema : Schema} {store : EntityStore σ} (sink : SearchIndex τ σ) (tx : τ) {c : Change}

/-- The acts of a change are justified by the answers to those before, and are remembered. -/
theorem backed_keeps (hstore : store.Keyed) {all : List EntityType}
    (hall : schema.containment.rootsFor c.entityType = some all) (earlier : Log τ)
    {halt : Stage → Bool} :
    (Updater.ofSchema schema store sink).logged.Keeps tx all c halt
      (fun s b => ∃ part, Recorded schema c earlier part b ∧ Backed schema c part b.written s)
      (fun _ b => Stopped schema c earlier b) := by
  rintro s b act - ⟨part, h, hbacked⟩ hact
  cases hact with
  | done => exact ⟨part, h, hbacked⟩
  | unknown => exact h.stopped
  | own he =>
    obtain ⟨root, hroot, hown, rfl⟩ := Schema.root_of_lookup_embeddings he
    exact ⟨part, h, .own hroot hown⟩
  | other he =>
    obtain ⟨root, hroot, -, rfl⟩ := Schema.root_of_lookup_embeddings he
    exact ⟨part, h, .turn hroot⟩
  | removed hkind =>
    cases hbacked with
    | own hroot hown => exact ⟨part, h, .vanished hroot hown (Or.inl hkind)⟩
  | settled =>
    cases hbacked with
    | own hroot hown => exact ⟨part, h, .after hroot _⟩
  | unsettled hkind hnew =>
    cases hbacked with
    | own hroot hown =>
      refine h.exec_ask hstore fun a part' hmem hkey => ?_
      cases a with
      | none => exact .vanished hroot hown (Or.inr hmem)
      | some r => exact .stored hroot hown hkind (hkey r rfl) hnew
  | delete =>
    cases hbacked with
    | vanished hroot hown hreason =>
      have hcall : Justified schema c part (.delete c.entityType all c.id tx) :=
        ⟨rfl, hown ▸ List.mem_map_of_mem hroot, hreason, hall⟩
      exact h.write rfl hcall nofun fun x b' h' => ⟨_, h', .after hroot _⟩
  | index hkind =>
    cases hbacked with
    | stored hroot hown hkind' hkey hnew =>
      refine h.write (Call.write?_index hkey tx) ?_ (fun _ => hnew)
        fun x b' h' => ⟨_, h', .after hroot _⟩
      refine ⟨hkey, ?_, hkind⟩
      rw [(Prod.mk.inj hkey).1, ← hown]
      exact List.mem_map_of_mem hroot
  | update hkind =>
    cases hbacked with
    | stored hroot hown hkind' hkey hnew =>
      refine h.write (Call.write?_update hkey tx) ?_ (fun _ => hnew)
        fun x b' h' => ⟨_, h', .after hroot _⟩
      refine Or.inl ⟨hkey, ?_, ?_⟩
      · rw [(Prod.mk.inj hkey).1, ← hown]
        exact List.mem_map_of_mem hroot
      · cases hk : c.kind with
        | insert => exact absurd hk hkind
        | update => rfl
        | delete => exact absurd hk hkind'
  | gone hkind =>
    cases hbacked with
    | turn hroot => exact ⟨part, h, .refer hroot (Or.inl ⟨hkind, rfl⟩)⟩
  | there hkind =>
    cases hbacked with
    | turn hroot =>
      exact h.exec_ask hstore fun a part' hmem _ => .refer hroot (Or.inr ⟨hkind, hmem⟩)
  | referred hproperty hids =>
    cases hbacked with
    | refer hroot hreason =>
      obtain ⟨t, ht, htype, hreference⟩ := Embedding.exists_of_backReference? hproperty
      obtain ⟨hkind, hmem⟩ := hreason.resolve_left nofun
      refine ⟨part, h, .found hroot fun id hid => ⟨t, ht, htype, Or.inl ?_⟩⟩
      exact ⟨_, _, _, hkind, hreference, hmem, hids, hid⟩
  | unreadable => exact h.stopped
  | unreferred hnone =>
    cases hbacked with
    | refer hroot hreason =>
      refine ⟨part, h, .search hroot ?_⟩
      rcases hreason with ⟨hkind, -⟩ | ⟨-, hmem⟩
      · exact Or.inl hkind
      · rcases hnone with rfl | hproperty
        · exact Or.inr (Or.inl hmem)
        · exact Or.inr (Or.inr (Embedding.unreferred_of_backReference? hproperty))
  | unlocated =>
    cases hbacked with
    | search hroot => exact ⟨part, { h with }, .found hroot nofun⟩
  | located hfields =>
    cases hbacked with
    | @search root rest hroot hreason =>
      obtain ⟨field, fields, hfields⟩ := List.exists_cons_of_ne_nil hfields
      obtain ⟨t, ht, htype, hids⟩ := Embedding.exists_of_idFields hfields
      refine h.exec_look rfl ?_
      intro ids w w' _ b' _ h'
      refine ⟨_, h', .found hroot fun id hid => ⟨t, ht, htype, Or.inr ⟨?_, ids, ?_, hid⟩⟩⟩
      · exact hreason.imp_right (Or.imp (List.mem_append_left _) fun hall => hall t ht htype)
      · rw [hids, ← hfields]
        exact List.mem_append_right part List.mem_cons_self
  | idle => exact ⟨part, h, .serve⟩
  | pending hids =>
    cases hbacked with
    | found hroot hresolves =>
      refine h.exec_look rfl ?_
      intro records w w' hw b' _ h'
      refine ⟨_, h', .load hroot fun r hr => ?_⟩
      obtain ⟨htype, hid⟩ := hstore.getBatch hw r hr
      rw [← hids, mem_firsts] at hid
      exact ⟨htype, (hresolves r.id (List.mem_filter.mp hid).1).append _⟩
  | loaded => exact ⟨part, h, .serve⟩
  | skipped =>
    cases hbacked with
    | load hroot hrecords =>
      exact ⟨part, h, .load hroot fun r hr => hrecords r (List.mem_cons_of_mem _ hr)⟩
  | updated hnew =>
    cases hbacked with
    | load hroot hrecords =>
      obtain ⟨⟨htype, hresolves⟩, hrest⟩ := List.forall_mem_cons.mp hrecords
      have hkey : Record.key _ = (_, _) := Prod.ext htype rfl
      refine h.write (Call.write?_update hkey tx) ?_ (fun _ => hnew) ?_
      · exact Or.inr ⟨_, hroot, htype.symm, hresolves⟩
      · -- What the owners rest on stands in the log still when the next one is put.
        intro x b' h'
        exact ⟨_, h', .load hroot fun r hr => ⟨(hrest r hr).1, (hrest r hr).2.append [x]⟩⟩

/-- A change adds justified calls to the log and puts nothing twice. -/
theorem applyChange_conducts (hstore : store.Keyed) {b : Batch (Logged τ σ)} (hb : Remembers b) :
    ((Updater.ofSchema schema store sink).logged.applyChange tx c).Ensures b
      (fun _ b' => ∃ part, Recorded schema c b.world.log part b')
      (fun _ b' => Stopped schema c b.world.log b') := by
  have hstart : Recorded schema c b.world.log [] { b with answer := none } :=
    { hb with
      log := (List.append_nil _).symm
      justified := Log.throughout_nil
      answer := nofun }
  cases hroots : schema.containment.rootsFor c.entityType with
  | none =>
    rw [Updater.applyChange_of_none hroots]
    exact ⟨hb.fresh, hstart.stopped.log⟩
  | some roots =>
    refine ((backed_keeps sink tx hstore hroots _).applyChange hroots ⟨[], hstart, .serve⟩).mono ?_
      fun _ _ => id
    rintro _ b' ⟨part, h, -⟩
    exact ⟨part, h⟩

end Changes

end OneChange

section WholeBatch

open BatchAction

variable {τ σ : Type} (schema : Schema) {store : EntityStore σ} (sink : SearchIndex τ σ) (tx : τ)

theorem applyAll_remembers (hstore : store.Keyed) (changes : List Change)
    {b : Batch (Logged τ σ)} (hb : Remembers b) :
    ((Updater.ofSchema schema store sink).logged.applyAll tx changes).Ensures b
      (fun counts b' => Remembers b' ∧ counts = b'.counts) (fun _ b' => b'.world.log.Fresh) := by
  induction changes generalizing b with
  | nil => exact ⟨hb, rfl⟩
  | cons c changes ih =>
    rw [Updater.applyAll, ensures_bind]
    refine Ensures.mono (applyChange_conducts sink tx hstore hb) ?_ fun _ _ hstop => hstop.fresh
    rintro _ b₁ ⟨part, h₁⟩
    exact ih h₁.toRemembers

theorem remembers_start (w : σ) : Remembers (Batch.start (⟨w, []⟩ : Logged τ σ)) where
  fresh := Log.throughout_nil
  written := rfl
  counts := rfl

theorem log_fresh (hstore : store.Keyed) (changes : List Change) (w : σ) :
    ((Updater.ofSchema schema store sink).log tx w changes).Fresh := by
  have h := applyAll_remembers schema sink tx hstore changes (remembers_start w)
  exact (h.mono (fun _ _ hend => hend.1.fresh) fun _ _ hfresh => hfresh).run

theorem counts_of_ok (hstore : store.Keyed) (changes : List Change) (w : σ)
    {counts : WriteCounts}
    (hok : ((Updater.ofSchema schema store sink).logged.apply tx changes ⟨w, []⟩).1 = .ok counts) :
    counts = ((Updater.ofSchema schema store sink).log tx w changes).counts := by
  have h := applyAll_remembers schema sink tx hstore changes (remembers_start w)
  obtain ⟨hend, rfl⟩ := h.of_run (Prod.ext hok rfl)
  exact hend.counts

/-- One change more adds calls to the log that it justifies. -/
theorem log_concat (hstore : store.Keyed) (earlier : List Change) (c : Change) (w : σ) :
    let u := Updater.ofSchema schema store sink
    ∃ part, u.log tx w (earlier ++ [c]) = u.log tx w earlier ++ part ∧
      part.Throughout (Justified schema c) := by
  intro u
  have hearlier := applyAll_remembers schema sink tx hstore earlier (remembers_start w)
  refine u.log_concat_of tx w Log.throughout_nil fun counts b hrun => ?_
  obtain ⟨hb, -⟩ := hearlier.of_run hrun
  refine (applyChange_conducts sink tx hstore hb).mono ?_ fun _ _ hstop => hstop.log
  rintro _ b₁ ⟨part, h₁⟩
  exact ⟨part, h₁.log, h₁.justified⟩

/-- Every call of a batch is made for one of its changes. -/
theorem call_justified (hstore : store.Keyed) (changes : List Change) (w : σ) :
    let u := Updater.ofSchema schema store sink
    ∀ before x after, u.log tx w changes = before ++ x :: after →
      ∃ earlier c later part, changes = earlier ++ c :: later ∧
        before = u.log tx w earlier ++ part ∧
        before ++ [x] <+: u.log tx w (earlier ++ [c]) ∧ Justified schema c part x.call := by
  intro u before x after hlog
  induction changes using List.reverseRecOn generalizing after with
  | nil => cases before <;> cases hlog
  | append_singleton changes c ih =>
    obtain ⟨part, hconcat, hpart⟩ := log_concat schema sink tx hstore changes c w
    rcases append_split (hconcat.symm.trans hlog) with ⟨rest, hearlier, -⟩ | ⟨mid, rfl, hmid⟩
    · obtain ⟨earlier, c', later, part', rfl, hcall⟩ := ih rest hearlier
      refine ⟨earlier, c', later ++ [c], part', ?_, hcall⟩
      rw [List.append_assoc, List.cons_append]
    · refine ⟨changes, c, [], mid, rfl, rfl, ⟨after, ?_⟩, hpart mid x after hmid⟩
      rw [hlog, List.append_assoc]
      rfl

/-- Between two calls that put a document stands one that deletes it, however the batch ends. When
it goes through, it returns how many calls of each kind it made. -/
theorem document_put_once (hstore : store.Keyed) (changes : List Change) (w : σ) :
    let run := (Updater.ofSchema schema store sink).traced.apply tx changes ⟨w, []⟩
    (∀ key before x between y after,
      run.2.world.calls = before ++ x :: between ++ y :: after → x.Puts key → y.Puts key →
        ∃ d ∈ between, d.Deletes key) ∧
    ∀ counts, run.1 = .ok counts →
      counts.indexed = run.2.world.calls.countP (fun call => call.kind? = some .index) ∧
      counts.updated = run.2.world.calls.countP (fun call => call.kind? = some .update) ∧
      counts.deleted = run.2.world.calls.countP (fun call => call.kind? = some .delete) := by
  intro run
  have hcalls : run.2.world.calls = _ := Updater.traced_calls _ tx changes w
  constructor
  · intro key before x between y after hsplit hx hy
    rw [hcalls] at hsplit
    obtain ⟨_, _, hlog, hfirst, hsecond⟩ := List.map_eq_append_iff.mp hsplit
    obtain ⟨before, _, rfl, rfl, hrest⟩ := List.map_eq_append_iff.mp hfirst
    obtain ⟨x, between, rfl, rfl, rfl⟩ := List.map_eq_cons_iff.mp hrest
    obtain ⟨y, after, rfl, rfl, rfl⟩ := List.map_eq_cons_iff.mp hsecond
    have hfresh := log_fresh schema sink tx hstore changes w
    obtain ⟨d, hd, hdelete⟩ := hfresh.deleted_between hlog hx hy
    exact ⟨d.call, List.mem_map_of_mem hd, hdelete⟩
  · intro counts hok
    have hok : _ = Except.ok counts := (Updater.traced_outcome _ tx changes w).symm.trans hok
    obtain rfl := counts_of_ok schema sink tx hstore changes w hok
    rw [hcalls]
    simp only [List.countP_map]
    exact ⟨rfl, rfl, rfl⟩

namespace Sample

def recreation : List Change :=
  [⟨sorcerer, .int 2, .insert⟩, ⟨sorcerer, .int 2, .delete⟩, ⟨sorcerer, .int 2, .insert⟩]

end Sample

/-- His document is put twice, the tower's once. -/
theorem document_put_once_recreation :
    let run := (Updater.ofSchema Sample.schema Sample.entities.store
      (Documents.sink fun _ _ _ _ => [.int 1])).traced.apply () Sample.recreation ⟨∅, []⟩
    (∃ before x between y after, run.2.world.calls = before ++ x :: between ++ y :: after ∧
      x.Puts Sample.merlin.key ∧ y.Puts Sample.merlin.key ∧
      ∃ d ∈ between, d.Deletes Sample.merlin.key) ∧
    run.1 = .ok ⟨2, 1, 1⟩ ∧
    run.2.world.calls.countP (fun call => call.kind? = some .index) = 2 := by
  have hresult := document_put_once Sample.schema (Documents.sink fun _ _ _ _ => [.int 1]) ()
    Sample.entities.keyed_store Sample.recreation ∅
  have hok : ((Updater.ofSchema Sample.schema Sample.entities.store
      (Documents.sink fun _ _ _ _ => [.int 1])).traced.apply () Sample.recreation ⟨∅, []⟩).1 =
      .ok ⟨2, 1, 1⟩ := by decide +kernel
  have hwrites : ((Updater.ofSchema Sample.schema Sample.entities.store
      (Documents.sink fun _ _ _ _ => [.int 1])).traced.apply () Sample.recreation
        ⟨∅, []⟩).2.world.calls.map Call.write? =
      [none] ++ some (.index, Sample.merlin.key) ::
        [none, some (.update, Sample.tower.key), some (.delete, Sample.merlin.key), none, none] ++
        some (.index, Sample.merlin.key) :: [] := by decide +kernel
  generalize (Updater.ofSchema Sample.schema Sample.entities.store
    (Documents.sink fun _ _ _ _ => [.int 1])).traced.apply () Sample.recreation ⟨∅, []⟩ = run
    at hresult hok hwrites ⊢
  obtain ⟨hbetween, hcounts⟩ := hresult
  obtain ⟨_, _, hcalls, hfirst, hsecond⟩ := List.map_eq_append_iff.mp hwrites
  obtain ⟨before, _, rfl, -, hrest⟩ := List.map_eq_append_iff.mp hfirst
  obtain ⟨x, between, rfl, hx, -⟩ := List.map_eq_cons_iff.mp hrest
  obtain ⟨y, after, rfl, hy, -⟩ := List.map_eq_cons_iff.mp hsecond
  refine ⟨⟨before, x, between, y, after, hcalls, Or.inl hx, Or.inl hy, ?_⟩, hok, ?_⟩
  · exact hbetween _ before x between y after hcalls (Or.inl hx) (Or.inl hy)
  · exact (hcounts _ hok).1.symm

/-- The document is that of a root among the changes, or the answers about one of the changes name
it. -/
def Updater.Reaches (schema : Schema) (u : Updater τ σ) (tx : τ) (w : σ) (changes : List Change)
    (key : DocumentKey) : Prop :=
  ∃ earlier c later, changes = earlier ++ c :: later ∧
    ((key = c.key ∧ key.1 ∈ schema.rootTypes) ∨
      ∃ part, u.log tx w earlier ++ part <+: u.log tx w (earlier ++ [c]) ∧
        ∃ root ∈ schema.roots, root.entityType = key.1 ∧ Resolves root c part key.2)

/-- Every write is justified by a change and the answers about it. So changes of entities that are
no roots do no more than update, and what no change reaches is left as it was. -/
theorem writes_justified (hstore : store.Keyed) (changes : List Change) (w : σ) :
    let u := Updater.ofSchema schema store sink
    (∀ before x after, u.log tx w changes = before ++ x :: after →
      ∃ earlier c later part, changes = earlier ++ c :: later ∧
        before = u.log tx w earlier ++ part ∧
        before ++ [x] <+: u.log tx w (earlier ++ [c]) ∧ Justified schema c part x.call) ∧
    (∀ earlier c later, changes = earlier ++ c :: later → c.entityType ∉ schema.rootTypes →
      ∀ part, u.log tx w (earlier ++ [c]) = u.log tx w earlier ++ part →
        ∀ x ∈ part, ∀ kind, x.call.kind? = some kind → kind = .update) ∧
    ∀ key, ¬u.Reaches schema tx w changes key →
      (∀ x ∈ u.log tx w changes, ∀ kind, x.call.write? ≠ some (kind, key)) ∧
      ∀ docs, u.Confined docs →
        (docs (u.apply tx changes w).2.world).lookup key = (docs w).lookup key := by
  intro u
  have hcalls := call_justified schema sink tx hstore changes w
  refine ⟨hcalls, ?_, ?_⟩
  · rintro earlier c later - hroot part hpart x hx kind hkind
    obtain ⟨part', hconcat, hjustified⟩ := log_concat schema sink tx hstore earlier c w
    obtain rfl := List.append_cancel_left (hpart.symm.trans hconcat)
    obtain ⟨before, after, hsplit⟩ := List.append_of_mem hx
    obtain ⟨⟨_, key⟩, hwrite, rfl⟩ := Option.map_eq_some_iff.mp hkind
    rcases (hjustified before x after hsplit).write hwrite with ⟨rfl, hmem⟩ | ⟨hupdate, -⟩
    · exact absurd hmem hroot
    · exact hupdate
  · intro key hkey
    have hunwritten : ∀ x ∈ u.log tx w changes, ∀ kind, x.call.write? ≠ some (kind, key) := by
      intro x hx kind hwrite
      obtain ⟨before, after, hlog⟩ := List.append_of_mem hx
      obtain ⟨earlier, c, later, part, rfl, rfl, hprefix, hcall⟩ := hcalls before x after hlog
      refine hkey ⟨earlier, c, later, rfl, (hcall.write hwrite).imp_right ?_⟩
      rintro ⟨-, hresolved⟩
      exact ⟨part, (List.prefix_append _ [x]).trans hprefix, hresolved⟩
    exact ⟨hunwritten, fun docs hdocs => Updater.lookup_of_unwritten hdocs hunwritten⟩

namespace Sample

/-- Only places are documents. -/
def places : Schema := ⟨[⟨place, "id", .int64, [⟨sorcerer, ["sorcerers.id"], some "placeId"⟩]⟩]⟩

/-- A sorcerer changes, and his tower falls. -/
def fall : List Change := [⟨sorcerer, .int 2, .update⟩, ⟨place, .int 1, .delete⟩]

end Sample

theorem writes_justified_fall :
    let u : Updater Unit Documents := .ofSnapshot Sample.places Sample.entities fun _ _ _ _ => []
    (∃ before x after, u.log () ∅ Sample.fall = before ++ x :: after ∧
      x.call.write? = some (.update, Sample.tower.key) ∧
      ∃ earlier c later part, Sample.fall = earlier ++ c :: later ∧
        before = u.log () ∅ earlier ++ part ∧ Justified Sample.places c part x.call) ∧
    (∀ x ∈ u.log () ∅ [⟨Sample.sorcerer, .int 2, .update⟩], ∀ kind, x.call.kind? = some kind →
      kind = .update) ∧
    (u.apply () Sample.fall ∅).2.world.lookup Sample.merlin.key = none := by
  intro u
  obtain ⟨hcalls, hembedded, huntouched⟩ := writes_justified Sample.places
    (Documents.sink fun _ _ _ _ => []) () Sample.entities.keyed_store Sample.fall ∅
  have hwrites : (u.log () ∅ Sample.fall).map (fun x => x.call.write?) =
      [none, none] ++ some (.update, Sample.tower.key) ::
        [some (.delete, Sample.tower.key)] := by decide +kernel
  have hroot : Sample.sorcerer ∉ Sample.places.rootTypes := by decide
  refine ⟨?_, ?_, ?_⟩
  · obtain ⟨before, _, hlog, -, hrest⟩ := List.map_eq_append_iff.mp hwrites
    obtain ⟨x, after, rfl, hx, -⟩ := List.map_eq_cons_iff.mp hrest
    obtain ⟨earlier, c, later, part, hchanges, hbefore, -, hcall⟩ := hcalls before x after hlog
    exact ⟨before, x, after, hlog, hx, earlier, c, later, part, hchanges, hbefore, hcall⟩
  · exact hembedded [] ⟨Sample.sorcerer, .int 2, .update⟩ _ rfl hroot _ rfl
  · refine (huntouched Sample.merlin.key ?_).2 _ (Updater.confined_documents _ _ _)
    rintro ⟨_, c, _, -, ⟨-, hmem⟩ | ⟨_, -, root, hmem, htype, -⟩⟩
    · exact hroot hmem
    · exact hroot (List.mem_map.mpr ⟨root, hmem, htype⟩)

end WholeBatch

end SearchSync
