import SearchSync.Proofs.Sync.Course
import SearchSync.Proofs.Sync.Effect

/-!
# Updating is replaying

An action realizes effects when it does to the documents what replaying the effects does. Whatever
the updater leaves out, a batch over faithful collaborators realizes the effects of its changes.
What makes it possible to leave writes out is that the memory of a batch is true: a document
remembered as written holds the record of its root as it stands. Where calls may fail, a batch that
is cut short leaves each document on the way.
-/

namespace SearchSync

open BatchAction

variable {τ σ α β : Type} {entities : Snapshot} {find : Lookup} {docs : σ → Documents}
  {fallible : Prop}

/-- The documents remembered as written hold the records as they stand. -/
def Truthful (entities : Snapshot) (docs : σ → Documents) (b : Batch σ) : Prop :=
  ∀ key ∈ b.written, ∃ r, entities.find? key = some r ∧ (docs b.world).lookup key = some r

/-- The memory of a batch while it applies the change `c`. -/
structure AtWork (entities : Snapshot) (docs : σ → Documents) (c : Change) (b : Batch σ) :
    Prop where
  truthful : Truthful entities docs b
  answer : ∀ a, b.answer = some a → a = entities.find? c.key

/-- The action does what replaying the effects does, and keeps `P`. -/
def Realizes (entities : Snapshot) (find : Lookup) (docs : σ → Documents) (fallible : Prop)
    (P : Batch σ → Prop) (x : BatchAction σ α) (effs : List Effect) : Prop :=
  ∀ b, P b → x.Ensures b
    (fun _ b' => P b' ∧ replay entities find effs (docs b.world) = (.ok (), docs b'.world))
    (fun e b' => replay entities find effs (docs b.world) = (.error e, docs b'.world) ∨
      fallible ∧ Midway entities find effs (docs b.world) (docs b'.world))

theorem Midway.append_right {xs : List Effect} {d d' : Documents}
    (h : Midway entities find xs d d') (ys : List Effect) :
    Midway entities find (xs ++ ys) d d' := by
  intro key
  obtain ⟨done, hdone, hkey⟩ := h key
  exact ⟨done, hdone.trans (List.prefix_append xs ys), hkey⟩

theorem Midway.append_left {xs ys : List Effect} {d₀ d d' : Documents}
    (h₀ : replay entities find xs d₀ = (.ok (), d)) (h : Midway entities find ys d d') :
    Midway entities find (xs ++ ys) d₀ d' := by
  intro key
  obtain ⟨done, hdone, hkey⟩ := h key
  refine ⟨xs ++ done, (List.prefix_append_right_inj xs).mpr hdone, ?_⟩
  rw [hkey, replay_append_ok h₀]

section Composition

variable {P : Batch σ → Prop} {xs ys : List Effect}

theorem Realizes.throw {type : EntityType} {reason : Unresolved} (ys : List Effect) :
    Realizes entities find docs fallible P
      (throw (.unresolved type reason) : BatchAction σ α) (.stop type reason :: ys) :=
  fun _ _ => Or.inl rfl

theorem Realizes.bind {x : BatchAction σ α} {f : α → BatchAction σ β}
    (hx : Realizes entities find docs fallible P x xs)
    (hf : ∀ a, Realizes entities find docs fallible P (f a) ys) :
    Realizes entities find docs fallible P (x >>= f) (xs ++ ys) := by
  intro b hb
  rw [ensures_bind]
  refine (hx b hb).mono ?_ ?_
  · rintro a b₁ ⟨hb₁, hxs⟩
    refine (hf a b₁ hb₁).mono ?_ ?_
    · rintro _ b₂ ⟨hb₂, hys⟩
      exact ⟨hb₂, by rw [replay_append_ok hxs, hys]⟩
    · rintro e b₂ (hys | ⟨hfall, hys⟩)
      · exact Or.inl (by rw [replay_append_ok hxs, hys])
      · exact Or.inr ⟨hfall, hys.append_left hxs⟩
  · rintro e b₁ (hxs | ⟨hfall, hxs⟩)
    · exact Or.inl (replay_append_error hxs)
    · exact Or.inr ⟨hfall, hxs.append_right ys⟩

end Composition

theorem Acts.ensures {action : σ → Except String α × σ} {answer : Documents → α}
    {effect : Documents → Documents} {failure : String → UpdateError} {b : Batch σ}
    {ok : α → Batch σ → Prop} {failed : UpdateError → Batch σ → Prop}
    (h : Acts docs fallible action answer effect)
    (hok : ∀ w, docs w = effect (docs b.world) →
      ok (answer (docs b.world)) { b with world := w })
    (hfailed : ∀ cause w, fallible → docs w = docs b.world →
      failed (failure cause) { b with world := w }) :
    Ensures (call action failure) b ok failed := by
  rw [ensures_call]
  rcases hw : action b.world with ⟨cause | a, w⟩
  · obtain ⟨hfall, hd⟩ := h.fails hw
    exact hfailed cause w hfall hd
  · obtain ⟨rfl, hd⟩ := h.succeeds hw
    exact hok w hd

section Memory

variable {c : Change} {b : Batch σ}

theorem AtWork.look (hb : AtWork entities docs c b) {w : σ} (hw : docs w = docs b.world) :
    AtWork entities docs c { b with world := w } where
  truthful key hkey := by
    rw [hw]
    exact hb.truthful key hkey
  answer := hb.answer

theorem AtWork.put (hb : AtWork entities docs c b) {key : DocumentKey} {r : Record}
    (hr : entities.find? key = some r) {w : σ}
    (hw : docs w = Finmap.insert key r (docs b.world)) {kind : WriteKind} (hkind : kind ≠ .delete) :
    AtWork entities docs c (Batch.afterWrite kind key.1 key.2 { b with world := w }) where
  truthful k hk := by
    have hk : k = key ∨ k ∈ b.written := by
      cases kind with
      | index | update => exact List.mem_cons.mp hk
      | delete => exact absurd rfl hkind
    change ∃ r', entities.find? k = some r' ∧ (docs w).lookup k = some r'
    rw [hw]
    by_cases hkey : k = key
    · subst k
      exact ⟨r, hr, Finmap.lookup_insert _⟩
    · rw [Finmap.lookup_insert_of_ne _ hkey]
      exact hb.truthful k (hk.resolve_left hkey)
  answer := hb.answer

theorem AtWork.erase (hb : AtWork entities docs c b) {key : DocumentKey} {w : σ}
    (hw : docs w = Finmap.erase key (docs b.world)) :
    AtWork entities docs c (Batch.afterWrite .delete key.1 key.2 { b with world := w }) where
  truthful k hk := by
    obtain ⟨hmem, hne⟩ := List.mem_filter.mp hk
    change ∃ r, entities.find? k = some r ∧ (docs w).lookup k = some r
    rw [hw, Finmap.lookup_erase_ne (of_decide_eq_true hne)]
    exact hb.truthful k hmem
  answer := hb.answer

end Memory

theorem mem_firsts {ids : List EntityId} {id : EntityId} :
    id ∈ Updater.firsts ids ↔ id ∈ ids := by
  induction ids with
  | nil => rfl
  | cons a ids ih =>
    simp only [Updater.firsts, List.mem_cons, List.mem_filter, decide_eq_true_eq, ih]
    tauto

/-- While records are being written, each document is as it was or as it is to be, and as it is to
be unless its record is still to come. -/
structure Rewriting (entities : Snapshot) (root : EntityType) (records : List Record)
    (old new now : Documents) : Prop where
  pending : ∀ r ∈ records,
    entities.find? (root, r.id) = some r ∧ new.lookup (root, r.id) = some r
  between : ∀ key, now.lookup key = old.lookup key ∨ now.lookup key = new.lookup key
  done : ∀ key, (∀ r ∈ records, (root, r.id) ≠ key) → now.lookup key = new.lookup key

section Rewriting

variable {root : EntityType} {r : Record} {records : List Record} {old new now : Documents}

/-- Nothing has to be written but the documents not yet written, since the others hold their
records. -/
theorem Truthful.rewriting {b : Batch σ} (h : Truthful entities docs b) (root : EntityType)
    (ids : List EntityId) :
    Rewriting entities root
      ((Updater.firsts (ids.filter fun id => !b.written.contains (root, id))).filterMap fun id =>
        entities.find? (root, id))
      (docs b.world) ((docs b.world).rewriteAll entities root ids) (docs b.world) where
  pending r hr := by
    obtain ⟨id, hid, hfind⟩ := List.mem_filterMap.mp hr
    obtain rfl : r.id = id := (Prod.mk.inj (entities.key_of_find? hfind)).2
    have hmem := (List.mem_filter.mp (mem_firsts.mp hid)).1
    rw [Documents.lookup_rewriteAll, if_pos ⟨rfl, hmem⟩, hfind]
    exact ⟨rfl, rfl⟩
  between key := Or.inl rfl
  done key hkey := by
    rw [Documents.lookup_rewriteAll]
    split
    · rename_i hin
      obtain ⟨rfl, hid⟩ := hin
      cases hfind : entities.find? key with
      | none => rfl
      | some r =>
        by_cases hwritten : key ∈ b.written
        · obtain ⟨r', hr', hlookup⟩ := h key hwritten
          obtain rfl := Option.some.inj (hfind.symm.trans hr')
          exact hlookup
        · have hnew : key.2 ∈ ids.filter fun id => !b.written.contains (key.1, id) := by
            simpa [hid] using hwritten
          have hmem := List.mem_filterMap (f := fun id => entities.find? (key.1, id)).mpr
            ⟨key.2, mem_firsts.mpr hnew, hfind⟩
          have hid : r.id = key.2 := (Prod.mk.inj (entities.key_of_find? hfind)).2
          exact absurd (by rw [hid]) (hkey r hmem)
    · rfl

theorem Rewriting.eq (h : Rewriting entities root [] old new now) : now = new :=
  Finmap.ext_lookup fun key => h.done key nofun

theorem Rewriting.skip (h : Rewriting entities root (r :: records) old new now)
    (hnow : now.lookup (root, r.id) = some r) : Rewriting entities root records old new now where
  pending r' hr' := h.pending r' (List.mem_cons_of_mem r hr')
  between := h.between
  done key hkey := by
    by_cases hr : (root, r.id) = key
    · rw [← hr, hnow, (h.pending r List.mem_cons_self).2]
    · exact h.done key (List.forall_mem_cons.mpr ⟨hr, hkey⟩)

theorem Rewriting.put (h : Rewriting entities root (r :: records) old new now) :
    Rewriting entities root records old new (Finmap.insert (root, r.id) r now) where
  pending r' hr' := h.pending r' (List.mem_cons_of_mem r hr')
  between key := by
    by_cases hr : key = (root, r.id)
    · rw [hr, Finmap.lookup_insert, (h.pending r List.mem_cons_self).2]
      exact Or.inr rfl
    · rw [Finmap.lookup_insert_of_ne _ hr]
      exact h.between key
  done key hkey := by
    by_cases hr : key = (root, r.id)
    · rw [hr, Finmap.lookup_insert, (h.pending r List.mem_cons_self).2]
    · rw [Finmap.lookup_insert_of_ne _ hr]
      exact h.done key (List.forall_mem_cons.mpr ⟨Ne.symm hr, hkey⟩)

end Rewriting

section Stages

variable (schema : Schema) (c : Change)

/-- The effects of a change that are left at a stage. -/
def Schema.left : Stage → List Effect
  | .serve rest => rest.flatMap (schema.effectsOn c)
  | .own e rest | .settle e _ rest => .own c ::
      ((if e.embeds c.entityType then [.owners c e] else []) ++ rest.flatMap (schema.effectsOn c))
  | .turn e rest | .refer e _ rest | .search e rest | .found e _ rest | .load e _ rest =>
    .owners c e :: rest.flatMap (schema.effectsOn c)

variable {schema c}

theorem Schema.left_own {e : Embedding} {rest : List EntityType}
    (he : schema.embeddings.lookup c.entityType = some e) :
    schema.left c (.serve (c.entityType :: rest)) = schema.left c (.own e rest) := by
  simp [Schema.left, Schema.effectsOn_of_some he]

theorem Schema.left_turn {root : EntityType} {e : Embedding} {rest : List EntityType}
    (he : schema.embeddings.lookup root = some e) (hroot : root ≠ c.entityType) :
    schema.left c (.serve (root :: rest)) = schema.left c (.turn e rest) := by
  simp [Schema.left, Schema.effectsOn_of_some he, hroot]

theorem Schema.left_after (e : Embedding) (rest : List EntityType) :
    schema.left c (.own e rest) = .own c :: schema.left c (.after c e rest) := by
  unfold Stage.after
  by_cases hembeds : e.embeds c.entityType = true
  · simp [Schema.left, hembeds]
  · simp [Schema.left, hembeds]

/-- How the documents stand at a stage, where `d` are those that the finished effects leave. -/
def Stands (entities : Snapshot) (find : Lookup) (c : Change) (d : Documents) :
    Stage → Documents → Prop
  | .serve _, now | .own _ _, now | .turn _ _, now => now = d
  | .settle _ entity _, now | .refer _ entity _, now =>
    now = d ∧ entity = entities.remains? c
  | .search e _, now => now = d ∧ entities.reference? c e = none
  | .found e ids _, now =>
    now = d ∧ (Effect.owners c e).obstacle? entities = none ∧ ids = entities.owners find c e d
  | .load e records _, now => (Effect.owners c e).obstacle? entities = none ∧
    Rewriting entities e.root records d ((Effect.owners c e).apply entities find d) now

theorem stands_after {e : Embedding} {rest : List EntityType} {d now : Documents} :
    Stands entities find c d (.after c e rest) now ↔ now = d := by
  unfold Stage.after
  split <;> rfl

/-- The change has come to the stage, and the effects left there are what is left of `effs`. -/
structure Underway (entities : Snapshot) (find : Lookup) (docs : σ → Documents) (schema : Schema)
    (c : Change) (effs : List Effect) (start : Documents) (s : Stage) (b : Batch σ) : Prop where
  memory : AtWork entities docs c b
  progress : ∃ done d, effs = done ++ schema.left c s ∧
    replay entities find done start = (.ok (), d) ∧ Stands entities find c d s (docs b.world)

/-- The replay stops there as well, or a call failed and each document is on the way. -/
def Falls (entities : Snapshot) (find : Lookup) (docs : σ → Documents) (fallible : Prop)
    (effs : List Effect) (start : Documents) (e : UpdateError) (b : Batch σ) : Prop :=
  replay entities find effs start = (.error e, docs b.world) ∨
    fallible ∧ Midway entities find effs start (docs b.world)

variable {effs : List Effect} {start : Documents} {s : Stage} {b : Batch σ}

theorem Underway.stop (h : Underway entities find docs schema c effs start s b) {eff : Effect}
    {rest : List Effect} {e : UpdateError} (hleft : schema.left c s = eff :: rest)
    (heff : eff.obstacle? entities = some e)
    (hnow : ∀ d now, Stands entities find c d s now → now = d) :
    Falls entities find docs fallible effs start e b := by
  obtain ⟨done, d, heffs, hdone, hstands⟩ := h.progress
  left
  rw [heffs, replay_append_ok hdone, hleft, replay_cons_obstacle heff, hnow d _ hstands]

theorem Underway.fall (h : Underway entities find docs schema c effs start s b) (hfall : fallible)
    {w : σ} (hw : docs w = docs b.world) (e : UpdateError) :
    Falls entities find docs fallible effs start e { b with world := w } := by
  refine Or.inr ⟨hfall, fun key => ?_⟩
  obtain ⟨done, d, heffs, hdone, hstands⟩ := h.progress
  change ∃ _, _ ∧ (docs w).lookup key = _
  rw [hw, heffs]
  have hcome (hkey : (docs b.world).lookup key = d.lookup key) :
      ∃ part, part <+: done ++ schema.left c s ∧
        (docs b.world).lookup key = (replay entities find part start).2.lookup key :=
    ⟨done, List.prefix_append done _, by rw [hkey, hdone]⟩
  cases s with
  | serve | own | turn => exact hcome (by rw [hstands])
  | settle | refer | search | found => exact hcome (by rw [hstands.1])
  | load e records rest =>
    obtain ⟨ho, hrewriting⟩ := hstands
    rcases hrewriting.between key with hkey | hkey
    · exact hcome hkey
    · refine ⟨done ++ [.owners c e], ?_, ?_⟩
      · exact (List.prefix_append_right_inj done).mpr (List.prefix_append [_] _)
      · rw [hkey, replay_append_ok hdone, replay_cons ho]
        rfl

theorem Underway.go (h : Underway entities find docs schema c effs start s b) {s' : Stage}
    {b' : Batch σ} (hleft : schema.left c s' = schema.left c s) (hb' : AtWork entities docs c b')
    (hnext : ∀ d, Stands entities find c d s (docs b.world) →
      Stands entities find c d s' (docs b'.world)) :
    Underway entities find docs schema c effs start s' b' := by
  obtain ⟨done, d, heffs, hdone, hstands⟩ := h.progress
  exact ⟨hb', done, d, by rw [heffs, hleft], hdone, hnext d hstands⟩

/-- The first of the effects that are left has been carried out. -/
theorem Underway.finish (h : Underway entities find docs schema c effs start s b) {s' : Stage}
    {b' : Batch σ} {eff : Effect} (hleft : schema.left c s = eff :: schema.left c s')
    (hb' : AtWork entities docs c b')
    (hnext : ∀ d, Stands entities find c d s (docs b.world) → eff.obstacle? entities = none ∧
      Stands entities find c (eff.apply entities find d) s' (docs b'.world)) :
    Underway entities find docs schema c effs start s' b' := by
  obtain ⟨done, d, heffs, hdone, hstands⟩ := h.progress
  obtain ⟨hfree, hnow⟩ := hnext d hstands
  refine ⟨hb', done ++ [eff], _, ?_, ?_, hnow⟩
  · rw [heffs, hleft, List.append_assoc]
    rfl
  · rw [replay_append_ok hdone, replay_cons hfree]
    rfl

variable {u : Updater τ σ}

theorem Underway.exec_look (h : Underway entities find docs schema c effs start s b)
    {call : Call τ} {failure : String → UpdateError} {next : call.Answer → Stage}
    {answer : Documents → call.Answer}
    (hcall : Acts docs fallible (u.perform call) answer fun docs => docs)
    (hnext : ∀ w, docs w = docs b.world → Underway entities find docs schema c effs start
      (next (answer (docs b.world))) { b with world := w }) :
    (u.exec c (.look call failure next)).Ensures b
      (Underway entities find docs schema c effs start)
      (Falls entities find docs fallible effs start) := by
  rw [Updater.exec_look]
  exact hcall.ensures hnext fun _ _ hfall hw => h.fall hfall hw _

theorem Underway.exec_write (h : Underway entities find docs schema c effs start s b)
    {call : Call τ} {kind : WriteKind} {key : DocumentKey} {next : Stage}
    {answer : Documents → call.Answer} {effect : Documents → Documents}
    (hcall : Acts docs fallible (u.perform call) answer effect)
    (hnext : ∀ w, docs w = effect (docs b.world) → Underway entities find docs schema c effs start
      next (Batch.afterWrite kind key.1 key.2 { b with world := w })) :
    (u.exec c (.write kind key call next)).Ensures b
      (Underway entities find docs schema c effs start)
      (Falls entities find docs fallible effs start) := by
  rw [Updater.exec_write]
  exact hcall.ensures hnext fun _ _ hfall hw => h.fall hfall hw _

/-- The store is asked about the entity, unless its answer is known. -/
theorem Underway.exec_ask (h : Underway entities find docs schema c effs start s b)
    {next : Option Record → Stage}
    (hget : Acts docs fallible (u.perform (.get c.entityType c.id))
      (fun _ => entities.find? c.key) fun docs => docs)
    (hleft : schema.left c (next (entities.find? c.key)) = schema.left c s)
    (hnext : ∀ d now, Stands entities find c d s now →
      Stands entities find c d (next (entities.find? c.key)) now) :
    (u.exec c (.ask next)).Ensures b (Underway entities find docs schema c effs start)
      (Falls entities find docs fallible effs start) := by
  cases ha : b.answer with
  | some a =>
    obtain rfl := h.memory.answer a ha
    rw [Updater.exec_ask_known ha]
    exact h.go hleft h.memory fun d => hnext d _
  | none =>
    rw [Updater.exec_ask_unknown ha]
    refine hget.ensures (fun w hw => ?_) fun _ _ hfall hw => h.fall hfall hw _
    refine h.go hleft ⟨(h.memory.look hw).truthful, ?_⟩ fun d hstands => ?_
    · rintro a ⟨⟩
      rfl
    · change Stands entities find c d _ (docs w)
      rw [hw]
      exact hnext d _ hstands

/-- What remains of the changed root is put. -/
theorem Underway.exec_put {e : Embedding} {r : Record} {rest : List EntityType}
    (h : Underway entities find docs schema c effs start (.settle e (some r) rest) b)
    {call : Call τ} {kind : WriteKind} {answer : Documents → call.Answer}
    (hcall : Acts docs fallible (u.perform call) answer (Finmap.insert r.key r))
    (hkind : kind ≠ .delete) :
    (u.exec c (.write kind c.key call (.after c e rest))).Ensures b
      (Underway entities find docs schema c effs start)
      (Falls entities find docs fallible effs start) := by
  obtain ⟨_, _, -, -, -, hstays⟩ := h.progress
  have hr := (Snapshot.remains?_eq_some_iff.mp hstays.symm).2
  refine h.exec_write hcall fun w hw => ?_
  rw [entities.key_of_find? hr] at hw
  refine h.finish (Schema.left_after e rest) (h.memory.put hr hw hkind) ?_
  rintro d ⟨hd, -⟩
  refine ⟨rfl, stands_after.mpr ?_⟩
  change docs w = _
  rw [hw, hd, Effect.apply, ← hstays]

end Stages

section Batches

variable (schema : Schema) {store : EntityStore σ} {sink : SearchIndex τ σ}

/-- From stage to stage, a change does what replaying its effects does. -/
theorem underway_keeps (hf : Faithful store sink entities find docs fallible) (tx : τ)
    (all : List EntityType) (c : Change) (effs : List Effect) (start : Documents)
    {halt : Stage → Bool} :
    (Updater.ofSchema schema store sink).Keeps tx all c halt
      (Underway entities find docs schema c effs start)
      (Falls entities find docs fallible effs start) := by
  intro s b act _ h hact
  have hmemory := h.memory
  have hget := hf.get c.entityType c.id
  cases hact with
  | done => exact h
  | @unknown root rest he =>
    have hleft : schema.left c (.serve (root :: rest)) =
        .stop root .noEmbedding :: schema.left c (.serve rest) := by
      rw [Schema.left, List.flatMap_cons, Schema.effectsOn_of_none he]
      rfl
    exact h.stop hleft rfl fun _ _ => id
  | own he => exact h.go (Schema.left_own he).symm hmemory fun _ => id
  | other he hroot => exact h.go (Schema.left_turn he hroot).symm hmemory fun _ => id
  | removed hkind => exact h.go rfl hmemory fun _ hd => ⟨hd, (if_pos hkind).symm⟩
  | @settled e rest hkind hwritten =>
    -- The document was written before, so writing it would change nothing.
    refine h.finish (Schema.left_after e rest) hmemory fun d hd => ⟨rfl, ?_⟩
    obtain ⟨r, hr, hlookup⟩ := hmemory.truthful c.key hwritten
    have hstays : entities.remains? c = some r := (if_neg hkind).trans hr
    have happly : (Effect.own c).apply entities find d = d := by
      rw [Effect.apply, hstays]
      rw [hd] at hlookup
      exact Documents.insert_of_lookup hlookup
    rw [happly]
    exact stands_after.mpr hd
  | unsettled hkind hnew => exact h.exec_ask hget rfl fun _ _ hd => ⟨hd, (if_neg hkind).symm⟩
  | @delete e rest =>
    refine h.exec_write (hf.delete c.entityType all c.id tx) fun w hw => ?_
    refine h.finish (Schema.left_after e rest) (hmemory.erase hw) ?_
    rintro d ⟨hd, hgone⟩
    refine ⟨rfl, stands_after.mpr ?_⟩
    change docs w = _
    rw [hw, hd, Effect.apply, ← hgone]
    rfl
  | @index e r rest hkind => exact h.exec_put (hf.index r tx) (by decide)
  | @update e r rest hkind => exact h.exec_put (hf.update r tx) (by decide)
  | gone hkind => exact h.go rfl hmemory fun _ hd => ⟨hd, (if_pos hkind).symm⟩
  | there hkind => exact h.exec_ask hget rfl fun _ _ hd => ⟨hd, (if_neg hkind).symm⟩
  | @referred e r property ids rest hproperty hids =>
    refine h.go rfl hmemory ?_
    rintro d ⟨hd, hr⟩
    have href : entities.reference? c e = some (some ids) := by
      simp only [Snapshot.reference?, ← hr, hproperty, hids]
    refine ⟨hd, ?_, ?_⟩
    · simp only [Effect.obstacle?, href]
    · simp only [Snapshot.owners, href, Option.getD_some]
  | @unreadable e r property rest hproperty hids =>
    obtain ⟨_, _, -, -, -, hr⟩ := h.progress
    have href : entities.reference? c e = some none := by
      simp only [Snapshot.reference?, ← hr, hproperty, hids]
    have hleft : schema.left c (.refer e (some r) rest) =
        .owners c e :: schema.left c (.serve rest) := rfl
    refine h.stop hleft ?_ fun _ _ => And.left
    simp only [Effect.obstacle?, href]
  | @unreferred e entity rest hnone =>
    refine h.go rfl hmemory ?_
    rintro d ⟨hd, hentity⟩
    refine ⟨hd, ?_⟩
    unfold Snapshot.reference?
    rw [← hentity]
    rcases hnone with rfl | hproperty
    · rfl
    · rw [hproperty]
      split <;> rename_i h <;> simp_all
  | unlocated hfields =>
    refine h.go rfl ⟨hmemory.truthful, hmemory.answer⟩ ?_
    rintro d ⟨hd, href⟩
    refine ⟨hd, ?_, ?_⟩
    · simp only [Effect.obstacle?, href]
    · simp only [Snapshot.owners, href, hfields]
  | @located e rest hfields =>
    refine h.exec_look (hf.findRootIds e.root (e.idFields c.entityType) c.id) fun w hw => ?_
    refine h.go rfl (hmemory.look hw) ?_
    rintro d ⟨hd, href⟩
    refine ⟨hw.trans hd, ?_, ?_⟩
    · simp only [Effect.obstacle?, href]
    · simp only [Snapshot.owners, href]
      rw [hd]
  | @idle e ids rest hids =>
    refine h.finish rfl hmemory ?_
    rintro d ⟨hd, hfree, rfl⟩
    have hrewriting := hmemory.truthful.rewriting e.root (entities.owners find c e d)
    rw [hids, hd] at hrewriting
    exact ⟨hfree, hd.trans hrewriting.eq⟩
  | @pending e ids ids' rest hids hne =>
    refine h.exec_look (hf.getBatch e.root ids') fun w hw => ?_
    refine h.go rfl (hmemory.look hw) ?_
    rintro d ⟨hd, hfree, rfl⟩
    have hrewriting := hmemory.truthful.rewriting e.root (entities.owners find c e d)
    rw [hids, hd] at hrewriting
    refine ⟨hfree, ?_⟩
    change Rewriting _ _ _ _ _ (docs w)
    rw [hw, hd]
    exact hrewriting
  | loaded =>
    refine h.finish rfl hmemory ?_
    rintro d ⟨hfree, hrewriting⟩
    exact ⟨hfree, hrewriting.eq⟩
  | @skipped e r records rest hwritten =>
    refine h.go rfl hmemory ?_
    rintro d ⟨hfree, hrewriting⟩
    obtain ⟨r', hr', hlookup⟩ := hmemory.truthful _ hwritten
    obtain rfl := Option.some.inj (hr'.symm.trans (hrewriting.pending r List.mem_cons_self).1)
    exact ⟨hfree, hrewriting.skip hlookup⟩
  | @updated e r records rest hnew =>
    obtain ⟨_, _, -, -, -, hrewriting⟩ := h.progress
    have hr := (hrewriting.pending r List.mem_cons_self).1
    refine h.exec_write (hf.update r tx) fun w hw => ?_
    rw [entities.key_of_find? hr] at hw
    refine h.go rfl (hmemory.put hr hw (by decide)) ?_
    rintro d ⟨hfree, hrewriting⟩
    refine ⟨hfree, ?_⟩
    change Rewriting _ _ _ _ _ (docs w)
    rw [hw]
    exact hrewriting.put

theorem applyToRoots_realizes (hf : Faithful store sink entities find docs fallible) (tx : τ)
    (all : List EntityType) (c : Change) (roots : List EntityType) :
    Realizes entities find docs fallible (AtWork entities docs c)
      ((Updater.ofSchema schema store sink).applyToRoots tx all c roots)
      (roots.flatMap (schema.effectsOn c)) := by
  intro b hb
  have hstart : Underway entities find docs schema c (roots.flatMap (schema.effectsOn c))
      (docs b.world) (.serve roots) b := ⟨hb, [], _, rfl, rfl, rfl⟩
  refine ((underway_keeps schema hf tx all c _ _).applyToRoots hstart).mono ?_ fun _ _ => id
  intro _ b' hb'
  obtain ⟨done, d, heffs, hdone, hstands⟩ := hb'.progress
  rw [heffs, replay_append_ok hdone, hstands]
  exact ⟨hb'.memory, rfl⟩

theorem applyToRoot_realizes (hf : Faithful store sink entities find docs fallible) (tx : τ)
    (all : List EntityType) (c : Change) (e : Embedding) {b : Batch σ}
    (hb : AtWork entities docs c b) :
    ((Updater.ofSchema schema store sink).applyToRoot tx all c).Ensures b
      (fun _ b' => AtWork entities docs c b' ∧
        replay entities find [.own c] (docs b.world) = (.ok (), docs b'.world))
      (fun _ _ => True) := by
  have hstart : Underway entities find docs schema c (schema.left c (.own e [])) (docs b.world)
      (.own e []) b := ⟨hb, [], _, rfl, rfl, rfl⟩
  refine ((underway_keeps schema hf tx all c _ _).applyToRoot hstart).mono ?_ fun _ _ _ => trivial
  intro _ b' hb'
  obtain ⟨done, d, heffs, hdone, hstands⟩ := hb'.progress
  rw [Schema.left_after] at heffs
  obtain rfl : [.own c] = done := List.append_cancel_right heffs
  rw [hdone, stands_after.mp hstands]
  exact ⟨hb'.memory, rfl⟩

theorem owners_ensures (hf : Faithful store sink entities find docs fallible) (tx : τ) {c : Change}
    {e : Embedding} {b : Batch σ} (hb : AtWork entities docs c b) :
    ((Updater.ofSchema schema store sink).owners c e).Ensures b
      (fun ids b' => docs b'.world = docs b.world ∧
        ids = entities.owners find c e (docs b'.world))
      (fun _ _ => True) := by
  have hstart : Underway entities find docs schema c (schema.left c (.turn e [])) (docs b.world)
      (.turn e []) b := ⟨hb, [], _, rfl, rfl, rfl⟩
  refine ((underway_keeps schema hf tx [] c _ _).owners hstart).mono ?_ fun _ _ _ => trivial
  intro ids b' hb'
  obtain ⟨done, d, heffs, hdone, hd, -, hids⟩ := hb'.progress
  obtain rfl : [] = done := List.append_cancel_right heffs
  cases hdone
  exact ⟨hd, by rw [hd]; exact hids⟩

theorem applyChange_realizes (hf : Faithful store sink entities find docs fallible) (tx : τ)
    (c : Change) :
    Realizes entities find docs fallible (Truthful entities docs)
      ((Updater.ofSchema schema store sink).applyChange tx c) (schema.effectsOf c) := by
  intro b hb
  unfold Schema.effectsOf
  cases hroots : schema.containment.rootsFor c.entityType with
  | none =>
    rw [Updater.applyChange_of_none hroots]
    exact Realizes.throw [] b hb
  | some roots =>
    rw [Updater.applyChange_of_roots hroots, ensures_bind, ensures_modify]
    have hb' : AtWork entities docs c { b with answer := none } := by
      refine ⟨hb, ?_⟩
      rintro a ⟨⟩
    refine (applyToRoots_realizes schema hf tx roots c roots _ hb').mono ?_ ?_
    · rintro _ b' ⟨hb', hreplay⟩
      exact ⟨hb'.truthful, hreplay⟩
    · exact fun _ _ h => h

theorem applyAll_realizes (hf : Faithful store sink entities find docs fallible) (tx : τ)
    (changes : List Change) :
    Realizes entities find docs fallible (Truthful entities docs)
      ((Updater.ofSchema schema store sink).applyAll tx changes) (schema.effects changes) := by
  induction changes with
  | nil =>
    intro b hb
    exact ⟨hb, rfl⟩
  | cons c rest ih =>
    rw [Updater.applyAll, Schema.effects_cons]
    exact (applyChange_realizes schema hf tx c).bind fun _ => ih

/-- Applied to a world, a batch ends as the replay of its effects does, unless a call failed: then
it leaves the documents midway. -/
theorem apply_realizes (hf : Faithful store sink entities find docs fallible) (tx : τ)
    (changes : List Change) (w : σ) :
    replay entities find (schema.effects changes) (docs w) =
        (((Updater.ofSchema schema store sink).apply tx changes w).1.map fun _ => (),
          docs ((Updater.ofSchema schema store sink).apply tx changes w).2.world) ∨
      fallible ∧ Midway entities find (schema.effects changes) (docs w)
        (docs ((Updater.ofSchema schema store sink).apply tx changes w).2.world) := by
  have h := applyAll_realizes schema hf tx changes (Batch.start w) nofun
  unfold Ensures at h
  unfold Updater.apply
  rcases hrun : ((Updater.ofSchema schema store sink).applyAll tx changes).run
    (Batch.start w) with ⟨err | counts, b⟩
  · rw [hrun] at h
    exact h
  · rw [hrun] at h
    exact Or.inl h.2

end Batches

/-- Applied to a map of documents, a batch ends as the replay of its effects does. -/
theorem apply_eq_replay (schema : Schema) (entities : Snapshot) (find : Lookup) (tx : τ)
    (changes : List Change) (d : Documents) :
    (((Updater.ofSnapshot schema entities find).apply tx changes d).1.map fun _ => (),
      ((Updater.ofSnapshot schema entities find).apply tx changes d).2.world) =
      replay entities find (schema.effects changes) d :=
  have hrun := apply_realizes schema (faithful_documents entities find) tx changes d
  (hrun.resolve_right And.left).symm

theorem apply_world (schema : Schema) (entities : Snapshot) (find : Lookup) (tx : τ)
    (changes : List Change) (d : Documents) :
    ((Updater.ofSnapshot schema entities find).apply tx changes d).2.world =
      (replay entities find (schema.effects changes) d).2 :=
  congrArg Prod.snd (apply_eq_replay schema entities find tx changes d)

theorem apply_ok_iff (schema : Schema) (entities : Snapshot) (find : Lookup) (tx : τ)
    (changes : List Change) (d : Documents) :
    (∃ counts, ((Updater.ofSnapshot schema entities find).apply tx changes d).1 = .ok counts) ↔
      ∀ eff ∈ schema.effects changes, eff.obstacle? entities = none := by
  have hfree : (replay entities find (schema.effects changes) d).1 = .ok () ↔ _ := replay_ok_iff
  rw [← hfree, ← apply_eq_replay schema entities find tx]
  cases ((Updater.ofSnapshot schema entities find).apply tx changes d).1 with
  | ok counts => exact ⟨fun _ => rfl, fun _ => ⟨counts, rfl⟩⟩
  | error e => exact ⟨nofun, nofun⟩

/-- Applied through calls that may fail, it leaves the documents midway. -/
theorem apply_unreliable (schema : Schema) (entities : Snapshot) (find : Lookup) (tx : τ)
    (changes : List Change) (start : Unreliable Documents) :
    let cut := ((Updater.ofSnapshot schema entities find).unreliable.apply tx changes start).2
    Midway entities find (schema.effects changes) start.world cut.world.world := by
  intro cut
  rcases apply_realizes schema (faithful_documents entities find).unreliable tx changes
    start with h | ⟨-, h⟩
  · exact fun key => ⟨_, List.prefix_rfl, by rw [h]; rfl⟩
  · exact h

end SearchSync
