import SearchSync.Proofs.Schema.Views
import SearchSync.Proofs.Sync.Effect
import SearchSync.Proofs.Sync.Refinement

/-!
# The moment at which a change is resolved

Which documents a change reaches may depend on the documents that the batch has written so far. A
moment of a batch is therefore given by the changes before it and by the root that is looked for,
and `resolve` is the run up to that moment.

A batch needs a root for every change and an embedding for every root. With a schema that was
checked, the embedding is always there, and the root is there for the types that matter. So whatever
the store and the index answer, a change of any other type is the only one that a batch can stop at
for want of a root.
-/

namespace SearchSync

open BatchAction

variable {τ σ α β : Type}

namespace Updater

/-- The start of a batch, up to the moment at which the ids of those documents of a root are known
that embed the entity of `c`. -/
def resolve (u : Updater τ σ) (tx : τ) (earlier : List Change) (c : Change) (e : Embedding) :
    BatchAction σ (List EntityId) := do
  let roots := (u.containment.rootsFor c.entityType).getD []
  let _ ← u.applyAll tx earlier
  modify fun b => { b with answer := none }
  u.applyToRoots tx roots c (roots.takeWhile (· ≠ e.root))
  if e.root = c.entityType then
    u.applyToRoot tx roots c
  u.owners c e

/-- In a batch that starts with `earlier` and comes to `c` then, the document under the key is one
of those that `c` is resolved to. -/
def ResolvesTo (u : Updater τ σ) (tx : τ) (w : σ) (earlier : List Change) (c : Change)
    (key : DocumentKey) : Prop :=
  ∃ e, u.embeddings.lookup key.1 = some e ∧ e.embeds c.entityType = true ∧
    ∃ ids b, (u.resolve tx earlier c e).run (Batch.start w) = (.ok ids, b) ∧ key.2 ∈ ids

variable (u : Updater τ σ) (tx : τ)

theorem resolve_eq_lead (earlier : List Change) (c : Change) (e : Embedding) :
    u.resolve tx earlier c e = u.applyAll tx earlier >>= fun _ => u.lead tx c e.root >>= fun _ =>
      u.owners c e := by
  simp only [resolve, lead, bind_assoc]
  split <;> simp

/-- A batch starts with the resolution of any of its changes, and goes on with the documents found
and with the roots and the changes that are left. -/
theorem applyAll_resolve {c : Change} {e : Embedding} {roots : List EntityType}
    (hroots : u.containment.rootsFor c.entityType = some roots) (hroot : e.root ∈ roots)
    (he : u.embeddings.lookup e.root = some e) (hembeds : e.embeds c.entityType = true)
    (earlier later : List Change) :
    ∃ before rest, roots = before ++ e.root :: rest ∧
      u.applyAll tx (earlier ++ c :: later) = u.resolve tx earlier c e >>= fun owners =>
        u.updateOwners tx e owners >>= fun _ => u.applyToRoots tx roots c rest >>= fun _ =>
          u.applyAll tx later := by
  obtain ⟨before, rest, hsplit, hnot⟩ := List.eq_append_cons_of_mem hroot
  have honward : u.onward tx c e.root = u.applyToRoots tx roots c rest := by
    rw [onward_eq (hsplit ▸ hroots) hnot, ← hsplit]
  refine ⟨before, rest, hsplit, ?_⟩
  rw [applyAll_append, applyAll, u.applyChange_turn tx hroots hroot he hembeds, resolve_eq_lead,
    honward, propagate_eq]
  simp only [bind_assoc]

theorem resolve_ok {c : Change} {e : Embedding} {roots : List EntityType}
    (hroots : u.containment.rootsFor c.entityType = some roots) (hroot : e.root ∈ roots)
    (he : u.embeddings.lookup e.root = some e) (hembeds : e.embeds c.entityType = true)
    {earlier later : List Change} {w : σ} {counts : WriteCounts}
    (h : (u.apply tx (earlier ++ c :: later) w).1 = .ok counts) :
    ∃ ids b, (u.resolve tx earlier c e).run (Batch.start w) = (.ok ids, b) := by
  obtain ⟨_, rest, -, hfinish⟩ := u.applyAll_resolve tx hroots hroot he hembeds earlier later
  unfold apply at h
  rw [hfinish, run_bind] at h
  rcases hrun : (u.resolve tx earlier c e).run (Batch.start w) with ⟨err | ids, b⟩
  · rw [hrun] at h
    cases h
  · exact ⟨ids, b, rfl⟩

end Updater

/-- At the moment of resolution the documents are those of the replay, and the ids found are the
owners among them. -/
theorem resolve_ensures (schema : Schema) {store : EntityStore σ} {sink : SearchIndex τ σ}
    {entities : Snapshot} {find : Lookup} {docs : σ → Documents} {fallible : Prop}
    (hf : Faithful store sink entities find docs fallible) (tx : τ) (earlier : List Change)
    (c : Change) (e : Embedding) (w : σ) :
    ((Updater.ofSchema schema store sink).resolve tx earlier c e).Ensures (Batch.start w)
      (fun ids b =>
        replay entities find (schema.effectsBefore earlier c e) (docs w) = (.ok (), docs b.world) ∧
          ids = entities.owners find c e (docs b.world))
      (fun _ _ => True) := by
  unfold Updater.resolve Schema.effectsBefore
  rw [ensures_bind]
  refine (applyAll_realizes schema hf tx earlier (Batch.start w) nofun).mono ?_
    fun _ _ _ => trivial
  rintro _ b₁ ⟨hb₁, hearlier⟩
  change replay entities find (schema.effects earlier) (docs w) = _ at hearlier
  rw [replay_append_ok hearlier, ensures_bind, ensures_modify, ensures_bind]
  refine (applyToRoots_realizes schema hf tx _ c _ { b₁ with answer := none }
    ⟨hb₁, nofun⟩).mono ?_ fun _ _ _ => trivial
  rintro _ b₂ ⟨hb₂, hserved⟩
  change replay entities find ((((schema.containment.rootsFor c.entityType).getD []).takeWhile
    (· ≠ e.root)).flatMap (schema.effectsOn c)) (docs b₁.world) = _ at hserved
  rw [replay_append_ok hserved]
  by_cases hown : e.root = c.entityType
  · simp only [hown, ↓reduceIte]
    rw [ensures_bind]
    refine (applyToRoot_realizes schema hf tx _ c e hb₂).mono ?_ fun _ _ _ => trivial
    rintro _ b₃ ⟨hb₃, hwritten⟩
    refine (owners_ensures schema hf tx hb₃).mono ?_ fun _ _ _ => trivial
    rintro ids b ⟨hd, hids⟩
    exact ⟨by rw [hwritten, hd], hids⟩
  · simp only [hown, ↓reduceIte]
    refine (owners_ensures schema hf tx hb₂).mono ?_ fun _ _ _ => trivial
    rintro ids b ⟨hd, hids⟩
    exact ⟨by rw [hd]; rfl, hids⟩

/-- The documents that a change is resolved to, told by replaying what the batch did before. -/
theorem resolvesTo_iff {schema : Schema} (h : schema.WellFormed) {entities : Snapshot}
    {find : Lookup} {tx : τ} {docs : Documents} {earlier later : List Change} {c : Change}
    {counts : WriteCounts}
    (hok : ((Updater.ofSnapshot schema entities find).apply tx (earlier ++ c :: later) docs).1 =
      .ok counts) (key : DocumentKey) :
    (Updater.ofSnapshot schema entities find).ResolvesTo tx docs earlier c key ↔
      ∃ e, key.1 = e.root ∧ schema.embeddings.lookup e.root = some e ∧
        e.embeds c.entityType = true ∧ key.2 ∈ entities.owners find c e
          (replay entities find (schema.effectsBefore earlier c e) docs).2 := by
  have hresolved {e : Embedding} {ids : List EntityId} {b : Batch Documents}
      (hrun : ((Updater.ofSnapshot schema entities find).resolve tx earlier c e).run
        (Batch.start docs) = (.ok ids, b)) :
      ids = entities.owners find c e
        (replay entities find (schema.effectsBefore earlier c e) docs).2 := by
    obtain ⟨hreplay, hids⟩ :=
      (resolve_ensures schema (faithful_documents entities find) tx earlier c e docs).of_run hrun
    rw [hreplay]
    exact hids
  constructor
  · rintro ⟨e, he, hembeds, ids, b, hrun, hid⟩
    obtain ⟨r, -, hroot, rfl⟩ := Schema.root_of_lookup_embeddings he
    rw [hresolved hrun] at hid
    rw [← hroot] at he
    exact ⟨.ofRoot r, hroot.symm, he, hembeds, hid⟩
  · rintro ⟨e, hroot, he, hembeds, hid⟩
    have hholder := h.root_mem_holders he hembeds
    have hroots : schema.containment.rootsFor c.entityType =
        some (schema.holders c.entityType) := by
      rw [h.rootsFor_eq, if_neg (List.ne_nil_of_mem hholder)]
    obtain ⟨ids, b, hrun⟩ := Updater.resolve_ok (Updater.ofSnapshot schema entities find) tx
      hroots hholder he hembeds hok
    refine ⟨e, hroot ▸ he, hembeds, ids, b, hrun, ?_⟩
    rw [hresolved hrun]
    exact hid

/-- The error is none of a schema in which a root or an embedding is missing. -/
def UpdateError.Located : UpdateError → Prop
  | .unresolved _ reason => reason = .unreadableReference
  | _ => True

/-- Serving roots that have embeddings, a change fails for no want of one. -/
theorem located_keeps (u : Updater τ σ) (tx : τ) (all : List EntityType) (c : Change)
    {halt : Stage → Bool} : u.Keeps tx all c halt
      (fun s _ => ∀ root ∈ s.rest, (u.embeddings.lookup root).isSome)
      (fun e _ => e.Located) := by
  intro s b act _ h hact
  have hleads := (Updater.due_rest hact).mono fun s' hs' root hroot => h root (hs'.subset hroot)
  cases act with
  | go s => exact hleads
  | warn w s => exact hleads
  | stop type reason =>
    cases hact with
    | unknown he =>
      have hsome := h _ List.mem_cons_self
      rw [he] at hsome
      cases hsome
    | unreadable => exact rfl
  | ask s =>
    cases ha : b.answer with
    | some a =>
      rw [Updater.exec_ask_known ha]
      exact hleads a
    | none =>
      rw [Updater.exec_ask_unknown ha, ensures_call]
      rcases u.perform (.get c.entityType c.id) b.world with ⟨cause | a, w⟩
      · trivial
      · exact hleads a
  | look call failure s =>
    rw [Updater.exec_look, ensures_call]
    rcases u.perform call b.world with ⟨cause | a, w⟩
    · cases hact <;> trivial
    · exact hleads a
  | write kind key call s =>
    rw [Updater.exec_write, ensures_call]
    rcases u.perform call b.world with ⟨cause | a, w⟩
    · trivial
    · exact hleads

section Batches

variable {s : Schema} (store : EntityStore σ) (sink : SearchIndex τ σ) (tx : τ)

theorem Schema.WellFormed.isSome_lookup_embeddings (h : s.WellFormed) {type root : EntityType}
    (hroot : root ∈ s.holders type) : (s.embeddings.lookup root).isSome := by
  obtain ⟨r, hr, rfl, -⟩ := Schema.mem_holders.mp hroot
  exact Option.isSome_iff_exists.mpr ⟨_, h.lookup_embeddings hr⟩

theorem applyChange_located (h : s.WellFormed) {c : Change} (hc : c.entityType ∈ s.relevantTypes)
    (b : Batch σ) :
    ((Updater.ofSchema s store sink).applyChange tx c).Ensures b (fun _ _ => True)
      (fun e _ => e.Located) := by
  have hroots : (Updater.ofSchema s store sink).containment.rootsFor c.entityType =
      some (s.holders c.entityType) := by
    rw [Updater.ofSchema, h.rootsFor_eq, if_neg (Schema.holders_ne_nil_iff.mpr hc)]
  refine ((located_keeps _ tx _ c).applyChange hroots ?_).mono (fun _ _ _ => trivial) fun _ _ => id
  exact fun root => h.isSome_lookup_embeddings

theorem applyChange_irrelevant (h : s.WellFormed) {c : Change}
    (hc : c.entityType ∉ s.relevantTypes) :
    (Updater.ofSchema s store sink).applyChange tx c =
      throw (.unresolved c.entityType .notContained) :=
  Updater.applyChange_of_none (h.rootsFor_eq_none_iff.mpr hc)

theorem applyAll_irrelevant (h : s.WellFormed) {earlier later : List Change} {c : Change}
    {b b' : Batch σ} {counts : WriteCounts} (hc : c.entityType ∉ s.relevantTypes)
    (hearlier : ((Updater.ofSchema s store sink).applyAll tx earlier).run b = (.ok counts, b')) :
    ((Updater.ofSchema s store sink).applyAll tx (earlier ++ c :: later)).run b =
      (.error (.unresolved c.entityType .notContained), b') := by
  rw [Updater.applyAll_append, run_bind, hearlier, Updater.applyAll,
    applyChange_irrelevant store sink tx h hc]
  rfl

theorem apply_irrelevant (h : s.WellFormed) {c : Change} (hc : c.entityType ∉ s.relevantTypes)
    (w : σ) : (Updater.ofSchema s store sink).apply tx [c] w =
      (.error (.unresolved c.entityType .notContained), Batch.start w) := by
  unfold Updater.apply
  rw [Updater.applyAll, applyChange_irrelevant store sink tx h hc]
  rfl

/-- For want of a root a batch stops at the first change of a type that does not matter. -/
theorem applyAll_ensures_located (h : s.WellFormed) (changes : List Change) (b : Batch σ) :
    ((Updater.ofSchema s store sink).applyAll tx changes).Ensures b (fun _ _ => True)
      (fun e _ => e.Located ∨ ∃ earlier c later, changes = earlier ++ c :: later ∧
        e = .unresolved c.entityType .notContained ∧ c.entityType ∉ s.relevantTypes ∧
        ∃ counts b', ((Updater.ofSchema s store sink).applyAll tx earlier).run b =
          (.ok counts, b')) := by
  induction changes generalizing b with
  | nil => trivial
  | cons c changes ih =>
    by_cases hc : c.entityType ∈ s.relevantTypes
    · rw [Updater.applyAll, ensures_bind]
      refine ((applyChange_located store sink tx h hc b).and (ensures_run _ b)).mono ?_ ?_
      · rintro _ b₁ ⟨-, hrun⟩
        refine (ih b₁).mono (fun _ _ _ => trivial) fun e b₂ => Or.imp_right ?_
        rintro ⟨earlier, c', later, rfl, he, hc', counts, b', hearlier⟩
        refine ⟨c :: earlier, c', later, rfl, he, hc', counts, b', ?_⟩
        rw [Updater.applyAll, run_bind, hrun]
        exact hearlier
      · rintro e b₁ ⟨hlocated, -⟩
        exact Or.inl hlocated
    · rw [Updater.applyAll, applyChange_irrelevant store sink tx h hc]
      exact Or.inr ⟨[], c, changes, rfl, rfl, hc, b.counts, b, rfl⟩

/-- With a checked schema, a batch stops for want of a root exactly when it comes to a change of a
type that does not matter, and it never misses an embedding. -/
theorem apply_unresolved_iff (h : s.WellFormed) (changes : List Change) (w : σ)
    (type : EntityType) :
    let u := Updater.ofSchema s store sink
    (u.apply tx changes w).1 ≠ .error (.unresolved type .noEmbedding) ∧
      ((u.apply tx changes w).1 = .error (.unresolved type .notContained) ↔
        ∃ earlier c later, changes = earlier ++ c :: later ∧ c.entityType = type ∧
          type ∉ s.relevantTypes ∧ ∃ counts, (u.apply tx earlier w).1 = .ok counts) := by
  intro u
  have hstart := applyAll_ensures_located store sink tx h changes (Batch.start w)
  constructor
  · intro hrun
    rcases hstart.of_error (Prod.ext hrun rfl) with hlocated | ⟨_, _, _, -, he, -⟩
    · cases hlocated
    · cases he
  · constructor
    · intro hrun
      rcases hstart.of_error (Prod.ext hrun rfl) with hlocated | ⟨earlier, c, later, rfl, he, hrest⟩
      · cases hlocated
      · obtain ⟨rfl, -⟩ := UpdateError.unresolved.inj he
        obtain ⟨hc, counts, b', hearlier⟩ := hrest
        exact ⟨earlier, c, later, rfl, rfl, hc, counts, congrArg Prod.fst hearlier⟩
    · rintro ⟨earlier, c, later, rfl, rfl, hc, counts, hearlier⟩
      exact congrArg Prod.fst (applyAll_irrelevant store sink tx h hc (Prod.ext hearlier rfl))

end Batches

/-- The views of an accepted schema agree, so a batch over it can rely on them without checking:
whatever the store and the index do, no embedding is missing, and the changes that no root is found
for are those of types that do not matter. -/
theorem views_agree {roots : List RootType} {s : Schema} (h : Schema.ofRoots roots = .ok s) :
    s.roots = roots ∧ s.ViewsAgree ∧
      ∀ {τ σ : Type} (store : EntityStore σ) (sink : SearchIndex τ σ) (tx : τ)
        (changes : List Change) (w : σ) (type : EntityType),
        let u := Updater.ofSchema s store sink
        (u.apply tx changes w).1 ≠ .error (.unresolved type .noEmbedding) ∧
          ((u.apply tx changes w).1 = .error (.unresolved type .notContained) ↔
            ∃ earlier c later, changes = earlier ++ c :: later ∧ c.entityType = type ∧
              type ∉ s.relevantTypes ∧ ∃ counts, (u.apply tx earlier w).1 = .ok counts) := by
  obtain ⟨hroots, hwell⟩ := Schema.wellFormed_of_ofRoots h
  refine ⟨hroots, hwell.viewsAgree, ?_⟩
  intro τ σ store sink tx changes w type
  exact apply_unresolved_iff store sink tx hwell changes w type

namespace Sample

def realm : EntityType := ⟨"Realm"⟩

def dragon : EntityType := ⟨"Dragon"⟩

/-- Places have places as parts, realms embed the places that refer to them, and sorcerers are
embedded in both. -/
def realmRoots : List RootType :=
  [⟨place, "id", .int64, [⟨place, ["parts.id"], none⟩, ⟨sorcerer, [], some "placeId"⟩]⟩,
    ⟨realm, "id", .uuid, [⟨place, [], some "realmId"⟩, ⟨sorcerer, ["folk.id"], none⟩]⟩,
    ⟨sorcerer, "id", .int64, []⟩]

def realms : Schema := ⟨realmRoots⟩

end Sample

/-- The documents of all three roots hold sorcerers, their own first. A batch goes through up to the
dragon, of whom no root knows. -/
theorem views_agree_realms :
    Schema.ofRoots Sample.realmRoots = .ok Sample.realms ∧
      Sample.realms.containment.rootsFor Sample.sorcerer =
        some [Sample.sorcerer, Sample.place, Sample.realm] ∧
      Sample.sorcerer ∈ Sample.realms.relevantTypes ∧
      Sample.dragon ∉ Sample.realms.relevantTypes ∧
      ((Updater.ofSnapshot Sample.realms Sample.entities fun _ _ _ _ => []).apply ()
        [⟨Sample.place, .int 1, .insert⟩, ⟨Sample.dragon, .int 3, .delete⟩] ∅).1 =
          .error (.unresolved Sample.dragon .notContained) := by
  have hread : Schema.ofRoots Sample.realmRoots = .ok Sample.realms := rfl
  have hholders : Sample.realms.containment.rootsFor Sample.sorcerer =
      some [Sample.sorcerer, Sample.place, Sample.realm] := by decide
  have hdragon : Sample.dragon ∉ Sample.realms.relevantTypes := by decide
  obtain ⟨-, hviews, hstops⟩ := views_agree hread
  have hsorcerer := (hviews.held_iff_relevant Sample.sorcerer).mp (by rw [hholders]; rfl)
  refine ⟨hread, hholders, hsorcerer, hdragon, ?_⟩
  obtain ⟨-, hiff⟩ := hstops Sample.entities.store (Documents.sink fun _ _ _ _ => []) ()
    [⟨Sample.place, .int 1, .insert⟩, ⟨Sample.dragon, .int 3, .delete⟩] ∅ Sample.dragon
  refine hiff.mpr ⟨[⟨Sample.place, .int 1, .insert⟩], _, [], rfl, rfl, hdragon, ⟨1, 0, 0⟩, ?_⟩
  decide +kernel

end SearchSync
