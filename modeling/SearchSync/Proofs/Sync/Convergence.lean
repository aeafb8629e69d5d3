import SearchSync.Proofs.Sync.Refinement
import SearchSync.Proofs.Sync.Resolution

/-!
# What a batch leaves behind

The last effect on a root's own document decides what becomes of it; rewriting it for the sake of
an embedded entity can only bring it up to date. A batch therefore leaves every document that it
was told about as the store has it, unless the last change of the root deletes a root that is still
there.

A batch remembers what it wrote and the next batch has forgotten it. As updating is replaying, and
a replay has no memory, changes do the same in one batch as in many, and a batch that was cut short
by a failing call can be applied again. To show this, one document is looked at after the other: a
lookup that tests documents one by one makes every effect a function of the document alone, and such
a function either forgets the document or leaves the choice between it and the record of its root.
Doing it once more changes nothing.
-/

namespace SearchSync

section Converging

/-- The kind of the last change of the entity under the key. -/
def lastKind? (key : DocumentKey) (changes : List Change) : Option ChangeKind :=
  (changes.reverse.find? (·.key = key)).map (·.kind)

section Replay

variable {entities : Snapshot} {find : Lookup} {key : DocumentKey} {effs : List Effect}
  {docs : Documents}

/-- A document ends up to date when the last effect on it leaves what the store has, or when it is
up to date already and no change of the root itself follows. -/
theorem lookup_replay_of_last (hfree : ∀ eff ∈ effs, eff.obstacle? entities = none)
    (hlast : ∀ c, lastOwn? key effs = some c → entities.remains? c = entities.find? key)
    (hstart : lastOwn? key effs = none → docs.lookup key = entities.find? key) :
    (replay entities find effs docs).2.lookup key = entities.find? key := by
  induction effs generalizing docs with
  | nil => exact hstart rfl
  | cons eff rest ih =>
    obtain ⟨heff, hrest⟩ := List.forall_mem_cons.mp hfree
    rw [lastOwn?_cons] at hlast hstart
    rw [replay_cons heff]
    apply ih hrest
    · intro c hc
      exact hlast c (by rw [hc, Option.some_or])
    · intro hnone
      rw [hnone, Option.none_or] at hlast hstart
      cases eff with
      | own c =>
        rw [Effect.lookup_apply_own]
        by_cases hk : key = c.key
        · rw [if_pos hk]
          exact hlast c (if_pos hk.symm)
        · rw [if_neg hk]
          exact hstart (if_neg (Ne.symm hk))
      | owners c e =>
        rw [Effect.lookup_apply_owners, hstart rfl]
        split
        · exact Option.or_self
        · rfl
      | stop type reason => cases heff

/-- A document that changes without a change of its own root is one that a change was resolved
to. -/
theorem lookup_replay_of_unowned (find : Lookup) (docs : Documents)
    (hfree : ∀ eff ∈ effs, eff.obstacle? entities = none) (hnone : lastOwn? key effs = none) :
    (replay entities find effs docs).2.lookup key = docs.lookup key ∨
      ∃ xs c e ys, effs = xs ++ .owners c e :: ys ∧ key.1 = e.root ∧
        key.2 ∈ entities.owners find c e (replay entities find xs docs).2 := by
  induction effs generalizing docs with
  | nil => exact Or.inl rfl
  | cons eff rest ih =>
    obtain ⟨heff, hrest⟩ := List.forall_mem_cons.mp hfree
    rw [lastOwn?_eq_none_iff] at hnone
    have hunowned : lastOwn? key rest = none :=
      lastOwn?_eq_none_iff.mpr fun c hc => hnone c (List.mem_cons_of_mem eff hc)
    rcases ih (eff.apply entities find docs) hrest hunowned with
      hsame | ⟨xs, c, e, ys, rfl, hroot, hid⟩
    · rw [replay_cons heff, hsame]
      cases eff with
      | own c =>
        have hk : ¬key = c.key := fun hk => hnone c List.mem_cons_self hk.symm
        rw [Effect.lookup_apply_own, if_neg hk]
        exact Or.inl rfl
      | owners c e =>
        rw [Effect.lookup_apply_owners]
        by_cases hchosen : key.1 = e.root ∧ key.2 ∈ entities.owners find c e docs
        · exact Or.inr ⟨[], c, e, rest, rfl, hchosen⟩
        · exact Or.inl (if_neg hchosen)
      | stop type reason => cases heff
    · refine Or.inr ⟨eff :: xs, c, e, ys, rfl, hroot, ?_⟩
      rw [replay_cons heff]
      exact hid

end Replay

section Batch

variable {schema : Schema} {entities : Snapshot} {changes : List Change} {key : DocumentKey}

/-- A last change that is not a deletion leaves what the store has. -/
theorem remains_of_lastOwn (h : schema.WellFormed) (hkey : key.1 ∈ schema.rootTypes)
    (hlast : lastKind? key changes ≠ some .delete ∨ entities.find? key = none) {c : Change}
    (hc : lastOwn? key (schema.effects changes) = some c) :
    entities.remains? c = entities.find? key := by
  rw [h.lastOwn?_effects hkey] at hc
  obtain rfl : c.key = key := by simpa using List.find?_some hc
  by_cases hdelete : c.kind = .delete
  · have hkind : lastKind? c.key changes = some .delete := by
      rw [lastKind?, hc, Option.map_some, hdelete]
    rw [hlast.resolve_left fun hne => hne hkind]
    exact if_pos hdelete
  · exact if_neg hdelete

/-- From the moment at which a change is resolved to it, a document is up to date until its root is
changed. -/
theorem lookup_replay_of_resolved (h : schema.WellFormed) {find : Lookup} {docs : Documents}
    {earlier later : List Change} {c : Change} {e : Embedding} {r : Record}
    (hfree : ∀ eff ∈ schema.effects (earlier ++ c :: later), eff.obstacle? entities = none)
    (hroot : key.1 = e.root) (he : schema.embeddings.lookup e.root = some e)
    (hembeds : e.embeds c.entityType = true)
    (hid : key.2 ∈ entities.owners find c e
      (replay entities find (schema.effectsBefore earlier c e) docs).2)
    (hr : entities.find? key = some r)
    (hlast : ∀ c', lastOwn? key (schema.effects later) = some c' →
      entities.remains? c' = entities.find? key) :
    (replay entities find (schema.effects (earlier ++ c :: later)) docs).2.lookup key =
      some r := by
  obtain ⟨after, hsplit, hafter⟩ := h.effects_resolve he hembeds earlier later
  rw [hsplit, List.forall_mem_append, List.forall_mem_cons] at hfree
  obtain ⟨hbefore, heff, hrest⟩ := hfree
  rw [hsplit, replay_append_free hbefore, replay_cons heff, ← hr]
  refine lookup_replay_of_last hrest ?_ ?_
  · intro c' hc'
    rw [hafter] at hc'
    exact hlast c' hc'
  · intro _
    rw [Effect.lookup_apply_owners, if_pos ⟨hroot, hid⟩, hr, Option.some_or]

end Batch

variable {τ : Type}

/-- Provided that no root which is still there is deleted by its last change, a batch that goes
through leaves the document of every changed root as the store has it, and so every document that a
change was resolved to at its time, if the store has its root. All other documents are left as they
were. -/
theorem apply_converges {roots : List RootType} {schema : Schema}
    (hschema : Schema.ofRoots roots = .ok schema) (entities : Snapshot) (find : Lookup) (tx : τ)
    (changes : List Change) (docs : Documents)
    (hgone : ∀ key : DocumentKey, key.1 ∈ schema.rootTypes →
      lastKind? key changes = some .delete → entities.find? key = none) :
    let u := Updater.ofSnapshot schema entities find
    let final := (u.apply tx changes docs).2.world
    (∃ counts, (u.apply tx changes docs).1 = .ok counts) →
      (∀ c ∈ changes, c.entityType ∈ schema.rootTypes →
        final.lookup c.key = entities.find? c.key) ∧
      (∀ earlier c later, changes = earlier ++ c :: later →
        ∀ key r, u.ResolvesTo tx docs earlier c key → entities.find? key = some r →
          final.lookup key = some r) ∧
      ∀ key, final.lookup key = docs.lookup key ∨
        (key.1 ∈ schema.rootTypes ∧ ∃ c ∈ changes, c.key = key) ∨
        ∃ earlier c later, changes = earlier ++ c :: later ∧
          u.ResolvesTo tx docs earlier c key := by
  intro u final hok
  have h := (Schema.wellFormed_of_ofRoots hschema).2
  have hfree := (apply_ok_iff schema entities find tx changes docs).mp hok
  obtain ⟨counts, hcounts⟩ := hok
  have hfinal : final = (replay entities find (schema.effects changes) docs).2 :=
    apply_world schema entities find tx changes docs
  have hlast {key : DocumentKey} (hkey : key.1 ∈ schema.rootTypes) :
      lastKind? key changes ≠ some .delete ∨ entities.find? key = none :=
    Decidable.or_iff_not_imp_left.mpr fun hdelete => hgone key hkey (not_not.mp hdelete)
  rw [hfinal]
  refine ⟨?_, ?_, ?_⟩
  · intro c hc hkey
    apply lookup_replay_of_last hfree
    · exact fun _ => remains_of_lastOwn h hkey (hlast hkey)
    · exact fun hnone => absurd rfl ((h.lastOwn?_effects_eq_none hkey).mp hnone c hc)
  · rintro earlier c later rfl key r hresolves hr
    obtain ⟨e, hroot, he, hembeds, hid⟩ := (resolvesTo_iff h hcounts key).mp hresolves
    refine lookup_replay_of_resolved h hfree hroot he hembeds hid hr fun c' hc' => ?_
    have hkey : key.1 ∈ schema.rootTypes :=
      hroot ▸ Schema.isSome_lookup_embeddings.mp (Option.isSome_of_mem he)
    apply remains_of_lastOwn h hkey (hlast hkey)
    rw [Schema.effects_append, Schema.effects_cons, lastOwn?_append, lastOwn?_append, hc',
      Option.some_or, Option.some_or]
  · intro key
    cases hnone : lastOwn? key (schema.effects changes) with
    | some c =>
      obtain ⟨hown, rfl⟩ := mem_of_lastOwn? hnone
      obtain ⟨c', hc', hown⟩ := List.mem_flatMap.mp hown
      obtain ⟨rfl, hkey⟩ := h.own_mem_effectsOf.mp hown
      exact Or.inr (Or.inl ⟨hkey, c, hc', rfl⟩)
    | none =>
      rcases lookup_replay_of_unowned find docs hfree hnone with
        hsame | ⟨xs, c, e, ys, hsplit, hroot, hid⟩
      · exact Or.inl hsame
      · obtain ⟨earlier, later, rfl, ⟨he, hembeds⟩, rfl, -⟩ := h.effects_split hsplit
        refine Or.inr (Or.inr ⟨earlier, c, later, rfl, ?_⟩)
        exact (resolvesTo_iff h hcounts key).mpr ⟨e, hroot, he, hembeds, hid⟩

namespace Sample

/-- The first place, if its document holds the id. -/
def findPlace : Lookup := fun docs root fields id =>
  if (docs.lookup (root, .int 1)).any (holds fields id) then [.int 1] else []

end Sample

/-- The apprentice leaves. The tower is found by his id, which its document holds, and brought up to
date. -/
theorem apply_converges_sorcerer :
    let u := Updater.ofSnapshot Sample.schema Sample.entities Sample.findPlace
    let changes : List Change :=
      [⟨Sample.sorcerer, .int 3, .delete⟩, ⟨Sample.sorcerer, .int 2, .insert⟩]
    let final := (u.apply () changes Sample.formerly).2.world
    Sample.formerly.lookup (Sample.place, .int 1) = some Sample.formerTower ∧
      final.lookup (Sample.place, .int 1) = some Sample.tower ∧
      final.lookup (Sample.sorcerer, .int 2) = some Sample.merlin ∧
      final.lookup (Sample.sorcerer, .int 3) = none := by
  intro u changes final
  have hgone : ∀ key : DocumentKey, key.1 ∈ Sample.schema.rootTypes →
      lastKind? key changes = some .delete → Sample.entities.find? key = none := by
    intro key _ hdelete
    by_cases htower : key = (Sample.place, .int 1)
    · subst key
      exact absurd hdelete (by decide)
    by_cases hmerlin : key = (Sample.sorcerer, .int 2)
    · subst key
      exact absurd hdelete (by decide)
    · exact (if_neg htower).trans (if_neg hmerlin)
  have hschema : Schema.ofRoots Sample.roots = .ok Sample.schema := by rfl
  obtain ⟨hown, hresolved, -⟩ := apply_converges hschema Sample.entities Sample.findPlace ()
    changes Sample.formerly hgone ⟨⟨1, 1, 1⟩, by decide +kernel⟩
  refine ⟨Finmap.lookup_insert _, ?_, ?_, ?_⟩
  · refine hresolved [] ⟨Sample.sorcerer, .int 3, .delete⟩ _ rfl (Sample.place, .int 1) Sample.tower
      ?_ rfl
    exact ⟨_, rfl, rfl, [.int 1], _, rfl, List.mem_singleton_self _⟩
  · exact hown ⟨Sample.sorcerer, .int 2, .insert⟩ (by decide) (by decide)
  · exact hown ⟨Sample.sorcerer, .int 3, .delete⟩ (by decide) (by decide)

end Converging

section Splitting

variable {τ σ : Type}

/-- Applies batches one after another, each in its own transaction, and stops at the first that
fails. -/
def Updater.applyBatches (u : Updater τ σ) :
    List (τ × List Change) → σ → Except UpdateError Unit × σ
  | [], w => (.ok (), w)
  | (tx, changes) :: rest, w =>
    match u.apply tx changes w with
    | (.ok _, b) => u.applyBatches rest b.world
    | (.error e, b) => (.error e, b.world)

theorem applyBatches_eq_replay (schema : Schema) (entities : Snapshot) (find : Lookup)
    (batches : List (τ × List Change)) (docs : Documents) :
    (Updater.ofSnapshot schema entities find).applyBatches batches docs =
      replay entities find (schema.effects (batches.flatMap Prod.snd)) docs := by
  induction batches generalizing docs with
  | nil => rfl
  | cons batch rest ih =>
    obtain ⟨tx, changes⟩ := batch
    have happ : schema.effects (((tx, changes) :: rest).flatMap Prod.snd) =
        schema.effects changes ++ schema.effects (rest.flatMap Prod.snd) := by
      rw [List.flatMap_cons, Schema.effects_append]
    have hfirst := apply_eq_replay schema entities find tx changes docs
    rw [Updater.applyBatches, happ]
    rcases hrun : (Updater.ofSnapshot schema entities find).apply tx changes docs with
      ⟨e | counts, b⟩
    · rw [hrun] at hfirst
      exact (replay_append_error hfirst.symm).symm
    · rw [hrun] at hfirst
      rw [replay_append_ok hfirst.symm]
      exact ih b.world

theorem Effect.obstacle_unresolved {entities : Snapshot} {eff : Effect} {e : UpdateError}
    (h : eff.obstacle? entities = some e) : ∃ type reason, e = .unresolved type reason := by
  cases eff with
  | own c => cases h
  | owners c emb =>
    simp only [Effect.obstacle?] at h
    split at h
    · cases h
      exact ⟨_, _, rfl⟩
    · cases h
  | stop type reason =>
    cases h
    exact ⟨type, reason, rfl⟩

theorem replay_error {entities : Snapshot} {find : Lookup} {effs : List Effect}
    {docs : Documents} {e : UpdateError} (h : (replay entities find effs docs).1 = .error e) :
    ∃ type reason, e = .unresolved type reason := by
  induction effs generalizing docs with
  | nil => cases h
  | cons eff rest ih =>
    cases ho : eff.obstacle? entities with
    | none =>
      rw [replay_cons ho] at h
      exact ih h
    | some err =>
      rw [replay_cons_obstacle ho] at h
      cases h
      exact Effect.obstacle_unresolved ho

/-- Cutting a list of changes into batches changes neither the documents that they end with nor
the outcome, which is success or an unresolved change. -/
theorem applyBatches_eq_apply (schema : Schema) (entities : Snapshot) (find : Lookup) (tx : τ)
    (batches : List (τ × List Change)) (docs : Documents) :
    let u := Updater.ofSnapshot schema entities find
    let whole := u.apply tx (batches.flatMap Prod.snd) docs
    u.applyBatches batches docs = (whole.1.map fun _ => (), whole.2.world) ∧
      ∀ e, whole.1 = .error e → ∃ type reason, e = .unresolved type reason := by
  intro u whole
  have hwhole := apply_eq_replay schema entities find tx (batches.flatMap Prod.snd) docs
  constructor
  · rw [applyBatches_eq_replay, ← hwhole]
  · intro e he
    apply replay_error
    rw [← hwhole]
    exact congrArg (Except.map fun _ => ()) he

end Splitting

section Rerunning

/-- The lookup answers with the roots whose documents pass a test, each judged by itself. -/
def Lookup.Tests (find : Lookup) (test : List String → EntityId → Record → Prop) : Prop :=
  ∀ docs root fields id owner, owner ∈ find docs root fields id ↔
    ∃ r, docs.lookup (root, owner) = some r ∧ test fields id r

/-- What may become of a document whose root has the record `s`: something fixed, or a choice of
keeping the document and putting the record in its place. -/
def Settles (s : Option Record) (g : Option Record → Option Record) : Prop :=
  (∀ v w, g v = g w) ∨ ∀ v, g v = v ∨ g v = s.or v

section Settles

variable {s : Option Record} {f g : Option Record → Option Record}

/-- A choice of the record leaves a record that was chosen before. -/
private theorem choice_or (hg : ∀ v, g v = v ∨ g v = s.or v) (v : Option Record) :
    g (s.or v) = s.or v := by
  rcases hg (s.or v) with h | h
  · exact h
  · rw [h, ← Option.or_assoc, Option.or_self]

theorem settles_id : Settles s id := Or.inr fun _ => Or.inl rfl

theorem Settles.comp (hg : Settles s g) (hf : Settles s f) : Settles s (g ∘ f) := by
  rcases hg with hg | hg
  · exact Or.inl fun _ _ => hg _ _
  rcases hf with hf | hf
  · exact Or.inl fun v w => congrArg g (hf v w)
  · refine Or.inr fun v => ?_
    rcases hf v with h | h
    · rw [Function.comp_apply, h]
      exact hg v
    · rw [Function.comp_apply, h]
      exact Or.inr (choice_or hg v)

theorem Settles.idem (hg : Settles s g) (v : Option Record) : g (g v) = g v := by
  rcases hg with hg | hg
  · exact hg _ _
  · rcases hg v with h | h
    · rw [h, h]
    · rw [h, choice_or hg]

end Settles

section Replay

variable {entities : Snapshot} {find : Lookup} {test : List String → EntityId → Record → Prop}

/-- Whether a document is among those that a change resolves to can be told from it alone. -/
theorem mem_owners (entities : Snapshot) (hfind : find.Tests test) (c : Change) (e : Embedding)
    (id : EntityId) :
    ∃ chosen : Option Record → Prop, ∀ docs : Documents,
      id ∈ entities.owners find c e docs ↔ chosen (docs.lookup (e.root, id)) := by
  unfold Snapshot.owners
  cases entities.reference? c e with
  | some ids => exact ⟨fun _ => id ∈ ids.getD [], fun _ => Iff.rfl⟩
  | none =>
    cases e.idFields c.entityType with
    | nil => exact ⟨fun _ => False, fun _ => by simp⟩
    | cons field fields =>
      exact ⟨fun v => ∃ r, v = some r ∧ test (field :: fields) c.id r,
        fun docs => hfind docs e.root (field :: fields) c.id id⟩

theorem effect_settles (entities : Snapshot) (hfind : find.Tests test) (eff : Effect)
    (key : DocumentKey) :
    ∃ g, Settles (entities.find? key) g ∧
      ∀ docs, (eff.apply entities find docs).lookup key = g (docs.lookup key) := by
  classical
  cases eff with
  | own c =>
    by_cases hk : key = c.key
    · refine ⟨fun _ => entities.remains? c, Or.inl fun _ _ => rfl, fun docs => ?_⟩
      rw [Effect.lookup_apply_own, if_pos hk]
    · refine ⟨id, settles_id, fun docs => ?_⟩
      rw [Effect.lookup_apply_own, if_neg hk]
      rfl
  | owners c e =>
    obtain ⟨type, owner⟩ := key
    by_cases hroot : type = e.root
    · subst type
      obtain ⟨chosen, hchosen⟩ := mem_owners entities hfind c e owner
      refine ⟨fun v => if chosen v then (entities.find? (e.root, owner)).or v else v, ?_,
        fun docs => ?_⟩
      · refine Or.inr fun v => ?_
        by_cases hv : chosen v
        · exact Or.inr (if_pos hv)
        · exact Or.inl (if_neg hv)
      · rw [Effect.lookup_apply_owners]
        simp only [hchosen docs, true_and]
    · refine ⟨id, settles_id, fun docs => ?_⟩
      rw [Effect.lookup_apply_owners, if_neg fun h => hroot h.1]
      rfl
  | stop type reason => exact ⟨id, settles_id, fun _ => rfl⟩

theorem replay_settles (entities : Snapshot) (hfind : find.Tests test) (effs : List Effect)
    (key : DocumentKey) :
    ∃ g, Settles (entities.find? key) g ∧
      ∀ docs, (replay entities find effs docs).2.lookup key = g (docs.lookup key) := by
  induction effs with
  | nil => exact ⟨id, settles_id, fun _ => rfl⟩
  | cons eff rest ih =>
    cases ho : eff.obstacle? entities with
    | some err =>
      refine ⟨id, settles_id, fun docs => ?_⟩
      rw [replay_cons_obstacle ho]
      rfl
    | none =>
      obtain ⟨f, hf, hstep⟩ := effect_settles entities hfind eff key
      obtain ⟨g, hg, hrun⟩ := ih
      refine ⟨g ∘ f, hg.comp hf, fun docs => ?_⟩
      rw [replay_cons ho, hrun, hstep]
      rfl

/-- A replay that was left midway ends, when it is started again, where it would have ended. -/
theorem replay_of_midway (hfind : find.Tests test) {effs : List Effect} {docs cut : Documents}
    (hfree : ∀ eff ∈ effs, eff.obstacle? entities = none)
    (hcut : Midway entities find effs docs cut) :
    replay entities find effs cut = replay entities find effs docs := by
  refine Prod.ext (replay_outcome find find cut docs) (Finmap.ext_lookup fun key => ?_)
  obtain ⟨done, ⟨rest, rfl⟩, hkey⟩ := hcut key
  have hsplit (d : Documents) : replay entities find (done ++ rest) d =
      replay entities find rest (replay entities find done d).2 :=
    replay_append_free fun eff h => hfree eff (List.mem_append_left rest h)
  obtain ⟨f, hf, hfirst⟩ := replay_settles entities hfind done key
  obtain ⟨g, -, hsecond⟩ := replay_settles entities hfind rest key
  rw [hsplit, hsplit, hsecond, hsecond, hfirst cut, hkey, hfirst docs, hf.idem]

end Replay

/-- A batch that would go through from `docs` can be cut by any failing calls and then applied
again: it goes through and ends with the documents it would have ended with. Applied once more
after it has gone through, it changes nothing. -/
theorem rerun_completes {τ : Type} (schema : Schema) (entities : Snapshot) {find : Lookup}
    {test : List String → EntityId → Record → Prop} (hfind : find.Tests test) (tx : τ)
    (changes : List Change) (docs : Documents) (faults : List (Option String)) :
    let u := Updater.ofSnapshot schema entities find
    let whole := (u.apply tx changes docs).2.world
    let cut := (u.unreliable.apply tx changes ⟨docs, faults⟩).2.world.world
    (∃ counts, (u.apply tx changes docs).1 = .ok counts) →
      ((∃ counts, (u.apply tx changes cut).1 = .ok counts) ∧
        (u.apply tx changes cut).2.world = whole) ∧
      (∃ counts, (u.apply tx changes whole).1 = .ok counts) ∧
        (u.apply tx changes whole).2.world = whole := by
  intro u whole cut hok
  have hfree := (apply_ok_iff schema entities find tx changes docs).mp hok
  have hrun (d : Documents) : (u.apply tx changes d).2.world =
      (replay entities find (schema.effects changes) d).2 :=
    apply_world schema entities find tx changes d
  have hagain {d : Documents} (hd : Midway entities find (schema.effects changes) docs d) :
      (∃ counts, (u.apply tx changes d).1 = .ok counts) ∧
        (u.apply tx changes d).2.world = whole := by
    refine ⟨(apply_ok_iff schema entities find tx changes d).mpr hfree, ?_⟩
    rw [hrun d, replay_of_midway hfind hfree hd, ← hrun docs]
  constructor
  · exact hagain (apply_unreliable schema entities find tx changes ⟨docs, faults⟩)
  · exact hagain fun key => ⟨_, List.prefix_rfl, by rw [← hrun docs]⟩

noncomputable def Lookup.searching (test : List String → EntityId → Record → Bool) : Lookup :=
  fun docs root fields id =>
    ((docs.keys.filter fun key => key.1 = root ∧ (docs.lookup key).any (test fields id)).image
      Prod.snd).toList

theorem searching_tests (test : List String → EntityId → Record → Bool) :
    (Lookup.searching test).Tests fun fields id r => test fields id r := by
  intro docs root fields id owner
  simp only [Lookup.searching, Finset.mem_toList, Finset.mem_image, Finset.mem_filter]
  constructor
  · rintro ⟨⟨_, _⟩, ⟨-, rfl, hany⟩, rfl⟩
    exact (Option.any_eq_true _ _).mp hany
  · rintro ⟨r, hr, htest⟩
    refine ⟨(root, owner), ⟨?_, rfl, ?_⟩, rfl⟩
    · rw [Finmap.mem_keys, ← Finmap.lookup_isSome, hr]
      rfl
    · rw [hr]
      exact htest

/-- A search through documents of which one only holds the id. -/
theorem searching_of_unique {test : List String → EntityId → Record → Bool} {docs : Documents}
    {root : EntityType} {fields : List String} {id owner : EntityId}
    (h : ∀ other, (∃ r, docs.lookup (root, other) = some r ∧ test fields id r) ↔ other = owner) :
    Lookup.searching test docs root fields id = [owner] := by
  refine Finset.toList_eq_singleton_iff.mpr (Finset.ext fun other => ?_)
  rw [Finset.mem_singleton, ← h other, ← searching_tests test docs root fields id other]
  exact Finset.mem_toList.symm

/-- The index goes down when the apprentice's document is deleted and the tower, which still names
him, is to be looked up. -/
theorem rerun_completes_after_outage :
    let u := Updater.ofSnapshot Sample.schema Sample.entities (Lookup.searching Sample.holds)
    let changes : List Change := [⟨Sample.sorcerer, .int 3, .delete⟩]
    let whole := (u.apply () changes Sample.formerly).2.world
    let cut := (u.unreliable.apply () changes
      ⟨Sample.formerly, [none, some "down"]⟩).2.world.world
    (cut.lookup (Sample.sorcerer, .int 3) = none ∧
      cut.lookup (Sample.place, .int 1) = some Sample.formerTower) ∧
    ((∃ counts, (u.apply () changes cut).1 = .ok counts) ∧
      (u.apply () changes cut).2.world = whole) ∧
    whole.lookup (Sample.place, .int 1) = some Sample.tower := by
  intro u changes whole cut
  have hok := (apply_ok_iff Sample.schema Sample.entities (Lookup.searching Sample.holds) ()
    changes Sample.formerly).mpr (by decide)
  obtain ⟨hagain, -⟩ := rerun_completes Sample.schema Sample.entities
    (searching_tests Sample.holds) () changes Sample.formerly [none, some "down"] hok
  refine ⟨⟨by rfl, by rfl⟩, hagain, ?_⟩
  -- without the apprentice's document, the search for his id comes to the tower only
  let left := Sample.formerly.erase (Sample.sorcerer, .int 3)
  have htower : left.lookup (Sample.place, .int 1) = some Sample.formerTower := by rfl
  have hfind : Lookup.searching Sample.holds left Sample.place ["sorcerers.id"] (.int 3) =
      [.int 1] := by
    refine searching_of_unique fun other => ⟨fun ⟨r, hr, _⟩ => ?_, ?_⟩
    · by_contra hother
      have hplace : (Sample.place, other) ≠ Sample.formerTower.key :=
        fun h => hother (Prod.mk.inj h).2
      have hsorcerer : (Sample.place, other) ≠ Sample.apprentice.key :=
        fun h => absurd (Prod.mk.inj h).1 (by decide)
      have hnone : (Sample.formerly.erase Sample.apprentice.key).lookup (Sample.place, other) =
          none := by
        rw [Finmap.lookup_erase_ne hsorcerer, Sample.formerly, Finmap.lookup_insert_of_ne _ hplace,
          Finmap.lookup_eq_none, Finmap.mem_singleton]
        exact hsorcerer
      cases hr.symm.trans hnone
    · rintro rfl
      exact ⟨_, htower, by decide⟩
  have hwhole : whole = (Effect.owners ⟨Sample.sorcerer, .int 3, .delete⟩
      (Embedding.ofRoot ⟨Sample.place, "id", .int64,
        [⟨Sample.sorcerer, ["sorcerers.id"], some "placeId"⟩]⟩)).apply
          Sample.entities (Lookup.searching Sample.holds) left :=
    apply_world Sample.schema Sample.entities (Lookup.searching Sample.holds) () changes
      Sample.formerly
  have hmem : EntityId.int 1 ∈
      Lookup.searching Sample.holds left Sample.place ["sorcerers.id"] (.int 3) :=
    hfind ▸ List.mem_singleton_self _
  rw [hwhole, Effect.lookup_apply_owners]
  exact if_pos ⟨rfl, hmem⟩

end Rerunning

end SearchSync
