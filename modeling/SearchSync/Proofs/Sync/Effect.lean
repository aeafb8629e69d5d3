import SearchSync.Proofs.Schema.Views
import SearchSync.Proofs.Sync.Documents
import SearchSync.Proofs.Text.Pieces

/-!
# What changes do to the documents

Each change has a list of effects, and replaying the effects needs no memory of what was written
before: every effect is carried out in full. The updater leaves writes out and looks entities up at
most once, so that it does the same is a theorem and not a definition.

In a well-formed schema each effect has one place among the effects of a batch: which changes come
before it, and which roots. Two questions are answered by it: which change has the last word on a
document of its own, and what has been done when the owners of a change are looked for.
-/

namespace SearchSync

inductive Effect
  /-- The changed entity's own document is written or deleted. -/
  | own (c : Change)
  /-- The documents of a root that embed the changed entity are rewritten. -/
  | owners (c : Change) (e : Embedding)
  /-- The batch stops, because the roots of a type cannot be found. -/
  | stop (type : EntityType) (reason : Unresolved)

namespace Schema

/-- What a change does to the documents of one root. -/
def effectsOn (schema : Schema) (c : Change) (root : EntityType) : List Effect :=
  match schema.embeddings.lookup root with
  | none => [.stop root .noEmbedding]
  | some e =>
    (if root = c.entityType then [.own c] else []) ++
      if root ≠ c.entityType || e.embeds c.entityType then [.owners c e] else []

def effectsOf (schema : Schema) (c : Change) : List Effect :=
  match schema.containment.rootsFor c.entityType with
  | none => [.stop c.entityType .notContained]
  | some roots => roots.flatMap (schema.effectsOn c)

def effects (schema : Schema) (changes : List Change) : List Effect :=
  changes.flatMap schema.effectsOf

variable {schema : Schema} {c : Change} {root : EntityType}

theorem effects_cons (c : Change) (rest : List Change) :
    schema.effects (c :: rest) = schema.effectsOf c ++ schema.effects rest := List.flatMap_cons

theorem effects_append (earlier later : List Change) :
    schema.effects (earlier ++ later) = schema.effects earlier ++ schema.effects later :=
  List.flatMap_append

theorem effectsOn_of_none (h : schema.embeddings.lookup root = none) :
    schema.effectsOn c root = [.stop root .noEmbedding] := by
  simp only [effectsOn, h]

theorem effectsOn_of_some {e : Embedding} (h : schema.embeddings.lookup root = some e) :
    schema.effectsOn c root = (if root = c.entityType then [.own c] else []) ++
      if root ≠ c.entityType || e.embeds c.entityType then [.owners c e] else [] := by
  simp only [effectsOn, h]

end Schema

namespace Snapshot

/-- What a change leaves of the changed entity. -/
def remains? (entities : Snapshot) (c : Change) : Option Record :=
  if c.kind = .delete then none else entities.find? c.key

theorem remains?_eq_none_iff {entities : Snapshot} {c : Change} :
    entities.remains? c = none ↔ c.kind = .delete ∨ entities.find? c.key = none := by
  by_cases hkind : c.kind = .delete <;> simp [remains?, hkind]

theorem remains?_eq_some_iff {entities : Snapshot} {c : Change} {r : Record} :
    entities.remains? c = some r ↔ c.kind ≠ .delete ∧ entities.find? c.key = some r := by
  by_cases hkind : c.kind = .delete <;> simp [remains?, hkind]

/-- The back-reference of the changed entity, where there is one to follow, read as ids. The inner
option is empty when it cannot be read. -/
def reference? (entities : Snapshot) (c : Change) (e : Embedding) :
    Option (Option (List EntityId)) :=
  match entities.remains? c, e.backReference? c.entityType with
  | some r, some property => some (r.referenceIds? property e.rootIdProperty e.rootIdType)
  | _, _ => none

/-- The ids of a root's documents that embed the changed entity. -/
def owners (entities : Snapshot) (find : Lookup) (c : Change) (e : Embedding)
    (docs : Documents) : List EntityId :=
  match entities.reference? c e with
  | some ids => ids.getD []
  | none =>
    match e.idFields c.entityType with
    | [] => []
    | fields => find docs e.root fields c.id

end Snapshot

namespace Effect

variable (entities : Snapshot) (find : Lookup)

/-- What keeps an effect from being carried out. It depends on the entities alone. -/
def obstacle? : Effect → Option UpdateError
  | .own _ => none
  | .owners c e =>
    match entities.reference? c e with
    | some none => some (.unresolved c.entityType .unreadableReference)
    | _ => none
  | .stop type reason => some (.unresolved type reason)

def apply : Effect → Documents → Documents
  | .own c, docs =>
    match entities.remains? c with
    | some r => docs.insert c.key r
    | none => docs.erase c.key
  | .owners c e, docs => docs.rewriteAll entities e.root (entities.owners find c e docs)
  | .stop _ _, docs => docs

theorem lookup_apply_own (c : Change) (docs : Documents) (key : DocumentKey) :
    ((own c).apply entities find docs).lookup key =
      if key = c.key then entities.remains? c else docs.lookup key := by
  simp only [apply]
  by_cases hk : key = c.key
  · subst key
    cases entities.remains? c <;> simp
  · cases entities.remains? c <;> simp [hk]

theorem lookup_apply_owners (c : Change) (e : Embedding) (docs : Documents) (key : DocumentKey) :
    ((owners c e).apply entities find docs).lookup key =
      if key.1 = e.root ∧ key.2 ∈ entities.owners find c e docs then
        (entities.find? key).or (docs.lookup key)
      else docs.lookup key :=
  Documents.lookup_rewriteAll entities e.root _ docs key

end Effect

/-- Carries effects out in order, up to the first that cannot be. -/
def replay (entities : Snapshot) (find : Lookup) :
    List Effect → Documents → Except UpdateError Unit × Documents
  | [], docs => (.ok (), docs)
  | eff :: rest, docs =>
    match eff.obstacle? entities with
    | some e => (.error e, docs)
    | none => replay entities find rest (eff.apply entities find docs)

section Replay

variable {entities : Snapshot} {find : Lookup} {eff : Effect} {xs ys : List Effect}
  {docs docs' : Documents}

theorem replay_cons (h : eff.obstacle? entities = none) :
    replay entities find (eff :: xs) docs =
      replay entities find xs (eff.apply entities find docs) := by
  simp only [replay, h]

theorem replay_cons_obstacle {e : UpdateError} (h : eff.obstacle? entities = some e) :
    replay entities find (eff :: xs) docs = (.error e, docs) := by
  simp only [replay, h]

theorem replay_append_ok (h : replay entities find xs docs = (.ok (), docs')) :
    replay entities find (xs ++ ys) docs = replay entities find ys docs' := by
  induction xs generalizing docs with
  | nil =>
    obtain rfl := (Prod.mk.inj h).2
    rfl
  | cons eff xs ih =>
    cases ho : eff.obstacle? entities with
    | some e => rw [replay_cons_obstacle ho] at h; cases h
    | none =>
      rw [replay_cons ho] at h
      rw [List.cons_append, replay_cons ho, ih h]

theorem replay_append_error {e : UpdateError}
    (h : replay entities find xs docs = (.error e, docs')) :
    replay entities find (xs ++ ys) docs = (.error e, docs') := by
  induction xs generalizing docs with
  | nil => cases h
  | cons eff xs ih =>
    cases ho : eff.obstacle? entities with
    | some e =>
      rw [replay_cons_obstacle ho] at h
      rw [List.cons_append, replay_cons_obstacle ho, h]
    | none =>
      rw [replay_cons ho] at h
      rw [List.cons_append, replay_cons ho, ih h]

/-- Whether a replay comes to its end, and what stops it, depends on the entities alone. -/
theorem replay_outcome (find find' : Lookup) (docs docs' : Documents) :
    (replay entities find xs docs).1 = (replay entities find' xs docs').1 := by
  induction xs generalizing docs docs' with
  | nil => rfl
  | cons eff xs ih =>
    cases ho : eff.obstacle? entities with
    | some e => rw [replay_cons_obstacle ho, replay_cons_obstacle ho]
    | none =>
      rw [replay_cons ho, replay_cons ho]
      exact ih _ _

theorem replay_ok_iff :
    (replay entities find xs docs).1 = .ok () ↔ ∀ eff ∈ xs, eff.obstacle? entities = none := by
  induction xs generalizing docs with
  | nil => exact ⟨fun _ => nofun, fun _ => rfl⟩
  | cons eff xs ih =>
    rw [List.forall_mem_cons]
    cases ho : eff.obstacle? entities with
    | some e =>
      rw [replay_cons_obstacle ho]
      exact ⟨nofun, fun h => nomatch h.1⟩
    | none =>
      rw [replay_cons ho, ih]
      exact ⟨fun h => ⟨rfl, h⟩, And.right⟩

theorem replay_append_free (h : ∀ eff ∈ xs, eff.obstacle? entities = none) :
    replay entities find (xs ++ ys) docs =
      replay entities find ys (replay entities find xs docs).2 :=
  replay_append_ok (Prod.ext (replay_ok_iff.mpr h) rfl)

end Replay

/-- Each document stands as it does somewhere in the replay, perhaps each somewhere else. -/
def Midway (entities : Snapshot) (find : Lookup) (effs : List Effect)
    (docs docs' : Documents) : Prop :=
  ∀ key, ∃ done, done <+: effs ∧ docs'.lookup key = (replay entities find done docs).2.lookup key

/-- The change, if the effect is to write or delete the document under the key for its own sake. -/
def Effect.own? (key : DocumentKey) : Effect → Option Change
  | .own c => if c.key = key then some c else none
  | _ => none

/-- The last change of the entity under the key that has an effect on its own document. -/
def lastOwn? (key : DocumentKey) (effs : List Effect) : Option Change :=
  effs.reverse.findSome? (Effect.own? key)

theorem lastOwn?_append (key : DocumentKey) (xs ys : List Effect) :
    lastOwn? key (xs ++ ys) = (lastOwn? key ys).or (lastOwn? key xs) := by
  rw [lastOwn?, List.reverse_append, List.findSome?_append]
  rfl

theorem lastOwn?_cons (key : DocumentKey) (eff : Effect) (rest : List Effect) :
    lastOwn? key (eff :: rest) = (lastOwn? key rest).or (eff.own? key) := by
  rw [lastOwn?, List.reverse_cons, List.findSome?_append, List.findSome?_singleton]
  rfl

theorem lastOwn?_eq_none_iff {key : DocumentKey} {effs : List Effect} :
    lastOwn? key effs = none ↔ ∀ c, .own c ∈ effs → c.key ≠ key := by
  unfold lastOwn?
  rw [List.findSome?_eq_none_iff]
  constructor
  · intro h c hc hkey
    have hnone := h (.own c) (List.mem_reverse.mpr hc)
    simp only [Effect.own?, hkey, ↓reduceIte] at hnone
    cases hnone
  · rintro h (c | _ | _) heff
    · exact if_neg (h c (List.mem_reverse.mp heff))
    · rfl
    · rfl

theorem mem_of_lastOwn? {key : DocumentKey} {effs : List Effect} {c : Change}
    (h : lastOwn? key effs = some c) : .own c ∈ effs ∧ c.key = key := by
  obtain ⟨eff, heff, hown⟩ := List.exists_of_findSome?_eq_some h
  cases eff with
  | own c' =>
    simp only [Effect.own?] at hown
    split at hown
    · rename_i hkey
      cases hown
      exact ⟨List.mem_reverse.mp heff, hkey⟩
    · cases hown
  | owners => cases hown
  | stop => cases hown

/-- Before and after the last effect on a document of its own. -/
theorem split_of_lastOwn? {key : DocumentKey} {effs : List Effect} {c : Change}
    (h : lastOwn? key effs = some c) :
    ∃ xs ys, effs = xs ++ .own c :: ys ∧ c.key = key ∧ lastOwn? key ys = none := by
  induction effs with
  | nil => cases h
  | cons eff rest ih =>
    cases hrest : lastOwn? key rest with
    | some c' =>
      rw [lastOwn?_cons, hrest, Option.some_or] at h
      cases h
      obtain ⟨xs, ys, rfl, hkey, hnone⟩ := ih hrest
      exact ⟨eff :: xs, ys, rfl, hkey, hnone⟩
    | none =>
      obtain ⟨hmem, hkey⟩ := mem_of_lastOwn? h
      rcases List.mem_cons.mp hmem with rfl | hmem
      · exact ⟨[], rest, rfl, hkey, hrest⟩
      · exact absurd hkey (lastOwn?_eq_none_iff.mp hrest c hmem)

theorem append_split {α : Type} {l m xs ys : List α} {y : α} (h : l ++ m = xs ++ y :: ys) :
    (∃ zs, l = xs ++ y :: zs ∧ ys = zs ++ m) ∨ ∃ zs, xs = l ++ zs ∧ m = zs ++ y :: ys := by
  rcases List.append_eq_append_iff.mp h with ⟨zs, hxs, hm⟩ | ⟨zs, hl, hm⟩
  · exact Or.inr ⟨zs, hxs, hm⟩
  · cases zs with
    | nil =>
      rw [List.append_nil] at hl
      exact Or.inr ⟨[], by rw [hl, List.append_nil], hm.symm⟩
    | cons z zs =>
      obtain ⟨rfl, rfl⟩ := List.cons.inj hm
      exact Or.inl ⟨zs, hl, rfl⟩

private theorem flatMap_split {α β : Type} {f : α → List β} {l : List α} {xs ys : List β} {y : β}
    (h : l.flatMap f = xs ++ y :: ys) :
    ∃ before a after zs ws, l = before ++ a :: after ∧ f a = zs ++ y :: ws ∧
      xs = before.flatMap f ++ zs ∧ ys = ws ++ after.flatMap f := by
  induction l generalizing xs with
  | nil =>
    exact absurd h.symm (by simp)
  | cons a l ih =>
    rw [List.flatMap_cons] at h
    rcases append_split h with ⟨ws, ha, rfl⟩ | ⟨zs, rfl, hl⟩
    · exact ⟨[], a, l, xs, ws, rfl, ha, rfl, rfl⟩
    · obtain ⟨before, a', after, zs', ws, rfl, ha', rfl, rfl⟩ := ih hl
      refine ⟨a :: before, a', after, zs', ws, rfl, ha', ?_, rfl⟩
      rw [List.flatMap_cons, List.append_assoc]

namespace Schema

/-- What a batch does before `c` is resolved to the documents of `e`. -/
def effectsBefore (schema : Schema) (earlier : List Change) (c : Change) (e : Embedding) :
    List Effect :=
  schema.effects earlier ++
    ((((schema.containment.rootsFor c.entityType).getD []).takeWhile (· ≠ e.root)).flatMap
      (schema.effectsOn c) ++ if e.root = c.entityType then [.own c] else [])

variable {schema : Schema}

theorem own_mem_effectsOn {c c' : Change} {root : EntityType} :
    .own c' ∈ schema.effectsOn c root ↔
      c' = c ∧ root = c.entityType ∧ root ∈ schema.rootTypes := by
  rw [← isSome_lookup_embeddings]
  cases he : schema.embeddings.lookup root with
  | none =>
    rw [effectsOn_of_none he]
    simp
  | some e =>
    rw [effectsOn_of_some he]
    simp [and_comm]

theorem WellFormed.getD_rootsFor (h : schema.WellFormed) (type : EntityType) :
    (schema.containment.rootsFor type).getD [] = schema.holders type := by
  rw [h.rootsFor_eq]
  by_cases hnil : schema.holders type = [] <;> simp [hnil]

theorem WellFormed.effectsOf_eq (h : schema.WellFormed) (c : Change) :
    schema.effectsOf c =
      if schema.holders c.entityType = [] then [.stop c.entityType .notContained]
      else (schema.holders c.entityType).flatMap (schema.effectsOn c) := by
  unfold effectsOf
  rw [h.rootsFor_eq]
  by_cases hnil : schema.holders c.entityType = [] <;> simp [hnil]

theorem WellFormed.own_mem_effectsOf (h : schema.WellFormed) {c c' : Change} :
    .own c' ∈ schema.effectsOf c ↔ c' = c ∧ c.entityType ∈ schema.rootTypes := by
  rw [h.effectsOf_eq]
  constructor
  · intro hmem
    split at hmem
    · simp at hmem
    · obtain ⟨root, -, hown⟩ := List.mem_flatMap.mp hmem
      obtain ⟨rfl, rfl, hdeclared⟩ := own_mem_effectsOn.mp hown
      exact ⟨rfl, hdeclared⟩
  · rintro ⟨rfl, hmem⟩
    obtain ⟨r, hr, hroot⟩ := List.mem_map.mp hmem
    have hholder : c'.entityType ∈ schema.holders c'.entityType :=
      mem_holders.mpr ⟨r, hr, hroot, Or.inl rfl⟩
    rw [if_neg (List.ne_nil_of_mem hholder), List.mem_flatMap]
    exact ⟨c'.entityType, hholder, own_mem_effectsOn.mpr ⟨rfl, rfl, hmem⟩⟩

theorem WellFormed.lastOwn?_effects (h : schema.WellFormed) {key : DocumentKey}
    (hkey : key.1 ∈ schema.rootTypes) (changes : List Change) :
    lastOwn? key (schema.effects changes) = changes.reverse.find? (·.key = key) := by
  induction changes with
  | nil => rfl
  | cons c rest ih =>
    rw [effects_cons, lastOwn?_append, List.reverse_cons, List.find?_append, ih,
      List.find?_singleton]
    refine congrArg _ ?_
    by_cases hc : c.key = key
    · subst key
      rw [if_pos (decide_eq_true rfl)]
      cases hlast : lastOwn? c.key (schema.effectsOf c) with
      | none =>
        have hown := h.own_mem_effectsOf.mpr ⟨rfl, hkey⟩
        exact absurd rfl (lastOwn?_eq_none_iff.mp hlast c hown)
      | some c' => rw [(h.own_mem_effectsOf.mp (mem_of_lastOwn? hlast).1).1]
    · rw [if_neg (by simpa using hc), lastOwn?_eq_none_iff]
      intro c' hc'
      rw [(h.own_mem_effectsOf.mp hc').1]
      exact hc

theorem WellFormed.lastOwn?_effects_eq_none (h : schema.WellFormed) {key : DocumentKey}
    (hkey : key.1 ∈ schema.rootTypes) {changes : List Change} :
    lastOwn? key (schema.effects changes) = none ↔ ∀ c ∈ changes, c.key ≠ key := by
  rw [h.lastOwn?_effects hkey, List.find?_eq_none]
  simp

theorem effectsOn_split {c c' : Change} {root : EntityType} {e : Embedding}
    {xs ys : List Effect} (hsplit : schema.effectsOn c root = xs ++ .owners c' e :: ys) :
    c' = c ∧ schema.embeddings.lookup root = some e ∧
      (root = c.entityType → e.embeds c.entityType = true) ∧
      xs = (if root = c.entityType then [.own c] else []) ∧ ys = [] := by
  cases he : schema.embeddings.lookup root with
  | none =>
    rw [effectsOn_of_none he] at hsplit
    rcases xs with _ | ⟨x, xs⟩ <;> simp at hsplit
  | some e' =>
    rw [effectsOn_of_some he] at hsplit
    by_cases hown : root = c.entityType
    · cases hembeds : e'.embeds c.entityType with
      | false => rcases xs with _ | ⟨x, xs⟩ <;> simp [hown, hembeds] at hsplit
      | true =>
        rcases xs with _ | ⟨x, _ | ⟨x', xs⟩⟩ <;> simp [hown, hembeds] at hsplit
        obtain ⟨rfl, ⟨rfl, rfl⟩, rfl⟩ := hsplit
        exact ⟨rfl, rfl, fun _ => hembeds, (if_pos hown).symm, rfl⟩
    · rcases xs with _ | ⟨x, xs⟩ <;> simp [hown] at hsplit
      obtain ⟨⟨rfl, rfl⟩, rfl⟩ := hsplit
      exact ⟨rfl, rfl, fun h => absurd h hown, (if_neg hown).symm, rfl⟩

/-- No change of the entity itself comes after the first of the roots that hold it. -/
theorem WellFormed.lastOwn?_rest (h : schema.WellFormed) {c : Change} {root : EntityType}
    {before after : List EntityType}
    (hlist : schema.holders c.entityType = before ++ root :: after) (key : DocumentKey) :
    lastOwn? key (after.flatMap (schema.effectsOn c)) = none := by
  rw [lastOwn?_eq_none_iff]
  intro c' hc'
  obtain ⟨root', hroot', hown⟩ := List.mem_flatMap.mp hc'
  obtain ⟨-, rfl, hdeclared⟩ := own_mem_effectsOn.mp hown
  have hnodup := h.holders_nodup c.entityType
  rw [hlist] at hnodup
  rw [holders, if_pos hdeclared, List.singleton_append] at hlist
  cases before with
  | nil =>
    rw [(List.cons.inj hlist).1] at hroot'
    exact absurd hroot' (List.nodup_cons.mp hnodup).1
  | cons t before =>
    rw [(List.cons.inj hlist).1] at hroot'
    exact absurd (List.mem_append_right before (List.mem_cons_of_mem root hroot'))
      (List.nodup_cons.mp hnodup).1

/-- Where an effect on embedding documents stands among the effects of a change. The changed
entity's own document is not touched after it. -/
theorem WellFormed.effectsOf_split (h : schema.WellFormed) (earlier : List Change)
    {c c' : Change} {e : Embedding} {xs ys : List Effect}
    (hsplit : schema.effectsOf c = xs ++ .owners c' e :: ys) :
    (c' = c ∧ schema.embeddings.lookup e.root = some e ∧ e.embeds c.entityType = true) ∧
      schema.effects earlier ++ xs = schema.effectsBefore earlier c e ∧
      ∀ key, lastOwn? key ys = none := by
  have hholders : schema.holders c.entityType ≠ [] := by
    intro hnil
    rw [h.effectsOf_eq, if_pos hnil] at hsplit
    rcases xs with _ | ⟨x, xs⟩ <;> simp at hsplit
  rw [h.effectsOf_eq, if_neg hholders] at hsplit
  obtain ⟨before, root, after, zs, ws, hlist, hroot, rfl, rfl⟩ := flatMap_split hsplit
  obtain ⟨rfl, he, hself, rfl, rfl⟩ := effectsOn_split hroot
  obtain ⟨r, hr, rfl, rfl⟩ := root_of_lookup_embeddings he
  have hmem : r.entityType ∈ schema.holders c'.entityType := by
    rw [hlist]
    exact List.mem_append_right before List.mem_cons_self
  have hembeds : (Embedding.ofRoot r).embeds c'.entityType = true := by
    by_cases hown : r.entityType = c'.entityType
    · exact hself hown
    · obtain ⟨r', hr', hroot', hor⟩ := mem_holders.mp hmem
      have he' := h.lookup_embeddings hr'
      rw [hroot', he] at he'
      rw [Option.some.inj he', (h.contained r' hr').embeds_iff]
      exact hor.resolve_left hown
  have hfresh : r.entityType ∉ before := by
    have hnodup := h.holders_nodup c'.entityType
    rw [hlist, List.nodup_append] at hnodup
    intro hbefore
    exact hnodup.2.2 _ hbefore _ List.mem_cons_self rfl
  have hserved : (before ++ r.entityType :: after).takeWhile (· ≠ (Embedding.ofRoot r).root) =
      before := takeWhile_ne hfresh
  refine ⟨⟨rfl, he, hembeds⟩, ?_, h.lastOwn?_rest hlist⟩
  rw [effectsBefore, h.getD_rootsFor, hlist, hserved]
  rfl

theorem WellFormed.root_mem_holders (h : schema.WellFormed) {e : Embedding} {type : EntityType}
    (he : schema.embeddings.lookup e.root = some e) (hembeds : e.embeds type = true) :
    e.root ∈ schema.holders type := by
  obtain ⟨r, hr, -, rfl⟩ := root_of_lookup_embeddings he
  exact mem_holders.mpr ⟨r, hr, rfl, Or.inr (((h.contained r hr).embeds_iff type).mp hembeds)⟩

/-- The effects of a batch around the moment at which one of its changes is resolved. -/
theorem WellFormed.effects_resolve (h : schema.WellFormed) {c : Change} {e : Embedding}
    (he : schema.embeddings.lookup e.root = some e) (hembeds : e.embeds c.entityType = true)
    (earlier later : List Change) :
    ∃ after, schema.effects (earlier ++ c :: later) =
        schema.effectsBefore earlier c e ++ .owners c e :: after ∧
      ∀ key, lastOwn? key after = lastOwn? key (schema.effects later) := by
  have hroot := h.root_mem_holders he hembeds
  have hmem : .owners c e ∈ schema.effectsOf c := by
    rw [h.effectsOf_eq, if_neg (List.ne_nil_of_mem hroot), List.mem_flatMap]
    refine ⟨e.root, hroot, ?_⟩
    rw [effectsOn_of_some he, hembeds, Bool.or_true, if_pos rfl]
    exact List.mem_append_right _ (List.mem_singleton_self _)
  obtain ⟨xs, ys, hsplit⟩ := List.append_of_mem hmem
  obtain ⟨-, hbefore, hnone⟩ := h.effectsOf_split earlier hsplit
  refine ⟨ys ++ schema.effects later, ?_, fun key => ?_⟩
  · rw [effects_append, effects_cons, hsplit, ← hbefore]
    simp only [List.append_assoc, List.cons_append]
  · rw [lastOwn?_append, hnone, Option.or_none]

theorem WellFormed.effects_split (h : schema.WellFormed) {changes : List Change} {c : Change}
    {e : Embedding} {xs ys : List Effect}
    (hsplit : schema.effects changes = xs ++ .owners c e :: ys) :
    ∃ earlier later, changes = earlier ++ c :: later ∧
      (schema.embeddings.lookup e.root = some e ∧ e.embeds c.entityType = true) ∧
      xs = schema.effectsBefore earlier c e ∧
      ∀ key, lastOwn? key ys = lastOwn? key (schema.effects later) := by
  obtain ⟨earlier, c', later, zs, ws, rfl, hc', rfl, rfl⟩ := flatMap_split hsplit
  obtain ⟨⟨rfl, he, hembeds⟩, hbefore, hnone⟩ := h.effectsOf_split earlier hc'
  refine ⟨earlier, later, rfl, ⟨he, hembeds⟩, hbefore, fun key => ?_⟩
  rw [lastOwn?_append, hnone, Option.or_none]
  rfl

end Schema

end SearchSync
