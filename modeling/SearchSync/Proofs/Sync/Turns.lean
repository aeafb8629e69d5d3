import SearchSync.Proofs.Sync.Accounts
import SearchSync.Proofs.Sync.Resolution

/-!
# Roots in turn

A change is applied to the roots that hold its entity one after the other, and in the turn of a root
the documents that embed the entity are looked for in one place only: where its record refers to,
else where its id is found, else nowhere, and then there is a warning. Before the turn and after it
nothing is done for the root but for the change's own document, so the turn tells all of the change.
-/
namespace SearchSync

open BatchAction

variable {τ σ : Type}

section Turn

variable {entities : Snapshot} {tx : τ} {c : Change} {e : Embedding} {written : List DocumentKey}

/-- What is done in a turn: the documents that the record refers to are updated, or those that hold
the id of the entity, or there is a warning. -/
inductive Turned (entities : Snapshot) (tx : τ) (c : Change) (e : Embedding)
    (written : List DocumentKey) : Account τ → Prop
  | referring {r : Record} {property : String} {ids : List EntityId}
    (hr : entities.remains? c = some r) (hp : e.backReference? c.entityType = some property)
    (hids : r.referenceIds? property e.rootIdProperty e.rootIdType = some ids) :
    Turned entities tx c e written (.turn entities tx e.root [] ids written)
  | searching (ids : List EntityId)
    (hnone : entities.remains? c = none ∨ e.backReference? c.entityType = none)
    (hfields : e.idFields c.entityType ≠ []) :
    Turned entities tx c e written (.turn entities tx e.root
      [⟨.findRootIds e.root (e.idFields c.entityType) c.id, .ok ids⟩] ids written)
  | unlocated (hnone : entities.remains? c = none ∨ e.backReference? c.entityType = none)
    (hfields : e.idFields c.entityType = []) :
    Turned entities tx c e written (.warned ⟨e.root, c.entityType, c.id⟩)

/-- What is left to do in the turn of a root, with what has been done in `a`. -/
def Stage.Turning (entities : Snapshot) (tx : τ) (c : Change) (e : Embedding)
    (before written : List DocumentKey) (a : Account τ) : Stage → Prop
  | turn e' _ => e' = e ∧ written = before ∧ a = .idle
  | refer e' r _ => (e' = e ∧ written = before ∧ a = .idle) ∧ r = entities.remains? c
  | search e' _ => (e' = e ∧ written = before ∧ a = .idle) ∧
      (entities.remains? c = none ∨ e.backReference? c.entityType = none)
  | found e' ids _ => e' = e ∧
      Turned entities tx c e before (a.append (.turn entities tx e.root [] ids written))
  | load e' records _ => e' = e ∧ (∀ r ∈ records, entities.find? (e.root, r.id) = some r) ∧
      Turned entities tx c e before
        (a.append (.turn entities tx e.root [] (records.map (·.id)) written))
  | serve _ => Turned entities tx c e before a
  | own _ _ | settle _ _ _ => False

variable {u : Updater τ σ} {all : List EntityType}

theorem turning_keeps (hu : u.Answers entities) (b : Batch (Logged τ σ)) :
    u.logged.Keeps tx all c Stage.isServe
      (fun s b' => ∃ a, Passes entities c a b b' ∧
        s.Turning entities tx c e b.written b'.written a)
      (fun err b' => Passes entities c .idle b b' ∧
        err = .unresolved c.entityType .unreadableReference ∧
        entities.reference? c e = some none) := by
  rintro s b₁ act hhalt ⟨a, h, hs⟩ hact
  cases hact with
  | done | unknown | own | other => cases hhalt
  | removed | settled | unsettled | delete | index | update => exact hs.elim
  | gone hkind => exact ⟨a, h, hs, (if_pos hkind).symm⟩
  | there hkind =>
    refine h.knows.exec_ask hu fun b' hwritten h' => ?_
    refine ⟨_, h.trans h', ⟨hs.1, ?_, ?_⟩, (if_neg hkind).symm⟩
    · exact hwritten.trans hs.2.1
    · rw [hs.2.2, Account.append_idle]
  | @referred e r property ids rest hproperty hids =>
    obtain ⟨⟨rfl, hwritten, rfl⟩, hr⟩ := hs
    refine ⟨_, h, rfl, ?_⟩
    rw [hwritten]
    exact .referring hr.symm hproperty hids
  | @unreadable e r property rest hproperty hids =>
    obtain ⟨⟨rfl, -, rfl⟩, hr⟩ := hs
    refine ⟨h, rfl, ?_⟩
    simp only [Snapshot.reference?, ← hr, hproperty, hids]
  | unreferred hnone =>
    obtain ⟨⟨rfl, hwritten, rfl⟩, rfl⟩ := hs
    exact ⟨_, h, ⟨rfl, hwritten, rfl⟩, hnone⟩
  | @unlocated e rest hfields =>
    obtain ⟨⟨rfl, -, rfl⟩, hnone⟩ := hs
    refine ⟨_, h.trans (h.knows.warns _), rfl, ?_⟩
    rw [Account.turn_nil, Account.append_idle]
    exact .unlocated hnone hfields
  | @located e rest hfields =>
    obtain ⟨⟨rfl, hwritten, rfl⟩, hnone⟩ := hs
    refine h.knows.exec_look hu rfl fun (ids : List EntityId) w w' _ b' hsame h' => ?_
    refine ⟨_, h.trans h', rfl, ?_⟩
    rw [hsame, hwritten, Account.append_assoc, Account.search_append]
    exact .searching ids hnone hfields
  | @idle e ids rest hids =>
    obtain ⟨rfl, hturned⟩ := hs
    rw [← Account.turn_firsts, hids, Account.turn_nil, Account.append_idle] at hturned
    exact ⟨a, h, hturned⟩
  | @pending e ids ids' rest hids hne =>
    obtain ⟨rfl, hturned⟩ := hs
    refine h.knows.exec_look hu rfl fun (records : List Record) w w' hw b' hsame h' => ?_
    obtain ⟨hstored, hmem⟩ := hu.store.mem_ids hw
    have hfetched : Account.turn entities tx e.root [] ids' b₁.written =
        .turn entities tx e.root [] (records.map (·.id)) b₁.written := by
      refine Account.turn_congr [] fun id hsome => ?_
      rw [hmem]
      tauto
    rw [Account.ofExchange_of_store (fun _ => rfl) rfl] at h'
    refine ⟨_, h.trans h', rfl, hstored, ?_⟩
    rw [Account.append_idle, hsame, ← hfetched, ← hids, Account.turn_firsts]
    exact hturned
  | loaded =>
    obtain ⟨rfl, -, hturned⟩ := hs
    rw [List.map_nil, Account.turn_nil, Account.append_idle] at hturned
    exact ⟨a, h, hturned⟩
  | skipped hwritten =>
    obtain ⟨rfl, hstored, hturned⟩ := hs
    rw [List.map_cons, Account.turn_cons_of_mem hwritten] at hturned
    exact ⟨a, h, rfl, (List.forall_mem_cons.mp hstored).2, hturned⟩
  | @updated e r records rest hnew =>
    obtain ⟨rfl, hstored, hturned⟩ := hs
    obtain ⟨hr, hstored⟩ := List.forall_mem_cons.mp hstored
    have hkey : r.key = (e.root, r.id) := entities.key_of_find? hr
    refine h.knows.exec_write hu (Call.write?_update hkey tx) fun _ b' hwritten h' => ?_
    refine ⟨_, h.trans h', rfl, hstored, ?_⟩
    rw [List.map_cons, Account.turn_cons hr hnew, ← Account.append_assoc] at hturned
    rw [hwritten]
    exact hturned

/-- The turn of a root goes through, unless the reference of the changed entity cannot be read. -/
theorem propagate_turned (hu : u.Answers entities) {b : Batch (Logged τ σ)}
    (hb : Knows entities c b) (tx : τ) :
    (u.logged.propagate tx c e).Ensures b
      (fun _ b' => ∃ a, Passes entities c a b b' ∧ Turned entities tx c e b.written a)
      (fun err b' => Passes entities c .idle b b' ∧
        err = .unresolved c.entityType .unreadableReference ∧
        entities.reference? c e = some none) := by
  have hstart : ∃ a, Passes entities c a b b ∧
      (Stage.turn e []).Turning entities tx c e b.written b.written a :=
    ⟨.idle, passes_idle hb, rfl, rfl, rfl⟩
  exact (turning_keeps hu b : u.logged.Keeps tx [] c _ _ _).propagate hstart

end Turn

/-- The turn of a root that contains the changed entity as `t` says. The owners are those to whom
the record refers, while there is one and it has a back-reference. Otherwise they are searched for
by the id of the entity, and where there are no fields to search by, a warning says so. -/
structure TakesTurn (entities : Snapshot) (tx : τ) (c : Change) (root : RootType)
    (t : ContainedType) (b b' : Batch (Logged τ σ)) : Prop where
  referring : ∀ r property, c.kind ≠ .delete → entities.find? c.key = some r →
    t.backReference = some property → ∃ ids,
      r.referenceIds? property root.idProperty root.idType = some ids ∧
        Passes entities c (.turn entities tx root.entityType [] ids b.written) b b'
  searching : c.kind = .delete ∨ entities.find? c.key = none ∨ t.backReference = none →
    t.idFields ≠ [] → ∃ ids, Passes entities c (.turn entities tx root.entityType
      [⟨.findRootIds root.entityType t.idFields c.id, .ok ids⟩] ids b.written) b b'
  unlocated : c.kind = .delete ∨ entities.find? c.key = none ∨ t.backReference = none →
    t.idFields = [] → (t.backReference.isSome ∧
      (c.kind = .delete ∨ entities.find? c.key = none)) ∧
        Passes entities c (.warned ⟨root.entityType, c.entityType, c.id⟩) b b'

section Change

variable {schema : Schema} {store : EntityStore σ} {sink : SearchIndex τ σ} {entities : Snapshot}
  {c : Change} {root : RootType} {t : ContainedType} {tx : τ} {b b' : Batch (Logged τ σ)}

/-- What the embedding says of the changed entity is what the root declares. -/
theorem Turned.takesTurn {a : Account τ}
    (h : Turned entities tx c (.ofRoot root) b.written a) (hpasses : Passes entities c a b b')
    (hroot : root.WellFormed) (ht : t ∈ root.contained) (htype : c.entityType = t.entityType) :
    TakesTurn entities tx c root t b b' := by
  have hreference : (Embedding.ofRoot root).backReference? c.entityType = t.backReference := by
    rw [htype]
    exact hroot.backReference?_eq ht
  have hidFields : (Embedding.ofRoot root).idFields c.entityType = t.idFields := by
    rw [htype]
    exact hroot.idFields_eq ht
  have hunreferred (hnone : entities.remains? c = none ∨ t.backReference = none) (r : Record)
      (property : String) (hkind : c.kind ≠ .delete) (hr : entities.find? c.key = some r) :
      t.backReference ≠ some property := by
    intro hp
    rcases hnone with hgone | hno
    · cases hgone.symm.trans (Snapshot.remains?_eq_some_iff.mpr ⟨hkind, hr⟩)
    · cases hno.symm.trans hp
  cases h with
  | referring hr hp hids =>
    rw [hreference] at hp
    have hfollowed :
        ¬(c.kind = .delete ∨ entities.find? c.key = none ∨ t.backReference = none) := by
      rw [← or_assoc, ← Snapshot.remains?_eq_none_iff, hr, hp]
      simp
    refine ⟨?_, fun hnone => absurd hnone hfollowed, fun hnone => absurd hnone hfollowed⟩
    intro r' property' hkind hr' hp'
    obtain rfl := Option.some.inj (hr.symm.trans (Snapshot.remains?_eq_some_iff.mpr ⟨hkind, hr'⟩))
    obtain rfl := Option.some.inj (hp.symm.trans hp')
    exact ⟨_, hids, hpasses⟩
  | searching ids hnone hfields =>
    rw [hreference] at hnone
    rw [hidFields] at hfields hpasses
    exact
      { referring := fun r property hkind hr hp => absurd hp (hunreferred hnone r property hkind hr)
        searching := fun _ _ => ⟨ids, hpasses⟩
        unlocated := fun _ hempty => absurd hempty hfields }
  | unlocated hnone hfields =>
    rw [hreference] at hnone
    rw [hidFields] at hfields
    have hdeclared := (hroot.findable ht).resolve_left (absurd hfields)
    have hgone := hnone.resolve_right (Option.isSome_iff_ne_none.mp hdeclared)
    exact
      { referring := fun r property hkind hr hp => absurd hp (hunreferred hnone r property hkind hr)
        searching := fun _ hne => absurd hfields hne
        unlocated := fun _ _ =>
          ⟨⟨hdeclared, Snapshot.remains?_eq_none_iff.mp hgone⟩, hpasses⟩ }

/-- The way to and from the turn of a root concerns other roots, or the change's own document. -/
theorem bypassing_keeps (hu : (Updater.ofSchema schema store sink).Answers entities)
    (root : EntityType) (except : DocumentKey → Prop) (b : Batch (Logged τ σ))
    {all : List EntityType} {halt : Stage → Bool} :
    (Updater.ofSchema schema store sink).logged.Keeps tx all c halt
      (fun s b' => (s.Clear schema entities c root halt ∧ b'.Told entities c) ∧
        (∀ type ∈ s.rest, (schema.embeddings.lookup type).isSome) ∧
        (s.Awaits c → ∀ key : DocumentKey, key.1 = root → key = c.key → except key) ∧
        Bypassed entities c root except b b')
      (fun err b' => True ∧ err.Located ∧ True ∧ Bypassed entities c root except b b' ∧
        (err.Located → err = .unresolved c.entityType .unreadableReference ∧
          ∃ other ∈ schema.roots, other.entityType ≠ root ∧
            entities.reference? c (.ofRoot other) = some none)) := by
  rintro s b₁ act hhalt ⟨hstage, hrest, hexcept, h⟩ hact
  have hleads : act.Leads fun s' =>
      s'.Awaits c → ∀ key : DocumentKey, key.1 = root → key = c.key → except key :=
    hact.awaits.mono fun s' (hs' : s'.Awaits c → s.Awaits c) hawaits => hexcept (hs' hawaits)
  refine (clear_keeps rfl hu.store.logged root hhalt hstage hact).and
    ((located_keeps _ tx all c hhalt hrest hact).and ((Updater.exec_leads hleads b₁).and ?_))
  obtain ⟨hclear, -⟩ := hstage
  have hmore {a : Account τ} {b' : Batch (Logged τ σ)} (h' : Passes entities c a b₁ b')
      (hspares : a.Spares root except) : Bypassed entities c root except b b' :=
    h.trans ⟨a, h', hspares⟩
  have hput {failed : UpdateError → Batch (Logged τ σ) → Prop} {kind : WriteKind} {call : Call τ}
      {s' : Stage} (hawaits : s.Awaits c) (hwrite : call.write? = some (kind, c.key)) :
      ((Updater.ofSchema schema store sink).logged.exec c (.write kind c.key call s')).Ensures b₁
        (fun _ b' => Bypassed entities c root except b b') failed := by
    refine h.knows.exec_write hu hwrite fun _ b' _ h' => hmore h' ?_
    refine Account.spares_ofExchange (Call.seeks_of_write hwrite root) fun key hkey hnot => ?_
    refine Call.spares_of_write hwrite fun hsame => ?_
    exact hnot (hexcept hawaits key hkey hsame.symm)
  have hrecord {r : Record} (hr : some r = entities.remains? c) : r.key = c.key :=
    entities.key_of_find? (Snapshot.remains?_eq_some_iff.mp hr.symm).2
  cases hact with
  | done | own | other | removed | settled | gone | referred | unreferred | idle | loaded
  | skipped => exact h
  | unknown => exact ⟨h, nofun⟩
  | @unreadable e r property rest hproperty hids =>
    obtain ⟨⟨-, ⟨other, hother, rfl⟩, hne⟩, hr⟩ := hclear
    refine ⟨h, fun _ => ⟨rfl, other, hother, hne, ?_⟩⟩
    simp only [Snapshot.reference?, ← hr, hproperty, hids]
  | unsettled | there =>
    exact h.knows.exec_ask hu fun b' _ h' => hmore h' (Account.spares_idle root except)
  | delete => exact hput trivial rfl
  | index => exact hput trivial (Call.write?_index (hrecord hclear.2) tx)
  | update => exact hput trivial (Call.write?_update (hrecord hclear.2) tx)
  | unlocated => exact hmore (h.knows.warns _) (Account.spares_warned hclear.2)
  | located =>
    refine h.knows.exec_look hu rfl fun _ _ _ _ b' _ h' => hmore h' ?_
    exact Account.spares_ofExchange (decide_eq_false hclear.2) fun _ _ _ => Call.spares_of_look rfl
  | pending =>
    refine h.knows.exec_look hu rfl fun _ _ _ _ b' _ h' => hmore h' ?_
    exact Account.spares_ofExchange rfl fun _ _ _ => Call.spares_of_look rfl
  | @updated e r records rest hnew =>
    have hkey : r.key = (e.root, r.id) := entities.key_of_find? (hclear.2 r List.mem_cons_self)
    have hwrite := Call.write?_update hkey tx
    refine h.knows.exec_write hu hwrite fun _ b' _ h' => hmore h' ?_
    refine Account.spares_ofExchange (Call.seeks_of_write hwrite root) fun key hroot _ => ?_
    exact Call.spares_of_write hwrite fun hsame =>
      hclear.1.2 ((congrArg Prod.fst hsame).trans hroot)

/-- What is done before the turn of a root concerns other roots, or the change's own document. -/
theorem lead_bypasses (h : schema.WellFormed) (hroot : root ∈ schema.roots)
    (hembeds : (Embedding.ofRoot root).embeds c.entityType = true)
    (hu : (Updater.ofSchema schema store sink).Answers entities) (hb : b.Mindful) (tx : τ) :
    ((Updater.ofSchema schema store sink).logged.lead tx c root.entityType).Ensures b
      (fun _ b' => Bypassed entities c root.entityType (· = c.key) b b')
      (fun err b' => Bypassed entities c root.entityType (· = c.key) b b' ∧
        err = .unresolved c.entityType .unreadableReference ∧ ∃ other ∈ schema.roots,
          other.entityType ≠ root.entityType ∧
            entities.reference? c (.ofRoot other) = some none) := by
  have hlookup := h.lookup_embeddings hroot
  have hholder : root.entityType ∈ schema.holders c.entityType :=
    h.root_mem_holders hlookup hembeds
  obtain ⟨before, rest, hlist, hnot, hroots⟩ := h.split_rootsFor hholder
  have hclear : schema.Clear c root.entityType (Stage.isTurn rest)
      (before ++ root.entityType :: rest) :=
    Schema.clear_before (hlist ▸ h.holders_nodup c.entityType)
  have hrest : ∀ type ∈ before ++ root.entityType :: rest,
      (schema.embeddings.lookup type).isSome := by
    rw [← hlist]
    exact fun type => h.isSome_lookup_embeddings
  have hknows : Knows entities c { b with answer := none } := ⟨nofun, hb⟩
  refine (Updater.Keeps.lead (e := .ofRoot root) (bypassing_keeps hu _ (· = c.key) b) hroots hnot
    hlookup hembeds ⟨⟨hclear, nofun⟩, hrest, fun _ _ _ => id, (bypassed_refl hknows).of_asked⟩).mono
      ?_ ?_
  · exact fun _ b' hb' => hb'.2.2.2
  · rintro err b' ⟨-, hlocated, -, hb', hfail⟩
    exact ⟨hb', hfail hlocated⟩

theorem onward_bypasses (h : schema.WellFormed)
    (hu : (Updater.ofSchema schema store sink).Answers entities) (hb : Knows entities c b) (tx : τ)
    {root : EntityType} (hroot : root ∈ schema.holders c.entityType) :
    ((Updater.ofSchema schema store sink).logged.onward tx c root).Ensures b
      (fun _ b' => Bypassed entities c root (fun _ => False) b b')
      (fun err b' => Bypassed entities c root (fun _ => False) b b' ∧
        err = .unresolved c.entityType .unreadableReference ∧ ∃ other ∈ schema.roots,
          other.entityType ≠ root ∧ entities.reference? c (.ofRoot other) = some none) := by
  obtain ⟨before, rest, hlist, hnot, hroots⟩ := h.split_rootsFor hroot
  obtain ⟨hself, hown⟩ := h.rest_of_holders hlist
  have hrest : ∀ type ∈ rest, (schema.embeddings.lookup type).isSome := by
    intro type htype
    have hholder : type ∈ schema.holders c.entityType := by
      rw [hlist]
      exact List.mem_append_right before (List.mem_cons_of_mem root htype)
    exact h.isSome_lookup_embeddings hholder
  rw [Updater.onward_eq hroots hnot]
  refine (Updater.Keeps.applyToRoots (bypassing_keeps hu root (fun _ => False) b)
    ⟨⟨Schema.clear_of_notMem hself, hb.answer⟩, hrest, fun hmem => absurd hmem hown,
      bypassed_refl hb⟩).mono ?_ ?_
  · exact fun _ b' hb' => hb'.2.2.2
  · rintro err b' ⟨-, hlocated, -, hb', hfail⟩
    exact ⟨hb', hfail hlocated⟩

end Change

/-- In a batch over an accepted schema no root that contains the changed entity is left out. It
takes its turn, and before and after that no document of its own is searched for or written and no
warning is given about it, but for the document of the change itself. The batch misses a turn, or
stops after one, only where the reference to another root cannot be read, and it stops in a turn
only where the reference to the root itself cannot be. -/
theorem root_takes_turn {roots : List RootType} {schema : Schema}
    (haccepted : Schema.ofRoots roots = .ok schema) {root : RootType} (hroot : root ∈ roots)
    {t : ContainedType} (ht : t ∈ root.contained) {store : EntityStore σ}
    {sink : SearchIndex τ σ} {entities : Snapshot}
    (hanswers : (Updater.ofSchema schema store sink).Answers entities) (tx : τ) {w : σ}
    {earlier : List Change} {counts : WriteCounts} {b₀ : Batch (Logged τ σ)}
    (hreached : ((Updater.ofSchema schema store sink).logged.applyAll tx earlier).run
      (Batch.start ⟨w, []⟩) = (.ok counts, b₀))
    {c : Change} (htype : c.entityType = t.entityType) :
    let before := Bypassed entities c root.entityType (· = c.key)
    let after := Bypassed entities c root.entityType fun _ => False
    let served := fun b' =>
      ∃ b b₁, before b₀ b ∧ TakesTurn entities tx c root t b b₁ ∧ after b₁ b'
    ((Updater.ofSchema schema store sink).logged.applyChange tx c).Ensures b₀
      (fun _ b' => served b')
      (fun err b' => err = .unresolved c.entityType .unreadableReference ∧
        ((∃ b, before b₀ b ∧ Passes entities c .idle b b' ∧
            entities.reference? c (.ofRoot root) = some none) ∨
          (before b₀ b' ∨ served b') ∧ ∃ other ∈ roots, other.entityType ≠ root.entityType ∧
            entities.reference? c (.ofRoot other) = some none)) := by
  intro before after served
  obtain ⟨rfl, hwell⟩ := Schema.wellFormed_of_ofRoots haccepted
  have hcontains : root.Contains c.entityType := htype ▸ List.mem_map_of_mem ht
  have hembeds := ((hwell.contained root hroot).embeds_iff c.entityType).mpr hcontains
  have hlookup := hwell.lookup_embeddings hroot
  have hholder := hwell.root_mem_holders hlookup hembeds
  have hroots : schema.containment.rootsFor c.entityType = some (schema.holders c.entityType) := by
    rw [hwell.rootsFor_eq, if_neg (List.ne_nil_of_mem hholder)]
  have hmindful : b₀.Mindful := by
    have hremembers := applyAll_remembers schema sink tx hanswers.store.keyed earlier
      (remembers_start w)
    exact (hremembers.of_run hreached).1.written
  have hturn := (Updater.ofSchema schema store sink).logged.applyChange_turn tx
    (e := .ofRoot root) hroots hholder hlookup hembeds
  rw [hturn, ensures_bind]
  refine (lead_bypasses hwell hroot hembeds hanswers hmindful tx).mono ?_ ?_
  · intro _ b hb
    rw [ensures_bind]
    refine (propagate_turned hanswers hb.knows tx).mono ?_ ?_
    · rintro _ b₁ ⟨a, hpasses, hturned⟩
      have hb₁ := hturned.takesTurn hpasses (hwell.contained root hroot) ht htype
      refine (onward_bypasses hwell hanswers hpasses.knows tx hholder).mono ?_ ?_
      · intro _ b' hb'
        exact ⟨b, b₁, hb, hb₁, hb'⟩
      · rintro err b' ⟨hb', herr, hreason⟩
        exact ⟨herr, Or.inr ⟨Or.inr ⟨b, b₁, hb, hb₁, hb'⟩, hreason⟩⟩
    · rintro err b' ⟨hb', herr, hreason⟩
      exact ⟨herr, Or.inl ⟨b, hb, hb', hreason⟩⟩
  · rintro err b' ⟨hb', herr, hreason⟩
    exact ⟨herr, Or.inr ⟨Or.inl hb', hreason⟩⟩

/-- The tower is deleted and its sorcerer changes, who refers to it and so brings its document back
without a search. -/
theorem root_takes_turn_tower :
    let u : Updater Unit (Logged Unit Documents) :=
      (Updater.ofSnapshot Sample.schema Sample.entities fun _ _ _ _ => [.int 7]).logged
    let c : Change := ⟨Sample.sorcerer, .int 2, .update⟩
    ∃ b₀ b' part, (u.applyAll () [⟨Sample.place, .int 1, .delete⟩]).run (Batch.start ⟨∅, []⟩) =
        (.ok ⟨0, 0, 1⟩, b₀) ∧
      (u.applyChange () c).run b₀ = (.ok (), b') ∧ b'.world.log = b₀.world.log ++ part ∧
      part.searches Sample.place = [] ∧
      part.writes Sample.tower.key = [⟨.update Sample.tower (), .ok ()⟩] := by
  intro u c
  have hread : Schema.ofRoots Sample.roots = .ok Sample.schema := rfl
  have hrun : ∃ b₀ b', (u.applyAll () [⟨Sample.place, .int 1, .delete⟩]).run
      (Batch.start ⟨∅, []⟩) = (.ok ⟨0, 0, 1⟩, b₀) ∧ Sample.tower.key ∉ b₀.written ∧
      (u.applyChange () c).run b₀ = (.ok (), b') :=
    ⟨_, _, rfl, by decide, rfl⟩
  obtain ⟨b₀, b', hreached, hnew, hok⟩ := hrun
  have hanswers := Updater.answers_ofSnapshot (τ := Unit) Sample.schema Sample.entities
    fun _ _ _ _ => [.int 7]
  have hmindful := ((applyAll_remembers _ _ _ Sample.entities.keyed_store _
    (remembers_start _)).of_run hreached).1.written
  obtain ⟨b, b₁, ⟨a, hbefore, hspares⟩, hturn, a', hafter, hspares'⟩ :=
    (root_takes_turn hread List.mem_cons_self List.mem_cons_self hanswers () hreached
      (c := c) rfl).of_run hok
  obtain ⟨ids, hids, hserved⟩ := hturn.referring Sample.merlin "placeId" nofun rfl rfl
  obtain rfl : [.int 1] = ids := Option.some.inj hids
  have hunwritten : Sample.tower.key ∉ b.written := by
    rwa [hbefore.mem_written hmindful (hspares.writes _ rfl (by decide))]
  obtain ⟨part, hlog, hsearches, hwrites⟩ := ((hbefore.trans hserved).trans hafter).calls
  refine ⟨b₀, b', part, hreached, hok, hlog, ?_, ?_⟩
  · rw [hsearches]
    exact congrArg₂ (· ++ [] ++ ·) hspares.searches hspares'.searches
  · have hturn : Account.updates Sample.entities () Sample.place [.int 1] b.written
        Sample.tower.key = [⟨.update Sample.tower (), .ok ()⟩] :=
      if_pos ⟨rfl, List.mem_cons_self, Account.not_contains_iff.mpr hunwritten⟩
    rw [hwrites, ← hturn]
    have hbefore := hspares.writes Sample.tower.key rfl (by decide)
    have hafter := hspares'.writes Sample.tower.key rfl id
    simp [Account.append, Account.turn, hbefore, hafter]

end SearchSync
