import SearchSync.Proofs.Sync.Calls

/-!
# The calls that concern one document

Seen from the document of a root that the store has, the calls of a change come in two portions. The
first serves a change of that root itself, the second updates the document if the change is resolved
to it.
-/
namespace SearchSync

open BatchAction

variable {τ σ α β : Type}

section Own

variable {u : Updater τ σ} {c : Change}

def ChangeKind.writeKind : ChangeKind → WriteKind
  | .insert => .index
  | .update => .update
  | .delete => .delete

/-- The call leaves the document alone, or serves a change of the document's own root. -/
def Call.Serves (c : Change) (key : DocumentKey) (call : Call τ) : Prop :=
  ∀ kind, call.write? = some (kind, key) → c.key = key ∧ kind = c.kind.writeKind

theorem Call.Serves.spares {key : DocumentKey} {call : Call τ} (h : call.Serves c key)
    (hne : c.key ≠ key) : call.Spares key := by
  cases hkind : call.kindFor? key with
  | none => exact hkind
  | some kind => exact absurd (h kind (Call.kindFor?_eq_some.mp hkind)).1 hne

/-- The call leaves the document alone, or updates it for a reason. -/
def Call.Updates (key : DocumentKey) (reason : Prop) (call : Call τ) : Prop :=
  ∀ kind, call.write? = some (kind, key) → kind = .update ∧ reason

theorem Call.Spares.updates {key : DocumentKey} {call : Call τ} (h : call.Spares key)
    (reason : Prop) : call.Updates key reason := by
  intro kind hwrite
  cases h.symm.trans (Call.kindFor?_eq_some.mpr hwrite)

theorem Call.Spares.serves {key : DocumentKey} {call : Call τ} (h : call.Spares key) :
    call.Serves c key := by
  intro kind hwrite
  cases h.symm.trans (Call.kindFor?_eq_some.mpr hwrite)

/-- After a change of its own root, the last write has deleted the document if the change does,
and has put it otherwise. -/
def Log.Settled (log : Log τ) (c : Change) (key : DocumentKey) : Prop :=
  c.key = key → ∃ kind, log.lastWrite? key = some kind ∧ (kind = .delete ↔ c.kind = .delete)

/-- What a change has done when its own document has been seen to. -/
structure Attends (c : Change) (key : DocumentKey) (b b' : Batch (Logged τ σ)) : Prop
    extends Proceeds (Call.Serves c key) b b' where
  settled : b.Mindful → b'.world.log.Settled c key

theorem Log.settled_concat {log : Log τ} {x : Exchange τ} {kind : WriteKind} {key : DocumentKey}
    (hx : x.call.write? = some (kind, c.key)) (hkind : c.key = key → kind = c.kind.writeKind) :
    (log ++ [x]).Settled c key := by
  rintro rfl
  obtain rfl := hkind rfl
  refine ⟨c.kind.writeKind, ?_, by cases c.kind <;> simp [ChangeKind.writeKind]⟩
  rw [lastWrite?_append, lastWrite?_singleton, Call.kindFor?_eq_some.mpr hx, Option.some_or]

theorem Log.Settled.concat {log : Log τ} {key : DocumentKey} (h : log.Settled c key)
    {x : Exchange τ} (hx : x.call.Spares key) : (log ++ [x]).Settled c key := by
  intro hkey
  rw [lastWrite?_append, lastWrite?_singleton, hx, Option.none_or]
  exact h hkey

end Own

section Roots

variable {schema : Schema} {entities : Snapshot} {c : Change} {root : EntityType}
  {halt : Stage → Bool}

/-- If this is the root, a halt comes at its turn, or its documents do not embed the entity. -/
def Embedding.Stops (c : Change) (root : EntityType) (halt : Stage → Bool) (e : Embedding)
    (rest : List EntityType) : Prop :=
  e.root = root → halt (.turn e rest) = true ∨
    c.entityType = root ∧ e.embeds c.entityType = false

/-- Serving the roots, no document of `root` is looked for before the halt. -/
def Schema.Clear (schema : Schema) (c : Change) (root : EntityType) (halt : Stage → Bool)
    (roots : List EntityType) : Prop :=
  ∀ type e rest, type :: rest <:+ roots → schema.embeddings.lookup type = some e →
    e.Stops c root halt rest

theorem Schema.Clear.head {type : EntityType} {e : Embedding} {rest : List EntityType}
    (h : schema.Clear c root halt (type :: rest))
    (he : schema.embeddings.lookup type = some e) : e.Stops c root halt rest :=
  h type e rest (List.suffix_refl _) he

theorem Schema.Clear.tail {type : EntityType} {rest : List EntityType}
    (h : schema.Clear c root halt (type :: rest)) : schema.Clear c root halt rest :=
  fun type' e rest' hsuffix he => h type' e rest' (hsuffix.trans (List.suffix_cons type rest)) he

theorem Schema.clear_of_notMem {roots : List EntityType} (h : root ∉ roots) :
    schema.Clear c root halt roots := by
  rintro type e rest hsuffix he rfl
  obtain ⟨r, -, rfl, rfl⟩ := Schema.root_of_lookup_embeddings he
  exact absurd (hsuffix.subset List.mem_cons_self) h

theorem Schema.clear_before {before rest : List EntityType}
    (hnodup : (before ++ root :: rest).Nodup) :
    schema.Clear c root (Stage.isTurn rest) (before ++ root :: rest) := by
  rintro type e rest' ⟨before', hsplit⟩ he rfl
  obtain ⟨r, -, rfl, rfl⟩ := Schema.root_of_lookup_embeddings he
  obtain ⟨hnot, -⟩ := List.nodup_cons.mp (List.nodup_middle.mp hnodup)
  rw [List.mem_append, not_or] at hnot
  obtain ⟨-, -, hrest⟩ := (List.append_cons_inj_of_notMem hnot.1 hnot.2).mp hsplit.symm
  exact Or.inl (decide_eq_true hrest.symm)

def Embedding.Declared (schema : Schema) (e : Embedding) : Prop :=
  ∃ r ∈ schema.roots, e = .ofRoot r

/-- No document of `root` is looked for up to the halt. What has been answered is right. -/
def Stage.Clear (schema : Schema) (entities : Snapshot) (c : Change) (root : EntityType)
    (halt : Stage → Bool) : Stage → Prop
  | serve rest => schema.Clear c root halt rest
  | own e rest => schema.Clear c root halt rest ∧ e.Declared schema ∧ e.Stops c root halt rest
  | settle e a rest =>
    (schema.Clear c root halt rest ∧ e.Declared schema ∧ e.Stops c root halt rest) ∧
      a = entities.remains? c
  | turn e rest => schema.Clear c root halt rest ∧ e.Declared schema ∧
      (halt (.turn e rest) = false → e.root ≠ root)
  | refer e a rest => (schema.Clear c root halt rest ∧ e.Declared schema ∧ e.root ≠ root) ∧
      a = entities.remains? c
  | search e rest | found e _ rest => schema.Clear c root halt rest ∧ e.root ≠ root
  | load e records rest => (schema.Clear c root halt rest ∧ e.root ≠ root) ∧
      ∀ r ∈ records, entities.find? (e.root, r.id) = some r

theorem Stage.Clear.after {e : Embedding} {rest : List EntityType}
    (hclear : schema.Clear c root halt rest) (he : e.Declared schema)
    (hstops : e.Stops c root halt rest) :
    (Stage.after c e rest).Clear schema entities c root halt := by
  unfold Stage.after
  split
  next hembeds =>
    refine ⟨hclear, he, fun hhalt hroot => ?_⟩
    rcases hstops hroot with hstop | ⟨-, hnot⟩
    · cases hhalt.symm.trans hstop
    · cases hembeds.symm.trans hnot
  next => exact hclear

theorem Stage.Clear.serve {type : EntityType} {e : Embedding} {rest : List EntityType}
    (h : (Stage.serve (type :: rest)).Clear schema entities c root halt)
    (he : schema.embeddings.lookup type = some e) (hne : type ≠ c.entityType) :
    (Stage.turn e rest).Clear schema entities c root halt := by
  obtain ⟨r, hr, rfl, rfl⟩ := Schema.root_of_lookup_embeddings he
  refine ⟨Schema.Clear.tail h, ⟨r, hr, rfl⟩, fun hhalt hroot => ?_⟩
  rcases Schema.Clear.head h he hroot with hstop | ⟨hown, -⟩
  · cases hhalt.symm.trans hstop
  · exact hne (hroot.trans hown.symm)

/-- The changed root's own document is yet to be seen to. -/
def Stage.Awaits (c : Change) : Stage → Prop
  | own _ _ | settle _ _ _ => True
  | serve rest | turn _ rest | refer _ _ rest | search _ rest | found _ _ rest | load _ _ rest =>
    c.entityType ∈ rest

theorem Due.awaits {u : Updater τ σ} {tx : τ} {all : List EntityType} {written : List DocumentKey}
    {s : Stage} {act : Act τ} (h : Due u tx all c written s act) :
    act.Leads fun s' => s'.Awaits c → s.Awaits c := by
  cases h with
  | unknown | unreadable => trivial
  | own => exact fun _ => List.mem_cons_self
  | other => exact List.mem_cons_of_mem _
  | removed | settled | delete | index | update => exact fun _ => trivial
  | unsettled => exact fun _ _ => trivial
  | done | gone | referred | unreferred | unlocated | idle | loaded | skipped | updated => exact id
  | there | located | pending => exact fun _ => id

/-- A root that is changed itself comes first among those whose documents hold it. -/
theorem Schema.WellFormed.own_first (h : schema.WellFormed) {type : EntityType}
    {roots : List EntityType} (hroots : roots <+: schema.holders type) (hown : type ∈ roots) :
    ∃ rest, roots = type :: rest ∧ type ∉ rest := by
  have hnodup := (h.holders_nodup type).sublist hroots.sublist
  have hdeclared := schema.holders_subset type (hroots.subset hown)
  rw [Schema.holders, if_pos hdeclared] at hroots
  cases roots with
  | nil => cases hown
  | cons root rest =>
    obtain ⟨rfl, -⟩ := List.cons_prefix_cons.mp hroots
    exact ⟨rest, rfl, (List.nodup_cons.mp hnodup).1⟩

theorem Schema.WellFormed.split_rootsFor (h : schema.WellFormed) {type root : EntityType}
    (hroot : root ∈ schema.holders type) :
    ∃ before rest, schema.holders type = before ++ root :: rest ∧ root ∉ before ∧
      schema.containment.rootsFor type = some (before ++ root :: rest) := by
  obtain ⟨before, rest, hlist, hnot⟩ := List.eq_append_cons_of_mem hroot
  refine ⟨before, rest, hlist, hnot, ?_⟩
  rw [h.rootsFor_eq, if_neg (List.ne_nil_of_mem hroot), hlist]

/-- None of the roots that are left is the one at hand, nor changed itself. -/
theorem Schema.WellFormed.rest_of_holders (h : schema.WellFormed) {type root : EntityType}
    {before rest : List EntityType} (hlist : schema.holders type = before ++ root :: rest) :
    root ∉ rest ∧ type ∉ rest := by
  have hnodup := h.holders_nodup type
  rw [hlist, List.nodup_append, List.nodup_cons] at hnodup
  refine ⟨hnodup.2.1.1, fun hmem => ?_⟩
  have hown : type ∈ before ++ root :: rest :=
    List.mem_append_right before (List.mem_cons_of_mem root hmem)
  obtain ⟨others, hfirst, hothers⟩ := h.own_first List.prefix_rfl (hlist ▸ hown)
  cases before with
  | nil =>
    obtain ⟨-, rfl⟩ := List.cons.inj (hlist.symm.trans hfirst)
    exact hothers hmem
  | cons _ before =>
    obtain ⟨-, rfl⟩ := List.cons.inj (hlist.symm.trans hfirst)
    exact hothers (List.mem_append_right before (List.mem_cons_of_mem root hmem))

section Keeping

variable {key : DocumentKey} {r : Record} {tx : τ} {all : List EntityType}

def Batch.Told (entities : Snapshot) (c : Change) (b : Batch σ) : Prop :=
  ∀ a, b.answer = some a → a = entities.find? c.key

/-- The way stays clear from stage to stage. -/
theorem clear_keeps {u : Updater τ σ} (hembeddings : u.embeddings = schema.embeddings)
    (hstore : u.store.AnswersFrom entities) (root : EntityType) :
    u.Keeps tx all c halt
      (fun s b => s.Clear schema entities c root halt ∧ b.Told entities c) (fun _ _ => True) := by
  rintro s b act hhalt ⟨hclear, htold⟩ hact
  have hask {next : Option Record → Stage} (hkind : c.kind ≠ .delete)
      (hnext : (next (entities.remains? c)).Clear schema entities c root halt) :
      (u.exec c (.ask next)).Ensures b
        (fun s b => s.Clear schema entities c root halt ∧ b.Told entities c) (fun _ _ => True) := by
    rw [Snapshot.remains?, if_neg hkind] at hnext
    cases ha : b.answer with
    | some a =>
      obtain rfl := htold a ha
      rw [Updater.exec_ask_known ha]
      exact ⟨hnext, htold⟩
    | none =>
      rw [Updater.exec_ask_unknown ha, ensures_call]
      rcases hget : u.perform (.get c.entityType c.id) b.world with ⟨cause | a, w⟩
      · trivial
      · obtain rfl := hstore.get hget
        refine ⟨hnext, ?_⟩
        rintro _ ⟨⟩
        rfl
  have hwrite {kind : WriteKind} {key : DocumentKey} {call : Call τ} {next : Stage}
      (hnext : next.Clear schema entities c root halt) :
      (u.exec c (.write kind key call next)).Ensures b
        (fun s b => s.Clear schema entities c root halt ∧ b.Told entities c) (fun _ _ => True) := by
    rw [Updater.exec_write, ensures_call]
    rcases u.perform call b.world with ⟨cause | a, w⟩
    · trivial
    · exact ⟨hnext, htold⟩
  cases hact with
  | done => exact ⟨hclear, htold⟩
  | unknown | unreadable => trivial
  | own he =>
    rw [hembeddings] at he
    obtain ⟨r, hr, -, rfl⟩ := Schema.root_of_lookup_embeddings he
    exact ⟨⟨hclear.tail, ⟨r, hr, rfl⟩, hclear.head he⟩, htold⟩
  | other he hroot =>
    rw [hembeddings] at he
    exact ⟨.serve hclear he hroot, htold⟩
  | removed hkind => exact ⟨⟨hclear, (if_pos hkind).symm⟩, htold⟩
  | settled => exact ⟨.after hclear.1 hclear.2.1 hclear.2.2, htold⟩
  | unsettled hkind => exact hask hkind ⟨hclear, rfl⟩
  | delete | index | update => exact hwrite (.after hclear.1.1 hclear.1.2.1 hclear.1.2.2)
  | gone hkind => exact ⟨⟨⟨hclear.1, hclear.2.1, hclear.2.2 hhalt⟩, (if_pos hkind).symm⟩, htold⟩
  | there hkind => exact hask hkind ⟨⟨hclear.1, hclear.2.1, hclear.2.2 hhalt⟩, rfl⟩
  | referred | unreferred => exact ⟨⟨hclear.1.1, hclear.1.2.2⟩, htold⟩
  | unlocated => exact ⟨hclear, htold⟩
  | located =>
    rw [Updater.exec_look, ensures_call]
    rcases u.perform _ b.world with ⟨cause | ids, w⟩
    · trivial
    · exact ⟨hclear, htold⟩
  | idle => exact ⟨hclear.1, htold⟩
  | @pending e ids ids' rest =>
    rw [Updater.exec_look, ensures_call]
    rcases hget : u.perform (.getBatch e.root ids') b.world with ⟨cause | records, w⟩
    · trivial
    · refine ⟨⟨hclear, fun r hr => ?_⟩, htold⟩
      obtain ⟨id, -, hfind⟩ := (hstore.getBatch hget r).mp hr
      obtain ⟨-, rfl⟩ := Prod.mk.inj (entities.key_of_find? hfind)
      exact hfind
  | loaded => exact ⟨hclear.1.1, htold⟩
  | skipped => exact ⟨⟨hclear.1, (List.forall_mem_cons.mp hclear.2).2⟩, htold⟩
  | updated => exact hwrite ⟨hclear.1, (List.forall_mem_cons.mp hclear.2).2⟩

/-- Up to the stage a change has seen to its own document, if that does not come later. -/
structure Attending (c : Change) (key : DocumentKey) (b : Batch (Logged τ σ)) (s : Stage)
    (b' : Batch (Logged τ σ)) : Prop extends Proceeds (Call.Serves c key) b b' where
  settled : b.Mindful → s.Awaits c ∨ b'.world.log.Settled c key

theorem Attending.spares {b b₁ b₂ : Batch (Logged τ σ)} {s s' : Stage}
    (h : Attending c key b s b₁) {x : Exchange τ} (hx : x.call.Spares key)
    (hlog : b₂.world.log = b₁.world.log ++ [x])
    (hproceeds : Proceeds (Call.Serves c key) b b₂) (hawaits : s.Awaits c → s'.Awaits c) :
    Attending c key b s' b₂ := by
  refine ⟨hproceeds, fun hb => (h.settled hb).imp hawaits fun hsettled => ?_⟩
  rw [hlog]
  exact hsettled.concat hx

/-- Up to the halt a change sees to its own document, and leaves the one looked for alone. -/
theorem attending_keeps {store : EntityStore σ} {sink : SearchIndex τ σ}
    (hstore : store.AnswersFrom entities) (hr : entities.find? key = some r)
    (b : Batch (Logged τ σ)) :
    (Updater.ofSchema schema store sink).logged.Keeps tx all c halt
      (fun s b' => (s.Clear schema entities c key.1 halt ∧ b'.Told entities c) ∧
        Attending c key b s b')
      (fun _ b' => True ∧ Adds (Call.Serves c key) b b') := by
  rintro s b' act hhalt ⟨hstage, h⟩ hact
  refine (clear_keeps rfl hstore.logged key.1 hhalt hstage hact).and ?_
  obtain ⟨hclear, htold⟩ := hstage
  have hmove {s' : Stage} (hawaits : s.Awaits c → s'.Awaits c) : Attending c key b s' b' :=
    ⟨h.toProceeds, fun hb => (h.settled hb).imp_left hawaits⟩
  have hlook {call : Call τ} (hcall : call.write? = none) : call.Spares key :=
    Call.spares_of_look hcall
  have hrecord {r' : Record} (hr' : some r' = entities.remains? c) : r'.key = c.key :=
    entities.key_of_find? (Snapshot.remains?_eq_some_iff.mp hr'.symm).2
  -- The change's own document is written in the way the change asks for.
  have hput {kind : WriteKind} {call : Call τ} {e : Embedding} {rest : List EntityType}
      (hwrite : call.write? = some (kind, c.key)) (hkind : c.key = key → kind = c.kind.writeKind) :
      ((Updater.ofSchema schema store sink).logged.exec c
          (.write kind c.key call (.after c e rest))).Ensures b'
        (fun s b' => Attending c key b s b') (fun _ b' => Adds (Call.Serves c key) b b') := by
    have hserves : call.Serves c key := by
      intro kind' hwrite'
      obtain ⟨rfl, hkey⟩ := Prod.mk.inj (Option.some.inj (hwrite.symm.trans hwrite'))
      exact ⟨hkey, hkind hkey⟩
    refine h.exec_write hwrite hserves fun _ b'' hlog _ _ h' => ⟨h', fun _ => Or.inr ?_⟩
    rw [hlog]
    exact Log.settled_concat hwrite hkind
  cases hact with
  | done => exact h
  | unknown | unreadable => exact h.calls
  | own he => exact hmove fun _ => trivial
  | other he hroot => exact hmove fun hmem => (List.mem_cons.mp hmem).resolve_left hroot.symm
  | removed hkind => exact hmove fun _ => trivial
  | @settled e rest hkind hwritten =>
    refine ⟨h.toProceeds, fun hb => Or.inr ?_⟩
    rintro rfl
    rw [h.mindful hb, Log.mem_written_iff] at hwritten
    obtain ⟨kind, hlast, hput⟩ := hwritten
    exact ⟨kind, hlast, by simp [hput, hkind]⟩
  | unsettled =>
    exact h.exec_ask (hlook rfl).serves (fun _ _ => hmove fun _ => trivial)
      fun _ _ _ _ b'' hlog _ _ h' => h.spares (hlook rfl) hlog h' fun _ => trivial
  | delete =>
    refine hput rfl fun hkey => ?_
    by_contra hkind
    rcases Snapshot.remains?_eq_none_iff.mp hclear.2.symm with hdelete | hgone
    · exact hkind (by rw [hdelete]; rfl)
    · cases (hkey ▸ hgone).symm.trans hr
  | index hkind =>
    exact hput (Call.write?_index (hrecord hclear.2) tx) fun _ => by rw [hkind]; rfl
  | update hkind =>
    refine hput (Call.write?_update (hrecord hclear.2) tx) fun _ => ?_
    cases hk : c.kind with
    | insert => exact absurd hk hkind
    | update => rfl
    | delete => exact absurd hk (Snapshot.remains?_eq_some_iff.mp hclear.2.symm).1
  | gone | referred | unreferred | idle | loaded | skipped => exact hmove id
  | there =>
    exact h.exec_ask (hlook rfl).serves (fun _ _ => hmove id)
      fun _ _ _ _ b'' hlog _ _ h' => h.spares (hlook rfl) hlog h' id
  | unlocated => exact ⟨⟨h.calls, h.mindful⟩, h.settled⟩
  | located | pending =>
    exact h.exec_look rfl (hlook rfl).serves
      fun _ _ _ _ b'' hlog _ _ h' => h.spares (hlook rfl) hlog h' id
  | @updated e r' records rest hnew =>
    have hkey : r'.key = (e.root, r'.id) := entities.key_of_find? (hclear.2 r' List.mem_cons_self)
    have hspares : (Call.update r' tx).Spares key :=
      Call.spares_of_write (Call.write?_update hkey tx) fun hsame =>
        hclear.1.2 (congrArg Prod.fst hsame)
    exact h.exec_write (Call.write?_update hkey tx) hspares.serves
      fun _ b'' hlog _ _ h' => h.spares hspares hlog h' id

theorem attending_start {roots : List EntityType} (h : c.key = key → c.entityType ∈ roots)
    (b : Batch (Logged τ σ)) : Attending c key b (.serve roots) { b with answer := none } where
  calls := .of_same rfl
  mindful := id
  settled _ := by
    by_cases hown : c.key = key
    · exact Or.inl (h hown)
    · exact Or.inr fun hown' => absurd hown' hown

theorem Attends.spares {b b₁ b₂ : Batch (Logged τ σ)} (h : Attends c key b b₁)
    (h' : Proceeds (Call.Spares key) b₁ b₂) : Attends c key b b₂ where
  toProceeds := h.toProceeds.trans (h'.mono fun _ => Call.Spares.serves)
  settled hb := by
    unfold Log.Settled
    rw [h'.calls.lastWrite?_eq]
    exact h.settled hb

theorem Attending.attends {b b' : Batch (Logged τ σ)} {s : Stage} (h : Attending c key b s b')
    (hdone : ¬s.Awaits c) : Attends c key b b' :=
  ⟨h.toProceeds, fun hb => (h.settled hb).resolve_left hdone⟩

theorem Schema.own_mem_holders {type : EntityType} (htype : type ∈ schema.rootTypes) :
    type ∈ schema.holders type := by
  obtain ⟨r, hr, rfl⟩ := List.mem_map.mp htype
  exact Schema.mem_holders.mpr ⟨r, hr, rfl, Or.inl rfl⟩

/-- A change that embeds in no document under the key can only serve it as its own. -/
theorem applyChange_attends {store : EntityStore σ} (sink : SearchIndex τ σ) (h : schema.WellFormed)
    (hstore : store.AnswersFrom entities) (hkey : key.1 ∈ schema.rootTypes)
    (hr : entities.find? key = some r) (tx : τ)
    (hfree : ∀ e, schema.embeddings.lookup key.1 = some e → e.embeds c.entityType = false)
    (b : Batch (Logged τ σ)) :
    ((Updater.ofSchema schema store sink).logged.applyChange tx c).Ensures b
      (fun _ b' => Attends c key b b') (fun _ b' => Adds (Call.Serves c key) b b') := by
  by_cases hnil : schema.holders c.entityType = []
  · rw [Updater.applyChange_of_none ((h.rootsFor_eq _).trans (if_pos hnil))]
    exact .of_same rfl
  · have hclear : schema.Clear c key.1 Stage.isEnd (schema.holders c.entityType) := by
      intro type e rest hsuffix he hroot
      obtain ⟨r', hr', htype, hor⟩ := Schema.mem_holders.mp (hsuffix.subset List.mem_cons_self)
      obtain rfl : e = .ofRoot r' :=
        Option.some.inj (he.symm.trans (htype ▸ h.lookup_embeddings hr'))
      have hlookup := h.lookup_embeddings hr'
      have hfree' := hfree _ ((congrArg (schema.embeddings.lookup ·) hroot).symm.trans hlookup)
      refine Or.inr ⟨?_, hfree'⟩
      rcases hor with hown | hcontains
      · exact hown.symm.trans (htype.symm.trans hroot)
      · cases hfree'.symm.trans (((h.contained r' hr').embeds_iff c.entityType).mpr hcontains)
    have hawaits : c.key = key → c.entityType ∈ schema.holders c.entityType := by
      rintro rfl
      exact Schema.own_mem_holders hkey
    refine (Updater.Keeps.applyChange (attending_keeps hstore hr b)
      ((h.rootsFor_eq _).trans (if_neg hnil))
      ⟨⟨hclear, nofun⟩, attending_start hawaits b⟩).mono ?_ ?_
    · exact fun _ b' hb' => hb'.2.attends List.not_mem_nil
    · exact fun _ b' hb' => hb'.2

theorem lead_attends {store : EntityStore σ} (sink : SearchIndex τ σ) (h : schema.WellFormed)
    (hstore : store.AnswersFrom entities) (hr : entities.find? key = some r) (tx : τ)
    {e : Embedding} (hroot : key.1 = e.root) (he : schema.embeddings.lookup e.root = some e)
    (hembeds : e.embeds c.entityType = true) (b : Batch (Logged τ σ)) :
    ((Updater.ofSchema schema store sink).logged.lead tx c e.root).Ensures b
      (fun _ b' => Attends c key b b') (fun _ b' => Adds (Call.Serves c key) b b') := by
  obtain ⟨before, rest, hlist, hnot, hroots⟩ := h.split_rootsFor (h.root_mem_holders he hembeds)
  have hclear : schema.Clear c key.1 (Stage.isTurn rest) (before ++ e.root :: rest) := by
    rw [hroot]
    exact Schema.clear_before (hlist ▸ h.holders_nodup c.entityType)
  have hawaits (hown : c.key = key) : c.entityType ∈ before ++ e.root :: rest := by
    have htype : c.entityType = e.root := (congrArg Prod.fst hown).trans hroot
    rw [htype]
    exact List.mem_append_right before List.mem_cons_self
  refine (Updater.Keeps.lead (attending_keeps hstore hr b) hroots hnot he hembeds
    ⟨⟨hclear, nofun⟩, attending_start hawaits b⟩).mono ?_ ?_
  · exact fun _ b' hb' => hb'.2.attends (h.rest_of_holders hlist).2
  · exact fun _ b' hb' => hb'.2

/-- What follows the changes `earlier` is told of the batch that they leave. -/
theorem ensures_after (schema : Schema) {store : EntityStore σ} (sink : SearchIndex τ σ)
    (hstore : store.Keyed) (tx : τ) (earlier : List Change) (w : σ)
    {f : WriteCounts → BatchAction (Logged τ σ) α} {ok : α → Batch (Logged τ σ) → Prop}
    {allowed : Call τ → Prop} :
    let u := Updater.ofSchema schema store sink
    let b := (u.logged.apply tx earlier ⟨w, []⟩).2
    (∀ counts, b.Mindful → (f counts).Ensures b ok fun _ b' => Adds allowed b b') →
      (u.logged.applyAll tx earlier >>= f).Ensures (Batch.start ⟨w, []⟩) ok
        fun _ b' => Adds allowed b b' := by
  intro u b hf
  have hremembers := applyAll_remembers schema sink tx hstore earlier (remembers_start w)
  rw [ensures_bind]
  refine (hremembers.and (ensures_run _ _)).mono ?_ ?_
  · rintro counts b₁ ⟨⟨hb₁, -⟩, hrun⟩
    obtain rfl : b = b₁ := congrArg Prod.snd hrun
    exact hf counts hb₁.written
  · rintro _ b₁ ⟨-, hrun⟩
    obtain rfl : b = b₁ := congrArg Prod.snd hrun
    exact .of_same rfl

/-- What was done for the change's own document is done when it is resolved. -/
theorem resolve_attends {store : EntityStore σ} (sink : SearchIndex τ σ) (h : schema.WellFormed)
    (hstore : store.AnswersFrom entities) (hr : entities.find? key = some r) (tx : τ)
    (earlier : List Change) {e : Embedding} (hroot : key.1 = e.root)
    (he : schema.embeddings.lookup e.root = some e) (hembeds : e.embeds c.entityType = true)
    (w : σ) :
    let u := Updater.ofSchema schema store sink
    let b := (u.logged.apply tx earlier ⟨w, []⟩).2
    (u.logged.resolve tx earlier c e).Ensures (Batch.start ⟨w, []⟩)
      (fun _ b' => b.Mindful ∧ Attends c key b b') (fun _ b' => Adds (Call.Serves c key) b b') := by
  intro u b
  rw [Updater.resolve_eq_lead]
  refine ensures_after schema sink hstore.keyed tx earlier w fun _ hb => ?_
  rw [ensures_bind]
  refine (lead_attends sink h hstore hr tx hroot he hembeds b).mono ?_ fun _ _ => id
  intro _ b₂ hattends
  refine (owners_looks u tx c e b₂).mono ?_ ?_
  · intro _ b' hlooks
    exact ⟨hb, hattends.spares (hlooks.mono fun _ => Call.spares_of_look)⟩
  · intro _ b' hadds
    exact hattends.calls.trans (hadds.mono fun _ hcall => (Call.spares_of_look hcall).serves)

end Keeping

end Roots

namespace Updater

variable {u : Updater τ σ} {u' : Updater τ β} {view : σ → β}

theorem SeenAs.resolve (h : SeenAs view u u') (tx : τ) (earlier : List Change) (c : Change)
    (e : Embedding) :
    LooksLike view (u.resolve tx earlier c e) (u'.resolve tx earlier c e) := by
  unfold Updater.resolve
  rw [h.containment]
  refine (h.applyAll tx earlier).bind fun _ => .bind (looksLike_modify fun _ => rfl) fun _ => ?_
  exact (h.applyToRoots tx _ c _).bind fun _ => .bind_if (h.applyToRoot tx _ c e) (h.owners tx c e)

/-- What a change is resolved to does not depend on whether calls are logged. -/
theorem resolvesTo_iff_of_logged {tx : τ} {w : σ} {earlier : List Change} {c : Change}
    {key : DocumentKey} {e : Embedding} {ids : List EntityId} {b : Batch (Logged τ σ)}
    (he : u.embeddings.lookup key.1 = some e) (hembeds : e.embeds c.entityType = true)
    (hrun : (u.logged.resolve tx earlier c e).run (Batch.start ⟨w, []⟩) = (.ok ids, b)) :
    u.ResolvesTo tx w earlier c key ↔ key.2 ∈ ids := by
  have hrun' : (u.resolve tx earlier c e).run (Batch.start w) = (.ok ids, b.map Logged.world) := by
    have hseen := u.logged_seenAs.resolve tx earlier c e (Batch.start ⟨w, []⟩)
    rw [hrun] at hseen
    exact hseen
  constructor
  · rintro ⟨e', he', -, ids', b', hrun'', hid⟩
    obtain rfl := Option.some.inj (he.symm.trans he')
    obtain ⟨hids, -⟩ := Prod.mk.inj (hrun'.symm.trans hrun'')
    rw [Except.ok.inj hids]
    exact hid
  · exact fun hid => ⟨e, he, hembeds, ids, _, hrun', hid⟩

def Completes (u : Updater τ σ) (tx : τ) (w : σ) (changes : List Change) : Prop :=
  ∃ counts, (u.apply tx changes w).1 = .ok counts

/-- The calls of the change `c` after `earlier`, cut where its own document has been seen to. -/
structure Portions (u : Updater τ σ) (tx : τ) (w : σ) (earlier : List Change) (c : Change)
    (key : DocumentKey) (own others : Log τ) : Prop where
  log_eq : u.log tx w (earlier ++ [c]) = u.log tx w earlier ++ own ++ others
  serves : ∀ x ∈ own, x.call.Serves c key
  updates : ∀ x ∈ others, x.call.Updates key (u.ResolvesTo tx w earlier c key)
  settled : others ≠ [] ∨ u.Completes tx w (earlier ++ [c]) →
    Log.Settled (u.log tx w earlier ++ own) c key
  resolved : u.Completes tx w (earlier ++ [c]) → u.ResolvesTo tx w earlier c key →
    ∃ kind, (u.log tx w (earlier ++ [c])).lastWrite? key = some kind ∧ kind ≠ .delete

theorem log_of_run {tx : τ} {w : σ} {changes : List Change} {r : Except UpdateError WriteCounts}
    {b : Batch (Logged τ σ)}
    (hrun : (u.logged.applyAll tx changes).run (Batch.start ⟨w, []⟩) = (r, b)) :
    b.world.log = u.log tx w changes := by
  unfold Updater.log Updater.apply
  rw [hrun]

/-- Once a change is resolved, its own document has been seen to. -/
theorem portions_of_resolve {tx : τ} {w : σ} {earlier : List Change} {c : Change}
    {key : DocumentKey} {e : Embedding} {ids : List EntityId} {b b₁ b' : Batch (Logged τ σ)}
    (he : u.embeddings.lookup key.1 = some e) (hembeds : e.embeds c.entityType = true)
    (hrun : (u.logged.resolve tx earlier c e).run (Batch.start ⟨w, []⟩) = (.ok ids, b₁))
    (hb : b.world.log = u.log tx w earlier) (hb' : b'.world.log = u.log tx w (earlier ++ [c]))
    (hmind : b.Mindful) (hattends : Attends c key b b₁)
    (hadds : Adds (Call.Updates key (key.2 ∈ ids)) b₁ b')
    (hput : u.Completes tx w (earlier ++ [c]) → key.2 ∈ ids →
      ∃ kind, b'.world.log.lastWrite? key = some kind ∧ kind ≠ .delete) :
    ∃ own others, u.Portions tx w earlier c key own others := by
  have hresolves := resolvesTo_iff_of_logged he hembeds hrun
  have hsettled := hattends.settled hmind
  obtain ⟨own, hlog, hserves⟩ := hattends.calls
  obtain ⟨others, hlog', hupdates⟩ := hadds
  rw [hlog, hb] at hlog' hsettled
  refine ⟨own, others, hb'.symm.trans hlog', hserves, ?_, fun _ => hsettled, ?_⟩
  · rw [hresolves]
    exact hupdates
  · rw [hresolves, ← hb']
    exact hput

theorem completes_iff_logged (u : Updater τ σ) (tx : τ) (w : σ) (changes : List Change) :
    u.Completes tx w changes ↔
      ∃ counts, (u.logged.apply tx changes ⟨w, []⟩).1 = .ok counts := by
  unfold Updater.Completes
  rw [u.apply_eq_logged]

end Updater

section Portions

variable {schema : Schema} {store : EntityStore σ} (sink : SearchIndex τ σ) {entities : Snapshot}
  {key : DocumentKey} {r : Record} {c : Change}

theorem portions_of_unembedded (h : schema.WellFormed) (hstore : store.AnswersFrom entities)
    (hkey : key.1 ∈ schema.rootTypes) (hr : entities.find? key = some r) (tx : τ) (w : σ)
    (earlier : List Change)
    (hfree : ∀ e, schema.embeddings.lookup key.1 = some e → e.embeds c.entityType = false) :
    ∃ own others, (Updater.ofSchema schema store sink).Portions tx w earlier c key own others := by
  let u := Updater.ofSchema schema store sink
  let b := (u.logged.apply tx earlier ⟨w, []⟩).2
  have hrun : (u.logged.applyAll tx (earlier ++ [c])).Ensures (Batch.start ⟨w, []⟩)
      (fun _ b' => b.Mindful ∧ Attends c key b b') (fun _ b' => Adds (Call.Serves c key) b b') := by
    rw [Updater.applyAll_append]
    refine ensures_after schema sink hstore.keyed tx earlier w fun _ hb => ?_
    rw [Updater.applyAll, ensures_bind]
    refine (applyChange_attends sink h hstore hkey hr tx hfree b).mono ?_ fun _ _ => id
    exact fun _ b' hattends => ⟨hb, hattends⟩
  have hadds : (u.logged.applyAll tx (earlier ++ [c])).Ensures (Batch.start ⟨w, []⟩)
      (fun _ b' => Adds (Call.Serves c key) b b') (fun _ b' => Adds (Call.Serves c key) b b') :=
    hrun.mono (fun _ _ hb => hb.2.calls) fun _ _ => id
  obtain ⟨own, hlog, hown⟩ := hadds.run
  refine ⟨own, [], ?_, hown, List.forall_mem_nil _, ?_, ?_⟩
  · rw [List.append_nil]
    exact hlog
  · rintro (hne | hdone)
    · exact absurd rfl hne
    · obtain ⟨counts, hok⟩ := (u.completes_iff_logged tx w _).mp hdone
      obtain ⟨hmind, hattends⟩ := hrun.of_run (Prod.ext hok rfl)
      have hsettled := hattends.settled hmind
      rw [hlog] at hsettled
      exact hsettled
  · rintro - ⟨e, he, hembeds, -⟩
    rw [hfree e he] at hembeds
    cases hembeds

/-- What follows when a change is resolved updates the document if it is among those found. -/
theorem finish_ensures (hstore : store.AnswersFrom entities) (hr : entities.find? key = some r)
    (tx : τ) (all : List EntityType) {e : Embedding} (hroot : key.1 = e.root)
    {rest : List EntityType} (hrest : key.1 ∉ rest) (hown : c.entityType ∉ rest)
    (ids : List EntityId) {b : Batch (Logged τ σ)} (hmind : b.Mindful) :
    let u := Updater.ofSchema schema store sink
    let adds := Adds (Call.Updates key (key.2 ∈ ids)) b
    (u.logged.updateOwners tx e ids >>= fun _ => u.logged.applyToRoots tx all c rest >>= fun _ =>
        u.logged.applyAll tx []).Ensures b
      (fun _ b' => adds b' ∧ (key.2 ∈ ids →
        ∃ kind, b'.world.log.lastWrite? key = some kind ∧ kind ≠ .delete))
      (fun _ b' => adds b') := by
  intro u adds
  have hupdates {call : Call τ}
      (hcall : call.UpdatesOnly fun key => key.1 = e.root ∧ key.2 ∈ ids) :
      call.Updates key (key.2 ∈ ids) := by
    intro kind hwrite
    exact (hcall kind key hwrite).imp_right And.right
  rw [ensures_bind]
  refine (updateOwners_ensures (u := u) hstore tx c e ids b).mono ?_ ?_
  · rintro _ b₁ ⟨hproceeds, hwritten⟩
    have hadds₁ : adds b₁ := hproceeds.calls.mono fun _ => hupdates
    have hall {b₂ : Batch (Logged τ σ)}
        (h₂ : Adds (Call.UpdatesOnly fun key => key.1 ∈ rest) b₁ b₂) : adds b₂ :=
      hadds₁.trans (h₂.mono fun _ hcall => (hcall.spares hrest).updates _)
    rw [ensures_bind]
    refine (Updater.Keeps.applyToRoots (updates_keep hstore.keyed hown b₁)
      ⟨List.Subset.refl rest, proceeds_refl b₁⟩).mono ?_ fun _ b₂ => hall
    rintro _ b₂ ⟨-, h₂⟩
    refine ⟨hall h₂.calls, fun hid => ?_⟩
    have hmem := hwritten key.2 hid r (hroot ▸ hr)
    have hspares : Adds (Call.Spares key) b₁ b₂ := h₂.calls.mono fun _ hcall => hcall.spares hrest
    rw [← hroot, hproceeds.mindful hmind, Log.mem_written_iff, ← hspares.lastWrite?_eq] at hmem
    exact hmem
  · exact fun _ b' hadds => hadds.mono fun _ => hupdates

theorem portions_of_embedded (h : schema.WellFormed) (hstore : store.AnswersFrom entities)
    (hr : entities.find? key = some r) (tx : τ) (w : σ) (earlier : List Change) {e : Embedding}
    (he : schema.embeddings.lookup key.1 = some e) (hembeds : e.embeds c.entityType = true) :
    ∃ own others, (Updater.ofSchema schema store sink).Portions tx w earlier c key own others := by
  let u := Updater.ofSchema schema store sink
  let b := (u.logged.apply tx earlier ⟨w, []⟩).2
  have hroot : key.1 = e.root := by
    obtain ⟨_, _, hroot, rfl⟩ := Schema.root_of_lookup_embeddings he
    exact hroot.symm
  have he' := he
  rw [hroot] at he'
  have hholder := h.root_mem_holders he' hembeds
  have hroots : schema.containment.rootsFor c.entityType =
      some (schema.holders c.entityType) := by
    rw [h.rootsFor_eq, if_neg (List.ne_nil_of_mem hholder)]
  obtain ⟨before, rest, hlist, hsplit⟩ := u.logged.applyAll_resolve tx hroots hholder he' hembeds
    earlier []
  obtain ⟨hrest, hown⟩ := h.rest_of_holders hlist
  rw [← hroot] at hrest
  have hends : (u.logged.applyAll tx (earlier ++ [c])).Ensures (Batch.start ⟨w, []⟩)
      (fun _ b' => ∃ ids b₁,
        (u.logged.resolve tx earlier c e).run (Batch.start ⟨w, []⟩) = (.ok ids, b₁) ∧
        b.Mindful ∧ Attends c key b b₁ ∧ Adds (Call.Updates key (key.2 ∈ ids)) b₁ b' ∧
        (key.2 ∈ ids → ∃ kind, b'.world.log.lastWrite? key = some kind ∧ kind ≠ .delete))
      (fun _ b' => Adds (Call.Serves c key) b b' ∨ ∃ ids b₁,
        (u.logged.resolve tx earlier c e).run (Batch.start ⟨w, []⟩) = (.ok ids, b₁) ∧
        b.Mindful ∧ Attends c key b b₁ ∧ Adds (Call.Updates key (key.2 ∈ ids)) b₁ b') := by
    rw [hsplit, ensures_bind]
    refine ((resolve_attends sink h hstore hr tx earlier hroot he' hembeds w).and
      (ensures_run _ _)).mono ?_ fun _ _ hadds => Or.inl hadds.1
    rintro ids b₁ ⟨⟨hmind, hattends⟩, hrun⟩
    refine (finish_ensures sink hstore hr tx _ hroot hrest hown ids
      (hattends.mindful hmind)).mono ?_ ?_
    · rintro _ b' ⟨hadds, hput⟩
      exact ⟨ids, b₁, hrun, hmind, hattends, hadds, hput⟩
    · rintro _ b' hadds
      exact Or.inr ⟨ids, b₁, hrun, hmind, hattends, hadds⟩
  rcases hrun : (u.logged.applyAll tx (earlier ++ [c])).run (Batch.start ⟨w, []⟩) with
    ⟨err | counts, b'⟩
  · have hb' := Updater.log_of_run hrun
    have hstopped : ¬u.Completes tx w (earlier ++ [c]) := by
      rw [Updater.completes_iff_logged]
      rintro ⟨counts, hok⟩
      cases hok.symm.trans (congrArg Prod.fst hrun)
    rcases hends.of_error hrun with
      ⟨own, hlog, hserves⟩ | ⟨ids, b₁, hresolve, hmind, hattends, hadds⟩
    · refine ⟨own, [], ?_, hserves, nofun, ?_, fun hdone => absurd hdone hstopped⟩
      · rw [List.append_nil]
        exact hb'.symm.trans hlog
      · rintro (hne | hdone)
        · exact absurd rfl hne
        · exact absurd hdone hstopped
    · exact Updater.portions_of_resolve he hembeds hresolve rfl hb' hmind hattends hadds
        fun hdone => absurd hdone hstopped
  · have hb' := Updater.log_of_run hrun
    obtain ⟨ids, b₁, hresolve, hmind, hattends, hadds, hput⟩ := hends.of_run hrun
    exact Updater.portions_of_resolve he hembeds hresolve rfl hb' hmind hattends hadds
      fun _ => hput

/-- The calls of a change, seen from the document of a root that the store has. -/
theorem exists_portions (h : schema.WellFormed) (hstore : store.AnswersFrom entities)
    (hkey : key.1 ∈ schema.rootTypes) (hr : entities.find? key = some r) (tx : τ) (w : σ)
    (earlier : List Change) (c : Change) :
    ∃ own others, (Updater.ofSchema schema store sink).Portions tx w earlier c key own others := by
  by_cases hfree : ∀ e, schema.embeddings.lookup key.1 = some e → e.embeds c.entityType = false
  · exact portions_of_unembedded sink h hstore hkey hr tx w earlier hfree
  · push Not at hfree
    obtain ⟨e, he, hembeds⟩ := hfree
    have hembeds := Bool.eq_true_of_not_eq_false hembeds
    exact portions_of_embedded sink h hstore hr tx w earlier he hembeds

end Portions

end SearchSync
