import SearchSync.Proofs.Sync.Writes

/-!
# What an action calls

Bounds on the calls that an action makes, whatever it is answered and however it ends. Bounds do not
ask what the batch knows, so they hold of the steps of a change one by one. How a document was last
written is read off the log, and it is also what the batch remembers of it.
-/
namespace SearchSync

open BatchAction

variable {τ σ α β : Type}

/-- How a call writes the document under the key, if it does. -/
def Call.kindFor? (key : DocumentKey) (call : Call τ) : Option WriteKind :=
  match call.write? with
  | some (kind, k) => if k = key then some kind else none
  | none => none

theorem Call.kindFor?_eq_some {key : DocumentKey} {call : Call τ} {kind : WriteKind} :
    call.kindFor? key = some kind ↔ call.write? = some (kind, key) := by
  unfold Call.kindFor?
  rcases call.write? with _ | ⟨kind', key'⟩
  · simp
  · by_cases hkey : key' = key <;> simp [hkey]

abbrev Call.Spares (key : DocumentKey) (call : Call τ) : Prop :=
  call.kindFor? key = none

theorem Call.spares_of_look {key : DocumentKey} {call : Call τ} (h : call.write? = none) :
    call.Spares key := by
  rw [Call.Spares, Call.kindFor?, h]

theorem Call.spares_of_write {key other : DocumentKey} {call : Call τ} {kind : WriteKind}
    (h : call.write? = some (kind, other)) (hne : other ≠ key) : call.Spares key := by
  rw [Call.Spares, Call.kindFor?, h]
  exact if_neg hne

namespace Log

def lastWrite? (log : Log τ) (key : DocumentKey) : Option WriteKind :=
  log.reverse.findSome? fun x => x.call.kindFor? key

variable {log xs ys : Log τ} {x : Exchange τ} {key : DocumentKey} {kind : WriteKind}

theorem lastWrite?_append (xs ys : Log τ) (key : DocumentKey) :
    (xs ++ ys).lastWrite? key = (ys.lastWrite? key).or (xs.lastWrite? key) := by
  unfold lastWrite?
  rw [List.reverse_append, List.findSome?_append]

theorem lastWrite?_singleton : lastWrite? [x] key = x.call.kindFor? key :=
  List.findSome?_singleton

theorem lastWrite?_eq_none : log.lastWrite? key = none ↔ ∀ x ∈ log, x.call.Spares key := by
  unfold lastWrite?
  rw [List.findSome?_eq_none_iff]
  simp only [List.mem_reverse]

theorem lastWrite?_append_spared (h : ∀ x ∈ ys, x.call.Spares key) :
    (xs ++ ys).lastWrite? key = xs.lastWrite? key := by
  rw [lastWrite?_append, lastWrite?_eq_none.mpr h, Option.none_or]

theorem mem_of_lastWrite? (h : log.lastWrite? key = some kind) :
    ∃ x ∈ log, x.call.write? = some (kind, key) := by
  obtain ⟨x, hx, hkind⟩ := List.exists_of_findSome?_eq_some h
  exact ⟨x, List.mem_reverse.mp hx, Call.kindFor?_eq_some.mp hkind⟩

theorem split_of_lastWrite? (h : log.lastWrite? key = some kind) :
    ∃ (before : Log τ) (x : Exchange τ) (after : Log τ), log = before ++ x :: after ∧
      x.call.write? = some (kind, key) ∧ after.lastWrite? key = none := by
  induction log using List.reverseRecOn with
  | nil => cases h
  | append_singleton log y ih =>
    rw [lastWrite?_append, lastWrite?_singleton] at h
    cases hy : y.call.kindFor? key with
    | some kind' =>
      rw [hy] at h
      cases h
      exact ⟨log, y, [], rfl, Call.kindFor?_eq_some.mp hy, rfl⟩
    | none =>
      rw [hy] at h
      obtain ⟨before, x, after, rfl, hx, hafter⟩ := ih h
      refine ⟨before, x, after ++ [y], by simp, hx, ?_⟩
      rw [lastWrite?_append, lastWrite?_singleton, hy, hafter]
      rfl

theorem mem_written_iff :
    key ∈ log.written ↔ ∃ kind, log.lastWrite? key = some kind ∧ kind ≠ .delete := by
  induction log using List.reverseRecOn with
  | nil => simp [written, lastWrite?]
  | append_singleton log x ih =>
    rw [lastWrite?_append, lastWrite?_singleton, Call.kindFor?]
    rcases hx : x.call.write? with _ | ⟨kind, key'⟩
    · rw [written_concat_of_none hx]
      exact ih
    · rw [written_concat_of_some hx]
      by_cases hkey : key' = key
      · subst key'
        cases kind <;> simp [remember]
      · have hne : key ≠ key' := Ne.symm hkey
        cases kind <;> simp [remember, hkey, hne, ih]

end Log

/-- The second batch has come from the first by calls of one sort. -/
def Adds (allowed : Call τ → Prop) (b b' : Batch (Logged τ σ)) : Prop :=
  ∃ part : Log τ, b'.world.log = b.world.log ++ part ∧ ∀ x ∈ part, allowed x.call

/-- The batch remembers the documents that its log says to be put. -/
def Batch.Mindful (b : Batch (Logged τ σ)) : Prop := b.written = b.world.log.written

theorem Batch.Mindful.look {b : Batch (Logged τ σ)} (h : b.Mindful) {x : Exchange τ}
    (hlook : x.call.write? = none) (w : σ) :
    Batch.Mindful { b with world := ⟨w, b.world.log ++ [x]⟩ } :=
  h.trans (Log.written_concat_of_none hlook).symm

theorem Batch.Mindful.write {b : Batch (Logged τ σ)} (h : b.Mindful) {x : Exchange τ}
    {kind : WriteKind} {type : EntityType} {id : EntityId}
    (hwrite : x.call.write? = some (kind, (type, id))) (w : σ) :
    Batch.Mindful (Batch.afterWrite kind type id { b with world := ⟨w, b.world.log ++ [x]⟩ }) := by
  refine Eq.trans ?_ (Log.written_concat_of_some hwrite).symm
  rw [← h]
  cases kind <;> rfl

/-- The second batch has come from the first by calls of one sort, and does not forget more. -/
structure Proceeds (allowed : Call τ → Prop) (b b' : Batch (Logged τ σ)) : Prop where
  calls : Adds allowed b b'
  mindful : b.Mindful → b'.Mindful

section Rules

variable {allowed : Call τ → Prop} {b b₁ b₂ : Batch (Logged τ σ)}

theorem Adds.of_same (h : b₁.world.log = b.world.log) : Adds allowed b b₁ :=
  ⟨[], by rw [h, List.append_nil], by simp⟩

theorem Adds.trans (h₁ : Adds allowed b b₁) (h₂ : Adds allowed b₁ b₂) : Adds allowed b b₂ := by
  obtain ⟨part₁, hlog₁, hpart₁⟩ := h₁
  obtain ⟨part₂, hlog₂, hpart₂⟩ := h₂
  refine ⟨part₁ ++ part₂, by rw [hlog₂, hlog₁, List.append_assoc], fun x hx => ?_⟩
  exact (List.mem_append.mp hx).elim (hpart₁ x) (hpart₂ x)

theorem Adds.mono {allowed' : Call τ → Prop} (h : Adds allowed b b₁)
    (hcalls : ∀ call, allowed call → allowed' call) : Adds allowed' b b₁ := by
  obtain ⟨part, hlog, hpart⟩ := h
  exact ⟨part, hlog, fun x hx => hcalls x.call (hpart x hx)⟩

theorem Adds.concat (h : Adds allowed b b₁) {x : Exchange τ}
    (hlog : b₂.world.log = b₁.world.log ++ [x]) (hx : allowed x.call) : Adds allowed b b₂ :=
  h.trans ⟨[x], hlog, by simpa using hx⟩

theorem Adds.lastWrite?_eq {key : DocumentKey} (h : Adds (Call.Spares key) b b₁) :
    b₁.world.log.lastWrite? key = b.world.log.lastWrite? key := by
  obtain ⟨part, hlog, hpart⟩ := h
  rw [hlog, Log.lastWrite?_append_spared hpart]

theorem proceeds_refl (b : Batch (Logged τ σ)) : Proceeds allowed b b := ⟨.of_same rfl, id⟩

theorem Proceeds.trans (h₁ : Proceeds allowed b b₁) (h₂ : Proceeds allowed b₁ b₂) :
    Proceeds allowed b b₂ :=
  ⟨h₁.calls.trans h₂.calls, h₂.mindful ∘ h₁.mindful⟩

theorem Proceeds.mono {allowed' : Call τ → Prop} (h : Proceeds allowed b b₁)
    (hcalls : ∀ call, allowed call → allowed' call) : Proceeds allowed' b b₁ :=
  ⟨h.calls.mono hcalls, h.mindful⟩

variable {u : Updater τ σ} {c : Change} {ok : Stage → Batch (Logged τ σ) → Prop}

theorem Proceeds.exec_look (h : Proceeds allowed b b₁) {call : Call τ}
    {failure : String → UpdateError} {next : call.Answer → Stage} (hlook : call.write? = none)
    (hcall : allowed call) (hok : ∀ a w w', u.perform call w = (.ok a, w') →
      ∀ b', b'.world.log = b₁.world.log ++ [⟨call, .ok a⟩] → b'.answer = b₁.answer →
        b'.written = b₁.written → Proceeds allowed b b' → ok (next a) b') :
    (u.logged.exec c (.look call failure next)).Ensures b₁ ok (fun _ b' => Adds allowed b b') := by
  rw [Updater.exec_look]
  refine Updater.ensures_logged_call call ?_ fun cause w => h.calls.concat rfl hcall
  intro a w hw
  exact hok a _ w hw _ rfl rfl rfl
    ⟨h.calls.concat rfl hcall, fun hb => (h.mindful hb).look hlook w⟩

theorem Proceeds.exec_ask (h : Proceeds allowed b b₁) {next : Option Record → Stage}
    (hcall : allowed (.get c.entityType c.id))
    (hknown : ∀ a, b₁.answer = some a → ok (next a) b₁)
    (hok : ∀ a w w', u.perform (.get c.entityType c.id) w = (.ok a, w') →
      ∀ b', b'.world.log = b₁.world.log ++ [⟨.get c.entityType c.id, .ok a⟩] →
        b'.answer = some a → b'.written = b₁.written → Proceeds allowed b b' → ok (next a) b') :
    (u.logged.exec c (.ask next)).Ensures b₁ ok (fun _ b' => Adds allowed b b') := by
  cases ha : b₁.answer with
  | some a =>
    rw [Updater.exec_ask_known ha]
    exact hknown a ha
  | none =>
    rw [Updater.exec_ask_unknown ha]
    refine Updater.ensures_logged_call _ ?_ fun cause w => h.calls.concat rfl hcall
    intro a w hw
    exact hok a _ w hw _ rfl rfl rfl
      ⟨h.calls.concat rfl hcall, fun hb => (h.mindful hb).look rfl w⟩

/-- A document is written, which is remembered at once. -/
theorem Proceeds.exec_write (h : Proceeds allowed b b₁) {call : Call τ} {kind : WriteKind}
    {key : DocumentKey} {s : Stage} (hwrite : call.write? = some (kind, key))
    (hcall : allowed call)
    (hok : ∀ a b', b'.world.log = b₁.world.log ++ [⟨call, a⟩] → b'.answer = b₁.answer →
      b'.written = (b₁.afterWrite kind key.1 key.2).written → Proceeds allowed b b' → ok s b') :
    (u.logged.exec c (.write kind key call s)).Ensures b₁ ok (fun _ b' => Adds allowed b b') := by
  rw [Updater.exec_write]
  refine Updater.ensures_logged_call call ?_ fun cause w => h.calls.concat rfl hcall
  intro a w _
  exact hok _ _ rfl rfl rfl
    ⟨h.calls.concat rfl hcall, fun hb => (h.mindful hb).write hwrite w⟩

end Rules

/-- Whenever the store answers, it answers from the snapshot. -/
structure EntityStore.AnswersFrom (store : EntityStore σ) (entities : Snapshot) : Prop where
  get : ∀ {type id w a w'}, store.get type id w = (.ok a, w') → a = entities.find? (type, id)
  getBatch : ∀ {type ids w rs w'}, store.getBatch type ids w = (.ok rs, w') →
    ∀ r, r ∈ rs ↔ ∃ id ∈ ids, entities.find? (type, id) = some r

theorem EntityStore.AnswersFrom.keyed {store : EntityStore σ} {entities : Snapshot}
    (h : store.AnswersFrom entities) : store.Keyed where
  get hget := entities.key_of_find? (h.get hget).symm
  getBatch hget r hr := by
    obtain ⟨id, hid, hfind⟩ := (h.getBatch hget r).mp hr
    obtain ⟨rfl, rfl⟩ := Prod.mk.inj (entities.key_of_find? hfind)
    exact ⟨rfl, hid⟩

theorem EntityStore.AnswersFrom.logged {store : EntityStore σ} {entities : Snapshot}
    (h : store.AnswersFrom entities) :
    (Logged.store store : EntityStore (Logged τ σ)).AnswersFrom entities where
  get hget := h.get (Prod.ext (Prod.mk.inj hget).1 rfl)
  getBatch hget := h.getBatch (Prod.ext (Prod.mk.inj hget).1 rfl)

theorem Snapshot.store_answersFrom (entities : Snapshot) :
    (entities.store : EntityStore σ).AnswersFrom entities where
  get h := (Except.ok.inj (Prod.mk.inj h).1).symm
  getBatch h r := by
    obtain rfl := Except.ok.inj (Prod.mk.inj h).1
    exact List.mem_filterMap

/-- The calls that update documents of one sort, and those that write none. -/
def Call.UpdatesOnly (keys : DocumentKey → Prop) (call : Call τ) : Prop :=
  ∀ kind key, call.write? = some (kind, key) → kind = .update ∧ keys key

theorem Call.updatesOnly_of_look {keys : DocumentKey → Prop} {call : Call τ}
    (h : call.write? = none) : call.UpdatesOnly keys := by
  intro kind key hwrite
  cases h.symm.trans hwrite

theorem Call.updatesOnly_update {keys : DocumentKey → Prop} {r : Record} {tx : τ}
    (h : keys r.key) : (Call.update r tx).UpdatesOnly keys := by
  rintro _ _ ⟨⟩
  exact ⟨rfl, h⟩

theorem Call.UpdatesOnly.spares {keys : DocumentKey → Prop} {call : Call τ} {key : DocumentKey}
    (h : call.UpdatesOnly keys) (hkey : ¬keys key) : call.Spares key := by
  cases hkind : call.kindFor? key with
  | none => exact hkind
  | some kind => exact absurd (h kind key (Call.kindFor?_eq_some.mp hkind)).2 hkey

/-- The documents in which the changed entity is embedded are being looked for. -/
def Stage.isLooking : Stage → Bool
  | turn _ _ | refer _ _ _ | search _ _ | found _ _ _ => true
  | serve _ | own _ _ | settle _ _ _ | load _ _ _ => false

/-- Roots that are not changed themselves are served, these and those that are left among
`roots`. -/
def Stage.Among (roots : List EntityType) : Stage → Prop
  | serve rest => rest ⊆ roots
  | own _ _ | settle _ _ _ => False
  | turn e rest | refer e _ rest | search e rest | found e _ rest => e.root ∈ roots ∧ rest ⊆ roots
  | load e records rest =>
    (e.root ∈ roots ∧ rest ⊆ roots) ∧ ∀ r ∈ records, r.entityType = e.root

/-- The documents found are being updated. Those that the store has are written, or are to come. -/
def Stage.Owning (entities : Snapshot) (root : EntityType) (ids : List EntityId)
    (written : List DocumentKey) : Stage → Prop
  | found e ids' _ => e.root = root ∧ ids' = ids
  | load e records _ => e.root = root ∧ (∀ r ∈ records, r.entityType = root ∧ r.id ∈ ids) ∧
      ∀ id ∈ ids, ∀ r, entities.find? (root, id) = some r → r ∈ records ∨ (root, id) ∈ written
  | serve _ => ∀ id ∈ ids, ∀ r, entities.find? (root, id) = some r → (root, id) ∈ written
  | own _ _ | settle _ _ _ | turn _ _ | refer _ _ _ | search _ _ => False

theorem Stage.Owning.tail {entities : Snapshot} {root : EntityType} {ids : List EntityId}
    {written written' : List DocumentKey} {e : Embedding} {r : Record} {records : List Record}
    {rest : List EntityType}
    (h : (Stage.load e (r :: records) rest).Owning entities root ids written)
    (hgrown : written ⊆ written') (hr : (root, r.id) ∈ written') :
    (Stage.load e records rest).Owning entities root ids written' := by
  obtain ⟨hroot, hrecords, hall⟩ := h
  refine ⟨hroot, (List.forall_mem_cons.mp hrecords).2, fun id hid r' hr' => ?_⟩
  rcases hall id hid r' hr' with hmem | hdone
  · rcases List.mem_cons.mp hmem with rfl | hrest
    · obtain rfl : r'.id = id := (Prod.mk.inj (entities.key_of_find? hr')).2
      exact Or.inr hr
    · exact Or.inl hrest
  · exact Or.inr (hgrown hdone)

section Steps

variable {u : Updater τ σ} {tx : τ} {all : List EntityType} {c : Change} {e : Embedding}

theorem looks_keep (b : Batch (Logged τ σ)) :
    u.logged.Keeps tx all c Stage.isFound
      (fun s b' => s.isLooking ∧ Proceeds (Call.write? · = none) b b')
      (fun _ b' => Adds (Call.write? · = none) b b') := by
  rintro s b' act hhalt ⟨hlooking, h⟩ hact
  cases hact with
  | done | unknown | own | other | removed | settled | unsettled | delete | index | update
  | loaded | skipped | updated => cases hlooking
  | idle | pending => cases hhalt
  | gone | referred | unreferred => exact ⟨rfl, h⟩
  | there => exact h.exec_ask rfl (fun a _ => ⟨rfl, h⟩) fun _ _ _ _ _ _ _ _ h' => ⟨rfl, h'⟩
  | unreadable => exact h.calls
  | unlocated => exact ⟨rfl, h.calls, h.mindful⟩
  | located => exact h.exec_look rfl rfl fun _ _ _ _ _ _ _ _ h' => ⟨rfl, h'⟩

/-- The documents in which the entity is embedded are found without a write. -/
theorem owners_looks (u : Updater τ σ) (tx : τ) (c : Change) (e : Embedding)
    (b : Batch (Logged τ σ)) :
    (u.logged.owners c e).Ensures b (fun _ b' => Proceeds (Call.write? · = none) b b')
      (fun _ b' => Adds (Call.write? · = none) b b') := by
  have hstart : (Stage.turn e []).isLooking ∧ Proceeds (Call.write? · = none) b b :=
    ⟨rfl, proceeds_refl b⟩
  have hkeeps : u.logged.Keeps tx [] c _ _ _ := looks_keep b
  refine (hkeeps.owners hstart).mono ?_ fun _ _ => id
  exact fun _ _ h => h.2

/-- Roots that embed the changed entity, and are not changed themselves, are only updated. -/
theorem updates_keep {schema : Schema} {store : EntityStore σ} {sink : SearchIndex τ σ}
    (hstore : store.Keyed) {roots : List EntityType} (hown : c.entityType ∉ roots)
    (b : Batch (Logged τ σ)) {halt : Stage → Bool} :
    (Updater.ofSchema schema store sink).logged.Keeps tx all c halt
      (fun s b' => s.Among roots ∧ Proceeds (Call.UpdatesOnly fun key => key.1 ∈ roots) b b')
      (fun _ b' => Adds (Call.UpdatesOnly fun key => key.1 ∈ roots) b b') := by
  rintro s b' act - ⟨hamong, h⟩ hact
  have hlook {call : Call τ} (hcall : call.write? = none) :
      call.UpdatesOnly fun key => key.1 ∈ roots :=
    Call.updatesOnly_of_look hcall
  cases hact with
  | done | gone | referred | unreferred => exact ⟨hamong, h⟩
  | unknown | unreadable => exact h.calls
  | own => exact absurd (hamong List.mem_cons_self) hown
  | other he =>
    obtain ⟨r, -, rfl, rfl⟩ := Schema.root_of_lookup_embeddings he
    exact ⟨List.cons_subset.mp hamong, h⟩
  | removed | settled | unsettled | delete | index | update => exact hamong.elim
  | there =>
    exact h.exec_ask (hlook rfl) (fun _ _ => ⟨hamong, h⟩)
      fun _ _ _ _ _ _ _ _ h' => ⟨hamong, h'⟩
  | unlocated => exact ⟨hamong, h.calls, h.mindful⟩
  | located => exact h.exec_look rfl (hlook rfl) fun _ _ _ _ _ _ _ _ h' => ⟨hamong, h'⟩
  | idle => exact ⟨hamong.2, h⟩
  | pending =>
    refine h.exec_look rfl (hlook rfl) fun records w w' hw _ _ _ _ h' => ⟨⟨hamong, ?_⟩, h'⟩
    exact fun r hr => (hstore.getBatch hw r hr).1
  | loaded => exact ⟨hamong.1.2, h⟩
  | skipped => exact ⟨⟨hamong.1, (List.forall_mem_cons.mp hamong.2).2⟩, h⟩
  | @updated e r records rest =>
    obtain ⟨hroots, hrecords⟩ := hamong
    obtain ⟨hr, hrecords⟩ := List.forall_mem_cons.mp hrecords
    have hkey : r.key = (e.root, r.id) := Prod.ext hr rfl
    have hcall : (Call.update r tx).UpdatesOnly fun key => key.1 ∈ roots :=
      Call.updatesOnly_update (hkey ▸ hroots.1)
    exact h.exec_write (Call.write?_update hkey tx) hcall
      fun _ _ _ _ _ h' => ⟨⟨hroots, hrecords⟩, h'⟩

theorem owning_keeps {entities : Snapshot} (hstore : u.store.AnswersFrom entities)
    (root : EntityType) (ids : List EntityId) (b : Batch (Logged τ σ)) :
    u.logged.Keeps tx all c Stage.isServe
      (fun s b' => s.Owning entities root ids b'.written ∧
        Proceeds (Call.UpdatesOnly fun key => key.1 = root ∧ key.2 ∈ ids) b b')
      (fun _ b' => Adds (Call.UpdatesOnly fun key => key.1 = root ∧ key.2 ∈ ids) b b') := by
  rintro s b' act hhalt ⟨howning, h⟩ hact
  cases hact with
  | done | unknown | own | other => cases hhalt
  | removed | settled | unsettled | delete | index | update | gone | there | referred | unreadable
  | unreferred | unlocated | located => exact howning.elim
  | @idle e ids rest hids =>
    obtain ⟨rfl, rfl⟩ := howning
    refine ⟨fun id hid r hr => ?_, h⟩
    by_contra hnew
    have hmem : id ∈ Updater.firsts (ids.filter fun id => !b'.written.contains (e.root, id)) := by
      simp [mem_firsts, hid, hnew]
    rw [hids] at hmem
    cases hmem
  | @pending e ids ids' rest hids =>
    obtain ⟨rfl, rfl⟩ := howning
    refine h.exec_look rfl (Call.updatesOnly_of_look rfl) ?_
    intro (records : List Record) w w' hw b'' _ _ hsame h'
    refine ⟨⟨rfl, fun r hr => ?_, fun id hid r hr => ?_⟩, h'⟩
    · obtain ⟨htype, hid⟩ := hstore.keyed.getBatch hw r hr
      rw [← hids, mem_firsts] at hid
      exact ⟨htype, (List.mem_filter.mp hid).1⟩
    · rw [or_iff_not_imp_right, hsame]
      intro hnew
      refine (hstore.getBatch hw r).mpr ⟨id, ?_, hr⟩
      simp [← hids, mem_firsts, hid, hnew]
  | loaded =>
    obtain ⟨-, -, hall⟩ := howning
    exact ⟨fun id hid r hr => (hall id hid r hr).resolve_left List.not_mem_nil, h⟩
  | skipped hwritten =>
    obtain ⟨rfl, -, -⟩ := id howning
    exact ⟨howning.tail (List.Subset.refl _) hwritten, h⟩
  | @updated e r records rest hnew =>
    obtain ⟨rfl, hrecords, -⟩ := id howning
    obtain ⟨⟨htype, hid⟩, -⟩ := List.forall_mem_cons.mp hrecords
    have hkey : r.key = (e.root, r.id) := Prod.ext htype rfl
    refine h.exec_write (Call.write?_update hkey tx) (Call.updatesOnly_update ⟨htype, hid⟩) ?_
    intro _ b'' _ _ hwritten h'
    refine ⟨howning.tail ?_ ?_, h'⟩
    · rw [hwritten]
      exact List.subset_cons_self _ _
    · rw [hwritten]
      exact List.mem_cons_self

/-- The documents found are updated only, and those that the store has are written in the end. -/
theorem updateOwners_ensures {entities : Snapshot} (hstore : u.store.AnswersFrom entities) (tx : τ)
    (c : Change) (e : Embedding) (ids : List EntityId) (b : Batch (Logged τ σ)) :
    (u.logged.updateOwners tx e ids).Ensures b
      (fun _ b' => Proceeds (Call.UpdatesOnly fun key => key.1 = e.root ∧ key.2 ∈ ids) b b' ∧
        ∀ id ∈ ids, ∀ r, entities.find? (e.root, id) = some r → (e.root, id) ∈ b'.written)
      (fun _ b' => Adds (Call.UpdatesOnly fun key => key.1 = e.root ∧ key.2 ∈ ids) b b') := by
  have hstart : (Stage.found e ids []).Owning entities e.root ids b.written ∧
      Proceeds (Call.UpdatesOnly fun key => key.1 = e.root ∧ key.2 ∈ ids) b b :=
    ⟨⟨rfl, rfl⟩, proceeds_refl b⟩
  have hkeeps : u.logged.Keeps tx [] c _ _ _ := owning_keeps hstore e.root ids b
  refine (hkeeps.updateOwners hstart).mono ?_ fun _ _ => id
  exact fun _ b' h => ⟨h.2, h.1⟩

end Steps

end SearchSync
