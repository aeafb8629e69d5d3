import SearchSync.Proofs.Sync.Portions

/-!
# Accounts of what is done

What a part of a batch does to the outside is told by an account: its searches, root by root, its
writes, document by document, and its warnings. Where every call goes through, the steps of a change
have accounts in closed form. In particular the documents named by a list of ids are updated once
each, whatever stands twice in the list and in whatever order the store hands the records out.
-/
namespace SearchSync

open BatchAction

variable {τ σ : Type}

/-- The call searches the index for documents of the root. -/
def Call.seeks (root : EntityType) : Call τ → Bool
  | .findRootIds r _ _ => r = root
  | _ => false

theorem Call.seeks_of_write {call : Call τ} {write : WriteKind × DocumentKey}
    (h : call.write? = some write) (root : EntityType) : call.seeks root = false := by
  cases call with
  | get | getBatch | findRootIds => cases h
  | index | update | delete => rfl

namespace Log

def searches (log : Log τ) (root : EntityType) : Log τ :=
  log.filter fun x => x.call.seeks root

def writes (log : Log τ) (key : DocumentKey) : Log τ :=
  log.filter fun x => (x.call.kindFor? key).isSome

end Log

/-- What a part of a batch does to the outside: which searches it makes for each root, how it writes
each document, and what it warns about. -/
@[ext]
structure Account (τ : Type) where
  searches : EntityType → Log τ
  writes : DocumentKey → Log τ
  warnings : List UnlocatedWarning

namespace Account

def idle : Account τ := ⟨fun _ => [], fun _ => [], []⟩

def append (a a' : Account τ) : Account τ where
  searches root := a.searches root ++ a'.searches root
  writes key := a.writes key ++ a'.writes key
  warnings := a.warnings ++ a'.warnings

theorem append_idle (a : Account τ) : a.append idle = a := by
  simp [append, idle]

theorem append_assoc (a a' a'' : Account τ) :
    (a.append a').append a'' = a.append (a'.append a'') := by
  simp [append]

def ofExchange (x : Exchange τ) : Account τ where
  searches root := Log.searches [x] root
  writes key := Log.writes [x] key
  warnings := []

/-- The documents of a root with the given ids are updated, each once and with its record as it is
stored, if there is one and the document is not among those written. -/
def updates (entities : Snapshot) (tx : τ) (root : EntityType) (ids : List EntityId)
    (written : List DocumentKey) (key : DocumentKey) : Log τ :=
  if key.1 = root ∧ key.2 ∈ ids ∧ !written.contains key then
    (entities.find? key).toList.map fun r => ⟨.update r tx, .ok ()⟩
  else []

/-- The root's documents are searched as told, and those with the given ids updated. -/
def turn (entities : Snapshot) (tx : τ) (root : EntityType) (searches : Log τ)
    (ids : List EntityId) (written : List DocumentKey) : Account τ where
  searches r := if r = root then searches else []
  writes := updates entities tx root ids written
  warnings := []

def warned (warning : UnlocatedWarning) : Account τ := ⟨fun _ => [], fun _ => [], [warning]⟩

/-- Nothing is done for the root, except that some of its documents may be written. -/
structure Spares (a : Account τ) (root : EntityType) (except : DocumentKey → Prop) : Prop where
  searches : a.searches root = []
  writes : ∀ key, key.1 = root → ¬except key → a.writes key = []
  warnings : ∀ w ∈ a.warnings, w.root ≠ root

variable {a a' : Account τ} {root : EntityType} {except except' : DocumentKey → Prop}
  {entities : Snapshot} {tx : τ} {ids : List EntityId} {written : List DocumentKey}

theorem spares_idle (root : EntityType) (except : DocumentKey → Prop) :
    (idle : Account τ).Spares root except :=
  ⟨rfl, fun _ _ _ => rfl, nofun⟩

theorem Spares.append (h : a.Spares root except) (h' : a'.Spares root except) :
    (a.append a').Spares root except where
  searches := by simp [Account.append, h.searches, h'.searches]
  writes key hroot hkey := by
    simp [Account.append, h.writes key hroot hkey, h'.writes key hroot hkey]
  warnings w hw := (List.mem_append.mp hw).elim (h.warnings w) (h'.warnings w)

theorem spares_warned {w : UnlocatedWarning} (hne : w.root ≠ root) :
    (warned w : Account τ).Spares root except :=
  ⟨rfl, fun _ _ _ => rfl, by simpa [warned] using hne⟩

theorem spares_ofExchange {x : Exchange τ} (hseeks : x.call.seeks root = false)
    (hwrites : ∀ key, key.1 = root → ¬except key → x.call.Spares key) :
    (ofExchange x).Spares root except where
  searches := by simp [ofExchange, Log.searches, hseeks]
  writes key hroot hkey := by simp [ofExchange, Log.writes, hwrites key hroot hkey]
  warnings := nofun

theorem ofExchange_of_store {x : Exchange τ} (hseeks : ∀ root, x.call.seeks root = false)
    (hlook : x.call.write? = none) : ofExchange x = idle := by
  ext1
  · funext root
    simp [ofExchange, Log.searches, hseeks, idle]
  · funext key
    simp [ofExchange, Log.writes, Call.kindFor?, hlook, idle]
  · rfl

theorem not_contains_iff {key : DocumentKey} : (!written.contains key) = true ↔ key ∉ written := by
  simp

/-- The updates depend on the documents not yet written that the ids name and that have a record. -/
theorem turn_congr {ids' : List EntityId} {written' : List DocumentKey} (searches : Log τ)
    (h : ∀ id, (entities.find? (root, id)).isSome →
      ((id ∈ ids ∧ (root, id) ∉ written) ↔ (id ∈ ids' ∧ (root, id) ∉ written'))) :
    turn entities tx root searches ids written = turn entities tx root searches ids' written' := by
  ext1
  · rfl
  · funext ⟨type, id⟩
    by_cases htype : type = root
    · subst type
      cases hfind : entities.find? (root, id) with
      | none => simp [turn, updates, hfind]
      | some r =>
        simp only [turn, updates, not_contains_iff, h id (by rw [hfind]; rfl), true_and]
    · simp [turn, updates, htype]
  · rfl

theorem turn_nil (tx : τ) (root : EntityType) (written : List DocumentKey) :
    turn entities tx root [] [] written = idle := by
  ext1
  · funext r
    exact ite_self []
  · funext key
    simp [turn, updates, idle]
  · rfl

theorem turn_firsts (searches : Log τ) :
    turn entities tx root searches
        (Updater.firsts (ids.filter fun id => !written.contains (root, id))) written =
      turn entities tx root searches ids written := by
  refine turn_congr searches fun id _ => ?_
  rw [mem_firsts, List.mem_filter, not_contains_iff]
  tauto

theorem turn_cons_of_mem {id : EntityId} (h : (root, id) ∈ written) (searches : Log τ) :
    turn entities tx root searches (id :: ids) written =
      turn entities tx root searches ids written := by
  refine turn_congr searches fun id' _ => ?_
  have hid : (root, id') ∉ written → id' ≠ id := by
    rintro hnew rfl
    exact hnew h
  rw [List.mem_cons]
  tauto

theorem turn_cons {r : Record} (hr : entities.find? (root, r.id) = some r)
    (hnew : (root, r.id) ∉ written) (tx : τ) (ids : List EntityId) :
    turn entities tx root [] (r.id :: ids) written =
      (ofExchange ⟨.update r tx, .ok ()⟩).append
        (turn entities tx root [] ids ((root, r.id) :: written)) := by
  have hwrite : (Call.update r tx).write? = some (.update, (root, r.id)) := by
    rw [← entities.key_of_find? hr]
    rfl
  ext1
  · rfl
  · funext key
    by_cases hkey : key = (root, r.id)
    · simp [turn, updates, append, ofExchange, Log.writes, Call.kindFor?, hwrite, hkey, hnew, hr]
    · have hmem : (key.1 = root ∧ key.2 ∈ r.id :: ids ∧ key ∉ written) ↔
          (key.1 = root ∧ key.2 ∈ ids ∧ key ∉ (root, r.id) :: written) := by
        have hid : key.1 = root → key.2 ≠ r.id := fun hroot hid => hkey (Prod.ext hroot hid)
        simp only [List.mem_cons, not_or]
        tauto
      have hother : Log.writes [⟨.update r tx, .ok ()⟩] key = [] := by
        simp [Log.writes, Call.kindFor?, hwrite, Ne.symm hkey]
      simp only [turn, updates, append, ofExchange, not_contains_iff, hmem, hother,
        List.nil_append]
  · rfl

theorem search_append (entities : Snapshot) (tx : τ) (root : EntityType) (fields : List String)
    (id : EntityId) (found ids : List EntityId) (written : List DocumentKey) :
    (ofExchange ⟨.findRootIds root fields id, .ok found⟩).append
        (turn entities tx root [] ids written) =
      turn entities tx root [⟨.findRootIds root fields id, .ok found⟩] ids written := by
  ext1
  · funext r
    by_cases hr : r = root
    · simp [append, ofExchange, turn, Log.searches, Call.seeks, hr]
    · simp [append, ofExchange, turn, Log.searches, Call.seeks, hr, Ne.symm hr]
  · rfl
  · rfl

end Account

/-- What the batch has been told about the changed entity holds, and it remembers what it wrote. -/
structure Knows (entities : Snapshot) (c : Change) (b : Batch (Logged τ σ)) : Prop where
  answer : ∀ a, b.answer = some a → a = entities.find? c.key
  mindful : b.Mindful

/-- The account tells how the batch has come from `b` to `b'`. -/
structure Passes (entities : Snapshot) (c : Change) (a : Account τ)
    (b b' : Batch (Logged τ σ)) : Prop where
  calls : ∃ part, b'.world.log = b.world.log ++ part ∧
    (∀ root, part.searches root = a.searches root) ∧ ∀ key, part.writes key = a.writes key
  warnings : b'.warnings = b.warnings ++ a.warnings
  knows : Knows entities c b'

/-- Nothing is done for the root between the two batches, but for the documents excepted. -/
def Bypassed (entities : Snapshot) (c : Change) (root : EntityType) (except : DocumentKey → Prop)
    (b b' : Batch (Logged τ σ)) : Prop :=
  ∃ a, Passes entities c a b b' ∧ a.Spares root except

section Passes

variable {entities : Snapshot} {c : Change} {a a' : Account τ} {b b₁ b' : Batch (Logged τ σ)}
  {root : EntityType} {except except' : DocumentKey → Prop}

theorem passes_idle (hb : Knows entities c b) : Passes entities c .idle b b where
  calls := ⟨[], by simp, fun _ => rfl, fun _ => rfl⟩
  warnings := (List.append_nil _).symm
  knows := hb

theorem Passes.trans (h : Passes entities c a b b₁) (h' : Passes entities c a' b₁ b') :
    Passes entities c (a.append a') b b' := by
  obtain ⟨part, hlog, hsearches, hwrites⟩ := h.calls
  obtain ⟨part', hlog', hsearches', hwrites'⟩ := h'.calls
  refine ⟨⟨part ++ part', ?_, fun root => ?_, fun key => ?_⟩, ?_, h'.knows⟩
  · rw [hlog', hlog, List.append_assoc]
  · exact (List.filter_append part part').trans (congrArg₂ _ (hsearches root) (hsearches' root))
  · exact (List.filter_append part part').trans (congrArg₂ _ (hwrites key) (hwrites' key))
  · rw [h'.warnings, h.warnings, List.append_assoc, Account.append]

theorem Passes.of_exchange {x : Exchange τ} (hlog : b'.world.log = b.world.log ++ [x])
    (hwarnings : b'.warnings = b.warnings) (hknows : Knows entities c b') :
    Passes entities c (.ofExchange x) b b' where
  calls := ⟨[x], hlog, fun _ => rfl, fun _ => rfl⟩
  warnings := by rw [hwarnings, Account.ofExchange, List.append_nil]
  knows := hknows

/-- A document that the account does not write is remembered as before. -/
theorem Passes.mem_written (h : Passes entities c a b b') (hb : b.Mindful) {key : DocumentKey}
    (hkey : a.writes key = []) : key ∈ b'.written ↔ key ∈ b.written := by
  obtain ⟨part, hlog, -, hwrites⟩ := h.calls
  have hspared : ∀ x ∈ part, x.call.Spares key := by
    intro x hx
    have hnone := List.filter_eq_nil_iff.mp ((hwrites key).trans hkey) x hx
    rwa [Option.not_isSome_iff_eq_none] at hnone
  rw [h.knows.mindful, hb, hlog, Log.mem_written_iff, Log.mem_written_iff,
    Log.lastWrite?_append_spared hspared]

theorem bypassed_refl (hb : Knows entities c b) : Bypassed entities c root except b b :=
  ⟨.idle, passes_idle hb, Account.spares_idle root except⟩

theorem Bypassed.trans (h : Bypassed entities c root except b b₁)
    (h' : Bypassed entities c root except b₁ b') : Bypassed entities c root except b b' := by
  obtain ⟨a, ha, hspares⟩ := h
  obtain ⟨a', ha', hspares'⟩ := h'
  exact ⟨a.append a', ha.trans ha', hspares.append hspares'⟩

theorem Bypassed.of_asked {answer : Option (Option Record)}
    (h : Bypassed entities c root except { b with answer := answer } b') :
    Bypassed entities c root except b b' := by
  obtain ⟨a, ha, hspares⟩ := h
  exact ⟨a, ⟨ha.calls, ha.warnings, ha.knows⟩, hspares⟩

theorem Bypassed.knows (h : Bypassed entities c root except b b') : Knows entities c b' := by
  obtain ⟨a, ha, -⟩ := h
  exact ha.knows

end Passes

/-- Every call goes through, and the store answers from the snapshot. -/
structure Updater.Answers (u : Updater τ σ) (entities : Snapshot) : Prop where
  ok : ∀ call w, ∃ a w', u.perform call w = (.ok a, w')
  store : u.store.AnswersFrom entities

theorem Updater.answers_ofSnapshot (schema : Schema) (entities : Snapshot) (find : Lookup) :
    (Updater.ofSnapshot schema entities find : Updater τ Documents).Answers entities where
  ok call w := by cases call <;> exact ⟨_, _, rfl⟩
  store := entities.store_answersFrom

section Steps

variable {u : Updater τ σ} {entities : Snapshot} {c : Change} {b : Batch (Logged τ σ)}
  {root : EntityType} {ok : Stage → Batch (Logged τ σ) → Prop}
  {failed : UpdateError → Batch (Logged τ σ) → Prop}

theorem call_ensures (hu : u.Answers entities) (call : Call τ) {failure : String → UpdateError}
    {ok : call.Answer → Batch (Logged τ σ) → Prop}
    (hok : ∀ a w, u.perform call b.world.world = (.ok a, w) →
      ok a { b with world := ⟨w, b.world.log ++ [⟨call, .ok a⟩]⟩ }) :
    Ensures (BatchAction.call (u.logged.perform call) failure) b ok failed := by
  obtain ⟨a, w, hperform⟩ := hu.ok call b.world.world
  rw [ensures_call, u.logged_perform]
  rw [Logged.note, hperform]
  exact hok a w hperform

theorem Knows.look (hb : Knows entities c b) {x : Exchange τ} (hlook : x.call.write? = none)
    (w : σ) : Knows entities c { b with world := ⟨w, b.world.log ++ [x]⟩ } :=
  ⟨hb.answer, hb.mindful.look hlook w⟩

theorem Knows.asks (hb : Knows entities c b) {x : Exchange τ}
    (hseeks : ∀ root, x.call.seeks root = false) (hlook : x.call.write? = none) (w : σ) :
    Passes entities c .idle b { b with world := ⟨w, b.world.log ++ [x]⟩ } := by
  rw [← Account.ofExchange_of_store hseeks hlook]
  exact .of_exchange rfl rfl (hb.look hlook w)

theorem Knows.warns (hb : Knows entities c b) (w : UnlocatedWarning) :
    Passes entities c (.warned w) b { b with warnings := b.warnings ++ [w] } where
  calls := ⟨[], (List.append_nil _).symm, fun _ => rfl, fun _ => rfl⟩
  warnings := rfl
  knows := ⟨hb.answer, hb.mindful⟩

theorem Knows.exec_look (hb : Knows entities c b) (hu : u.Answers entities) {call : Call τ}
    {failure : String → UpdateError} {next : call.Answer → Stage} (hlook : call.write? = none)
    (hok : ∀ a w w', u.perform call w = (.ok a, w') → ∀ b', b'.written = b.written →
      Passes entities c (.ofExchange ⟨call, .ok a⟩) b b' → ok (next a) b') :
    (u.logged.exec c (.look call failure next)).Ensures b ok failed := by
  rw [Updater.exec_look]
  refine call_ensures hu call fun a w hw => ?_
  exact hok a _ w hw _ rfl (.of_exchange rfl rfl (hb.look hlook w))

theorem Knows.exec_ask (hb : Knows entities c b) (hu : u.Answers entities)
    {next : Option Record → Stage}
    (hok : ∀ b', b'.written = b.written → Passes entities c .idle b b' →
      ok (next (entities.find? c.key)) b') :
    (u.logged.exec c (.ask next)).Ensures b ok failed := by
  cases ha : b.answer with
  | some a =>
    obtain rfl := hb.answer a ha
    rw [Updater.exec_ask_known ha]
    exact hok b rfl (passes_idle hb)
  | none =>
    rw [Updater.exec_ask_unknown ha]
    refine call_ensures hu _ fun (a : Option Record) w hw => ?_
    have hasked := hb.asks (x := ⟨.get c.entityType c.id, .ok a⟩) (fun _ => rfl) rfl w
    obtain rfl := hu.store.get hw
    refine hok _ rfl ⟨hasked.calls, hasked.warnings, ?_, hasked.knows.mindful⟩
    rintro _ ⟨⟩
    rfl

theorem Knows.exec_write (hb : Knows entities c b) (hu : u.Answers entities) {call : Call τ}
    {kind : WriteKind} {key : DocumentKey} {s : Stage} (hwrite : call.write? = some (kind, key))
    (hok : ∀ a b', b'.written = (b.afterWrite kind key.1 key.2).written →
      Passes entities c (.ofExchange ⟨call, .ok a⟩) b b' → ok s b') :
    (u.logged.exec c (.write kind key call s)).Ensures b ok failed := by
  rw [Updater.exec_write]
  refine call_ensures hu call fun a w _ => ?_
  exact hok a _ rfl (.of_exchange rfl rfl ⟨hb.answer, hb.mindful.write hwrite w⟩)

/-- The records handed out for ids are those stored, under their own ids. -/
theorem EntityStore.AnswersFrom.mem_ids {store : EntityStore σ} (h : store.AnswersFrom entities)
    {ids : List EntityId} {w w' : σ} {records : List Record}
    (hanswer : store.getBatch root ids w = (.ok records, w')) :
    (∀ r ∈ records, entities.find? (root, r.id) = some r) ∧
      ∀ id, id ∈ records.map (·.id) ↔ id ∈ ids ∧ (entities.find? (root, id)).isSome := by
  have hrecords := h.getBatch hanswer
  have hstored : ∀ r ∈ records, entities.find? (root, r.id) = some r ∧ r.id ∈ ids := by
    intro r hr
    obtain ⟨id, hid, hfind⟩ := (hrecords r).mp hr
    obtain ⟨-, rfl⟩ := Prod.mk.inj (entities.key_of_find? hfind)
    exact ⟨hfind, hid⟩
  refine ⟨fun r hr => (hstored r hr).1, fun id => ?_⟩
  rw [List.mem_map]
  constructor
  · rintro ⟨r, hr, rfl⟩
    exact ⟨(hstored r hr).2, Option.isSome_of_mem (hstored r hr).1⟩
  · rintro ⟨hid, hsome⟩
    obtain ⟨r, hr⟩ := Option.isSome_iff_exists.mp hsome
    exact ⟨r, (hrecords r).mpr ⟨id, hid, hr⟩, (Prod.mk.inj (entities.key_of_find? hr)).2⟩

end Steps

end SearchSync
