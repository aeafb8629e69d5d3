import SearchSync.Proofs.Sync.Documents
import SearchSync.Sync.Trace
import SearchSync.Sync.Updater

/-!
# Actions on a batch and the log of their calls

`Ensures` speaks of both endings of an action, the value it returns and the error that stops the
batch, because a stopped batch keeps what was written before. There is one rule for each way to
build an action; with them nothing unfolds the monad again.

A log holds the calls to the store and the index with their answers, failing ones included, so that
what was known at a call can be told from what stands before it. It also tells what a batch has to
remember: which documents were written and not deleted since, and how many writes there were.
-/

namespace SearchSync.BatchAction

variable {σ α β : Type}

/-- The action, started in `b`, ends in `ok` with its value or in `failed` with its error. -/
def Ensures (x : BatchAction σ α) (b : Batch σ) (ok : α → Batch σ → Prop)
    (failed : UpdateError → Batch σ → Prop) : Prop :=
  match (x.run b : Except UpdateError α × Batch σ) with
  | (.ok a, b') => ok a b'
  | (.error e, b') => failed e b'

variable {x : BatchAction σ α} {f : α → BatchAction σ β} {b : Batch σ}
  {ok ok' : α → Batch σ → Prop} {failed failed' : UpdateError → Batch σ → Prop}

theorem run_bind (x : BatchAction σ α) (f : α → BatchAction σ β) (b : Batch σ) :
    ((x >>= f).run b : Except UpdateError β × Batch σ) =
      match (x.run b : Except UpdateError α × Batch σ) with
      | (.ok a, b') => (f a).run b'
      | (.error e, b') => (.error e, b') := by
  change ((x.run b).1 |> ExceptT.bindCont f) (x.run b).2 = _
  rcases (x.run b : Except UpdateError α × Batch σ) with ⟨_ | _, _⟩ <;> rfl

theorem run_get_bind (f : Batch σ → BatchAction σ β) (b : Batch σ) :
    ((get >>= f).run b : Except UpdateError β × Batch σ) = (f b).run b := rfl

theorem run_call (action : σ → Except String α × σ) (failure : String → UpdateError)
    (b : Batch σ) :
    ((call action failure).run b : Except UpdateError α × Batch σ) =
      ((action b.world).1.mapError failure, { b with world := (action b.world).2 }) := by
  unfold call
  rw [run_get_bind]
  rcases action b.world with ⟨_ | _, _⟩
  · rfl
  · rfl

@[simp] theorem ensures_pure {a : α} : Ensures (pure a) b ok failed ↔ ok a b := Iff.rfl

@[simp] theorem ensures_get {ok : Batch σ → Batch σ → Prop} :
    Ensures (get : BatchAction σ (Batch σ)) b ok failed ↔ ok b b := Iff.rfl

@[simp] theorem ensures_modify {g : Batch σ → Batch σ} {ok : Unit → Batch σ → Prop} :
    Ensures (modify g : BatchAction σ Unit) b ok failed ↔ ok () (g b) := Iff.rfl

@[simp] theorem ensures_bind {ok : β → Batch σ → Prop} :
    Ensures (x >>= f) b ok failed ↔
      Ensures x b (fun a b' => Ensures (f a) b' ok failed) failed := by
  unfold Ensures
  rw [run_bind]
  rcases (x.run b : Except UpdateError α × Batch σ) with ⟨_ | _, _⟩ <;> rfl

@[simp] theorem ensures_call {action : σ → Except String α × σ} {failure : String → UpdateError} :
    Ensures (call action failure) b ok failed ↔
      match action b.world with
      | (.ok a, w) => ok a { b with world := w }
      | (.error cause, w) => failed (failure cause) { b with world := w } := by
  unfold call
  rw [ensures_bind, ensures_get]
  rcases action b.world with ⟨_ | _, _⟩ <;> exact Iff.rfl

theorem Ensures.of_run (h : Ensures x b ok failed) {a : α} {b' : Batch σ}
    (hrun : (x.run b : Except UpdateError α × Batch σ) = (.ok a, b')) : ok a b' := by
  unfold Ensures at h
  rw [hrun] at h
  exact h

theorem Ensures.of_error (h : Ensures x b ok failed) {e : UpdateError} {b' : Batch σ}
    (hrun : (x.run b : Except UpdateError α × Batch σ) = (.error e, b')) : failed e b' := by
  unfold Ensures at h
  rw [hrun] at h
  exact h

/-- What both endings have in common. -/
theorem Ensures.run {P : Batch σ → Prop}
    (h : Ensures x b (fun _ b' => P b') (fun _ b' => P b')) :
    P (x.run b : Except UpdateError α × Batch σ).2 := by
  unfold Ensures at h
  rcases hx : (x.run b : Except UpdateError α × Batch σ) with ⟨e | a, b'⟩
  · rw [hx] at h
    exact h
  · rw [hx] at h
    exact h

theorem ensures_run (x : BatchAction σ α) (b : Batch σ) :
    Ensures x b (fun a b' => (x.run b : Except UpdateError α × Batch σ) = (.ok a, b'))
      (fun e b' => (x.run b : Except UpdateError α × Batch σ) = (.error e, b')) := by
  unfold Ensures
  rcases (x.run b : Except UpdateError α × Batch σ) with ⟨_ | _, _⟩ <;> rfl

theorem Ensures.mono (h : Ensures x b ok failed) (hok : ∀ a b', ok a b' → ok' a b')
    (hfailed : ∀ e b', failed e b' → failed' e b') : Ensures x b ok' failed' := by
  unfold Ensures at h ⊢
  rcases hx : (x.run b : Except UpdateError α × Batch σ) with ⟨e | a, b'⟩
  · rw [hx] at h
    exact hfailed e b' h
  · rw [hx] at h
    exact hok a b' h

theorem Ensures.and (h : Ensures x b ok failed) (h' : Ensures x b ok' failed') :
    Ensures x b (fun a b' => ok a b' ∧ ok' a b') (fun e b' => failed e b' ∧ failed' e b') := by
  unfold Ensures at h h' ⊢
  rcases hx : (x.run b : Except UpdateError α × Batch σ) with ⟨e | a, b'⟩
  · rw [hx] at h h'
    exact ⟨h, h'⟩
  · rw [hx] at h h'
    exact ⟨h, h'⟩

end SearchSync.BatchAction

namespace SearchSync

variable {τ σ : Type}

def Call.Answer : Call τ → Type
  | .get _ _ => Option Record
  | .getBatch _ _ => List Record
  | .findRootIds _ _ _ => List EntityId
  | .index _ _ | .update _ _ | .delete _ _ _ _ => Unit

/-- How a call writes, and which document. -/
def Call.write? : Call τ → Option (WriteKind × DocumentKey)
  | .index r _ => some (.index, r.key)
  | .update r _ => some (.update, r.key)
  | .delete type _ id _ => some (.delete, (type, id))
  | _ => none

def Call.kind? (call : Call τ) : Option WriteKind :=
  call.write?.map Prod.fst

theorem Call.write?_index {r : Record} {key : DocumentKey} (h : r.key = key) (tx : τ) :
    (Call.index r tx).write? = some (.index, key) := by
  rw [← h]
  rfl

theorem Call.write?_update {r : Record} {key : DocumentKey} (h : r.key = key) (tx : τ) :
    (Call.update r tx).write? = some (.update, key) := by
  rw [← h]
  rfl

/-- The call puts a document under the key. -/
def Call.Puts (call : Call τ) (key : DocumentKey) : Prop :=
  call.write? = some (.index, key) ∨ call.write? = some (.update, key)

def Call.Deletes (call : Call τ) (key : DocumentKey) : Prop :=
  call.write? = some (.delete, key)

theorem Call.Puts.of_write {call : Call τ} {kind : WriteKind} {key key' : DocumentKey}
    (h : call.Puts key') (hwrite : call.write? = some (kind, key)) :
    kind ≠ .delete ∧ key' = key := by
  rcases h with h | h
  · obtain ⟨rfl, rfl⟩ := Prod.mk.inj (Option.some.inj (hwrite.symm.trans h))
    exact ⟨nofun, rfl⟩
  · obtain ⟨rfl, rfl⟩ := Prod.mk.inj (Option.some.inj (hwrite.symm.trans h))
    exact ⟨nofun, rfl⟩

theorem Call.not_puts_of_look {call : Call τ} (h : call.write? = none) (key : DocumentKey) :
    ¬call.Puts key := by
  rintro (hkey | hkey)
  · cases h.symm.trans hkey
  · cases h.symm.trans hkey

structure Exchange (τ : Type) where
  call : Call τ
  answer : Except String call.Answer

/-- The exchanges of a batch, the latest last. -/
abbrev Log (τ : Type) := List (Exchange τ)

structure Logged (τ σ : Type) where
  world : σ
  log : Log τ

namespace Logged

def note (call : Call τ) (action : σ → Except String call.Answer × σ) (t : Logged τ σ) :
    Except String call.Answer × Logged τ σ :=
  ((action t.world).1, ⟨(action t.world).2, t.log ++ [⟨call, (action t.world).1⟩]⟩)

def store (s : EntityStore σ) : EntityStore (Logged τ σ) where
  get type id := note (.get type id) (s.get type id)
  getBatch type ids := note (.getBatch type ids) (s.getBatch type ids)

def sink (s : SearchIndex τ σ) : SearchIndex τ (Logged τ σ) where
  index r tx := note (.index r tx) (s.index r tx)
  update r tx := note (.update r tx) (s.update r tx)
  delete type roots id tx := note (.delete type roots id tx) (s.delete type roots id tx)
  findRootIds root fields id := note (.findRootIds root fields id) (s.findRootIds root fields id)

end Logged

namespace Updater

def logged (u : Updater τ σ) : Updater τ (Logged τ σ) :=
  ⟨u.containment, u.embeddings, Logged.store u.store, Logged.sink u.sink⟩

/-- All exchanges of a batch, also of one that stopped early. -/
def log (u : Updater τ σ) (tx : τ) (w : σ) (changes : List Change) : Log τ :=
  (u.logged.apply tx changes ⟨w, []⟩).2.world.log

def perform (u : Updater τ σ) : (call : Call τ) → σ → Except String call.Answer × σ
  | .get type id => u.store.get type id
  | .getBatch type ids => u.store.getBatch type ids
  | .index r tx => u.sink.index r tx
  | .update r tx => u.sink.update r tx
  | .delete type roots id tx => u.sink.delete type roots id tx
  | .findRootIds root fields id => u.sink.findRootIds root fields id

theorem logged_perform (u : Updater τ σ) (call : Call τ) :
    u.logged.perform call = Logged.note call (u.perform call) := by
  cases call <;> rfl

end Updater

namespace Log

/-- Something holds of every call in view of what stands before it. -/
def Throughout (P : Log τ → Call τ → Prop) (log : Log τ) : Prop :=
  ∀ before x after, log = before ++ x :: after → P before x.call

variable {P : Log τ → Call τ → Prop} {log rest : Log τ} {x : Exchange τ} {key : DocumentKey}

theorem throughout_nil : Throughout P [] := by
  intro before x after h
  simp at h

theorem Throughout.concat (h : Throughout P log) (hx : P log x.call) :
    Throughout P (log ++ [x]) := by
  intro before y after hsplit
  rcases List.eq_nil_or_concat' after with rfl | ⟨rest, z, rfl⟩
  · obtain ⟨rfl, heq⟩ := List.append_inj' hsplit rfl
    obtain rfl := List.singleton_inj.mp heq
    exact hx
  · rw [← List.cons_append, ← List.append_assoc] at hsplit
    exact h before y rest (List.append_inj_left' hsplit rfl)

/-- The documents written after one more write. -/
def remember (written : List DocumentKey) : WriteKind → DocumentKey → List DocumentKey
  | .delete, key => written.filter (· ≠ key)
  | _, key => key :: written

/-- The documents that were put and not deleted since. -/
def written (log : Log τ) : List DocumentKey :=
  log.foldl (fun acc x =>
    match x.call.write? with
    | some (kind, key) => remember acc kind key
    | none => acc) []

def count (log : Log τ) (kind : WriteKind) : Nat :=
  log.countP fun x => x.call.kind? = some kind

def counts (log : Log τ) : WriteCounts :=
  ⟨log.count .index, log.count .update, log.count .delete⟩

theorem written_concat_of_none (h : x.call.write? = none) :
    (log ++ [x]).written = log.written := by
  simp only [written, List.foldl_append, List.foldl_cons, List.foldl_nil, h]

theorem written_concat_of_some {kind : WriteKind} (h : x.call.write? = some (kind, key)) :
    (log ++ [x]).written = remember log.written kind key := by
  simp only [written, List.foldl_append, List.foldl_cons, List.foldl_nil, h]

theorem counts_concat_of_none (h : x.call.write? = none) : (log ++ [x]).counts = log.counts := by
  simp [counts, count, Call.kind?, h]

theorem counts_concat_of_some {kind : WriteKind} (h : x.call.write? = some (kind, key)) :
    (log ++ [x]).counts = log.counts.count kind := by
  cases kind <;> simp [counts, count, Call.kind?, h, WriteCounts.count]

/-- No document is put that was put before and not deleted since. -/
def Fresh (log : Log τ) : Prop :=
  log.Throughout fun before call => ∀ key, call.Puts key → key ∉ before.written

/-- A document that was put is remembered until it is deleted. -/
theorem mem_written {before after : Log τ} (hx : x.call.Puts key)
    (hafter : ∀ y ∈ after, ¬y.call.Deletes key) : key ∈ (before ++ x :: after).written := by
  induction after using List.reverseRecOn with
  | nil =>
    rcases hx with hx | hx
    · rw [written_concat_of_some hx]
      exact List.mem_cons_self
    · rw [written_concat_of_some hx]
      exact List.mem_cons_self
  | append_singleton after y ih =>
    have hmem := ih fun z hz => hafter z (List.mem_append_left [y] hz)
    have hassoc : before ++ x :: (after ++ [y]) = (before ++ x :: after) ++ [y] := by simp
    rw [hassoc]
    cases hy : y.call.write? with
    | none => rwa [written_concat_of_none hy]
    | some write =>
      obtain ⟨kind, other⟩ := write
      rw [written_concat_of_some hy]
      cases kind with
      | index => exact List.mem_cons_of_mem other hmem
      | update => exact List.mem_cons_of_mem other hmem
      | delete =>
        have hne : key ≠ other := by
          rintro rfl
          exact hafter y (by simp) hy
        exact List.mem_filter.mpr ⟨hmem, decide_eq_true hne⟩

/-- Between two calls that put a document stands one that deletes it. -/
theorem Fresh.deleted_between (h : log.Fresh) {before between after : Log τ} {y : Exchange τ}
    (hlog : log = before ++ x :: between ++ y :: after) (hx : x.call.Puts key)
    (hy : y.call.Puts key) : ∃ d ∈ between, d.call.Deletes key := by
  by_contra hnone
  refine h _ y after hlog key hy (mem_written hx fun d hd hdelete => hnone ⟨d, hd, hdelete⟩)

end Log

end SearchSync
