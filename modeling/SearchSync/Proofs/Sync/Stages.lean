import SearchSync.Proofs.Sync.Log

/-!
# The stages of a change

A change is applied in stages: root by root, the document of the changed root first, then the
documents that embed the changed entity. At each stage one act is due. It depends on the stage and
on the documents written so far, and leads to a later stage.
-/

namespace SearchSync

/-- How far a change has come, with the root that is being served and those that are left. -/
inductive Stage
  | serve (rest : List EntityType)
  | own (e : Embedding) (rest : List EntityType)
  /-- What remains of the changed root is known, and its document is to become like it. -/
  | settle (e : Embedding) (entity : Option Record) (rest : List EntityType)
  | turn (e : Embedding) (rest : List EntityType)
  | refer (e : Embedding) (entity : Option Record) (rest : List EntityType)
  | search (e : Embedding) (rest : List EntityType)
  | found (e : Embedding) (ids : List EntityId) (rest : List EntityType)
  | load (e : Embedding) (records : List Record) (rest : List EntityType)

/-- What is done at a stage, and the stage that follows. -/
inductive Act (τ : Type)
  | go (next : Stage)
  | stop (type : EntityType) (reason : Unresolved)
  | ask (next : Option Record → Stage)
  | look (call : Call τ) (failure : String → UpdateError) (next : call.Answer → Stage)
  | write (kind : WriteKind) (key : DocumentKey) (call : Call τ) (next : Stage)
  | warn (warning : UnlocatedWarning) (next : Stage)

def Act.call? {τ : Type} : Act τ → Option (Call τ)
  | .look call _ _ | .write _ _ call _ => some call
  | .go _ | .stop _ _ | .ask _ | .warn _ _ => none

/-- All stages that an act leads to. -/
def Act.Leads (P : Stage → Prop) {τ : Type} : Act τ → Prop
  | .go s => P s
  | .stop _ _ => True
  | .ask s => ∀ entity, P (s entity)
  | .look _ _ s => ∀ answer, P (s answer)
  | .write _ _ _ s => P s
  | .warn _ s => P s

theorem Act.Leads.mono {τ : Type} {P Q : Stage → Prop} (hPQ : ∀ s, P s → Q s) {act : Act τ}
    (h : act.Leads P) : act.Leads Q := by
  cases act with
  | stop => trivial
  | go s | write _ _ _ s | warn _ s => exact hPQ s h
  | ask s => exact fun entity => hPQ _ (h entity)
  | look _ _ s => exact fun answer => hPQ _ (h answer)

namespace Stage

/-- The stage at which the document of a changed root has been seen to. -/
def after (c : Change) (e : Embedding) (rest : List EntityType) : Stage :=
  if e.embeds c.entityType then .turn e rest else .serve rest

/-- The roots to come, the stages to come for the root being served, and the records to come. -/
def size : Stage → Nat × Nat × Nat
  | serve rest => (rest.length, 0, 0)
  | own _ rest => (rest.length, 7, 0)
  | settle _ _ rest => (rest.length, 6, 0)
  | turn _ rest => (rest.length, 5, 0)
  | refer _ _ rest => (rest.length, 4, 0)
  | search _ rest => (rest.length, 3, 0)
  | found _ _ rest => (rest.length, 2, 0)
  | load _ records rest => (rest.length, 1, records.length)

def Follows (s s' : Stage) : Prop :=
  Prod.Lex (· < ·) (Prod.Lex (· < ·) (· < ·)) s.size s'.size

instance (s s' : Stage) : Decidable (s.Follows s') :=
  inferInstanceAs (Decidable (Prod.Lex _ _ _ _))

def rest : Stage → List EntityType
  | serve rest | own _ rest | settle _ _ rest | turn _ rest | refer _ _ rest | search _ rest
  | found _ _ rest | load _ _ rest => rest

theorem rest_after (c : Change) (e : Embedding) (rest : List EntityType) :
    (after c e rest).rest = rest := by
  unfold after
  split <;> rfl

def isEnd : Stage → Bool
  | serve [] => true
  | _ => false

/-- The document of a changed root has been seen to. -/
def isAfter : Stage → Bool
  | serve _ | turn _ _ => true
  | _ => false

def isServe : Stage → Bool
  | serve _ => true
  | _ => false

/-- The turn has come of the root that stands before those that are left. -/
def isTurn (rest : List EntityType) : Stage → Bool
  | turn _ rest' => rest' = rest
  | _ => false

def isFound : Stage → Bool
  | found _ _ _ => true
  | _ => false

def ids : Stage → List EntityId
  | found _ ids _ => ids
  | _ => []

theorem isEnd_iff {s : Stage} : s.isEnd ↔ s = .serve [] := by
  unfold isEnd
  split <;> simp_all

theorem isAfter_after (c : Change) (e : Embedding) (rest : List EntityType) :
    (after c e rest).isAfter := by
  unfold after
  split <;> rfl

theorem after_follows (c : Change) (e : Embedding) (rest : List EntityType) {phase : Nat}
    (h : 5 < phase) : Prod.Lex (· < ·) (Prod.Lex (· < ·) (· < ·)) (after c e rest).size
      (rest.length, phase, 0) := by
  unfold after
  split
  · exact .right _ (.left _ _ h)
  · exact .right _ (.left _ _ (Nat.zero_lt_of_lt h))

end Stage

namespace Updater

variable {τ σ α β : Type}

def next (u : Updater τ σ) (tx : τ) (all : List EntityType) (c : Change)
    (written : List DocumentKey) : Stage → Act τ
  | .serve [] => .go (.serve [])
  | .serve (root :: rest) =>
    match u.embeddings.lookup root with
    | none => .stop root .noEmbedding
    | some e => .go (if root = c.entityType then .own e rest else .turn e rest)
  | .own e rest =>
    if c.kind = .delete then .go (.settle e none rest)
    else if written.contains c.key then .go (.after c e rest)
    else .ask fun entity => .settle e entity rest
  | .settle e none rest =>
    .write .delete c.key (.delete c.entityType all c.id tx) (.after c e rest)
  | .settle e (some r) rest =>
    if c.kind = .insert then .write .index c.key (.index r tx) (.after c e rest)
    else .write .update c.key (.update r tx) (.after c e rest)
  | .turn e rest =>
    if c.kind = .delete then .go (.refer e none rest)
    else .ask fun entity => .refer e entity rest
  | .refer e entity rest =>
    match entity, e.backReference? c.entityType with
    | some r, some property =>
      match r.referenceIds? property e.rootIdProperty e.rootIdType with
      | some ids => .go (.found e ids rest)
      | none => .stop c.entityType .unreadableReference
    | _, _ => .go (.search e rest)
  | .search e rest =>
    match e.idFields c.entityType with
    | [] => .warn ⟨e.root, c.entityType, c.id⟩ (.found e [] rest)
    | fields =>
      .look (.findRootIds e.root fields c.id) (.lookup e.root c.entityType c.id) fun ids =>
        .found e ids rest
  | .found e ids rest =>
    match firsts (ids.filter fun id => !written.contains (e.root, id)) with
    | [] => .go (.serve rest)
    | ids =>
      .look (.getBatch e.root ids) (.store e.root (.batch ids)) fun records => .load e records rest
  | .load _ [] rest => .go (.serve rest)
  | .load e (r :: records) rest =>
    if written.contains (e.root, r.id) then .go (.load e records rest)
    else .write .update (e.root, r.id) (.update r tx) (.load e records rest)

theorem next_congr {σ' : Type} {u : Updater τ σ} {u' : Updater τ σ'}
    (h : u'.embeddings = u.embeddings) : u'.next = u.next := by
  funext tx all c written s
  unfold next
  rw [h]

def exec (u : Updater τ σ) (c : Change) : Act τ → BatchAction σ Stage
  | .go s => return s
  | .stop type reason => throw (.unresolved type reason)
  | .ask s => do return s (← u.record c)
  | .look call failure s => do return s (← BatchAction.call (u.perform call) failure)
  | .write kind key call s => do
    let _ ← BatchAction.call (u.perform call) (.write kind key.1 key.2)
    modify (Batch.afterWrite kind key.1 key.2)
    return s
  | .warn w s => do
    modify fun b => { b with warnings := b.warnings ++ [w] }
    return s

def step (u : Updater τ σ) (tx : τ) (all : List EntityType) (c : Change) (s : Stage) :
    BatchAction σ Stage := do
  u.exec c (u.next tx all c (← get).written s)

/-- Goes from stage to stage up to one at which to halt. -/
def advance (u : Updater τ σ) (tx : τ) (all : List EntityType) (c : Change) (halt : Stage → Bool)
    (s : Stage) : BatchAction σ Stage := do
  if halt s then
    return s
  let s' ← u.step tx all c s
  if s'.Follows s then u.advance tx all c halt s' else return s'
termination_by s.size
decreasing_by assumption

end Updater

/-- The acts that are due at a stage, each with what it depends on. -/
inductive Due {τ σ : Type} (u : Updater τ σ) (tx : τ) (all : List EntityType) (c : Change)
    (written : List DocumentKey) : Stage → Act τ → Prop
  | done : Due u tx all c written (.serve []) (.go (.serve []))
  | unknown {root rest} (he : u.embeddings.lookup root = none) :
      Due u tx all c written (.serve (root :: rest)) (.stop root .noEmbedding)
  | own {e rest} (he : u.embeddings.lookup c.entityType = some e) :
      Due u tx all c written (.serve (c.entityType :: rest)) (.go (.own e rest))
  | other {root e rest} (he : u.embeddings.lookup root = some e) (hroot : root ≠ c.entityType) :
      Due u tx all c written (.serve (root :: rest)) (.go (.turn e rest))
  | removed {e rest} (hkind : c.kind = .delete) :
      Due u tx all c written (.own e rest) (.go (.settle e none rest))
  | settled {e rest} (hkind : c.kind ≠ .delete) (hwritten : c.key ∈ written) :
      Due u tx all c written (.own e rest) (.go (.after c e rest))
  | unsettled {e rest} (hkind : c.kind ≠ .delete) (hnew : c.key ∉ written) :
      Due u tx all c written (.own e rest) (.ask fun entity => .settle e entity rest)
  | delete {e rest} : Due u tx all c written (.settle e none rest)
      (.write .delete c.key (.delete c.entityType all c.id tx) (.after c e rest))
  | index {e r rest} (hkind : c.kind = .insert) : Due u tx all c written (.settle e (some r) rest)
      (.write .index c.key (.index r tx) (.after c e rest))
  | update {e r rest} (hkind : c.kind ≠ .insert) : Due u tx all c written (.settle e (some r) rest)
      (.write .update c.key (.update r tx) (.after c e rest))
  | gone {e rest} (hkind : c.kind = .delete) :
      Due u tx all c written (.turn e rest) (.go (.refer e none rest))
  | there {e rest} (hkind : c.kind ≠ .delete) :
      Due u tx all c written (.turn e rest) (.ask fun entity => .refer e entity rest)
  | referred {e r property ids rest} (hproperty : e.backReference? c.entityType = some property)
      (hids : r.referenceIds? property e.rootIdProperty e.rootIdType = some ids) :
      Due u tx all c written (.refer e (some r) rest) (.go (.found e ids rest))
  | unreadable {e r property rest} (hproperty : e.backReference? c.entityType = some property)
      (hids : r.referenceIds? property e.rootIdProperty e.rootIdType = none) :
      Due u tx all c written (.refer e (some r) rest)
        (.stop c.entityType .unreadableReference)
  | unreferred {e entity rest} (h : entity = none ∨ e.backReference? c.entityType = none) :
      Due u tx all c written (.refer e entity rest) (.go (.search e rest))
  | unlocated {e rest} (hfields : e.idFields c.entityType = []) :
      Due u tx all c written (.search e rest)
        (.warn ⟨e.root, c.entityType, c.id⟩ (.found e [] rest))
  | located {e rest} (hfields : e.idFields c.entityType ≠ []) :
      Due u tx all c written (.search e rest)
        (.look (.findRootIds e.root (e.idFields c.entityType) c.id)
          (.lookup e.root c.entityType c.id) fun ids => .found e ids rest)
  | idle {e ids rest}
      (hids : Updater.firsts (ids.filter fun id => !written.contains (e.root, id)) = []) :
      Due u tx all c written (.found e ids rest) (.go (.serve rest))
  | pending {e ids ids' rest}
      (hids : Updater.firsts (ids.filter fun id => !written.contains (e.root, id)) = ids')
      (hne : ids' ≠ []) :
      Due u tx all c written (.found e ids rest)
        (.look (.getBatch e.root ids') (.store e.root (.batch ids')) fun records =>
          .load e records rest)
  | loaded {e rest} : Due u tx all c written (.load e [] rest) (.go (.serve rest))
  | skipped {e r records rest} (hwritten : (e.root, r.id) ∈ written) :
      Due u tx all c written (.load e (r :: records) rest) (.go (.load e records rest))
  | updated {e r records rest} (hnew : (e.root, r.id) ∉ written) :
      Due u tx all c written (.load e (r :: records) rest)
        (.write .update (e.root, r.id) (.update r tx) (.load e records rest))

namespace Updater

variable {τ σ α β : Type} {u : Updater τ σ} {tx : τ} {all : List EntityType} {c : Change}

theorem next_due (u : Updater τ σ) (tx : τ) (all : List EntityType) (c : Change)
    (written : List DocumentKey) (s : Stage) :
    Due u tx all c written s (u.next tx all c written s) := by
  cases s with
  | serve rest =>
    rcases rest with _ | ⟨root, rest⟩
    · exact .done
    · cases he : u.embeddings.lookup root with
      | none =>
        simp only [next, he]
        exact .unknown he
      | some e =>
        simp only [next, he]
        by_cases hroot : root = c.entityType
        · subst hroot
          rw [if_pos rfl]
          exact .own he
        · rw [if_neg hroot]
          exact .other he hroot
  | own e rest =>
    rw [next]
    by_cases hkind : c.kind = .delete
    · rw [if_pos hkind]
      exact .removed hkind
    · rw [if_neg hkind]
      by_cases hwritten : c.key ∈ written
      · rw [if_pos (List.contains_iff_mem.mpr hwritten)]
        exact .settled hkind hwritten
      · rw [if_neg (mt List.contains_iff_mem.mp hwritten)]
        exact .unsettled hkind hwritten
  | settle e entity rest =>
    cases entity with
    | none => exact .delete
    | some r =>
      rw [next]
      by_cases hkind : c.kind = .insert
      · rw [if_pos hkind]
        exact .index hkind
      · rw [if_neg hkind]
        exact .update hkind
  | turn e rest =>
    rw [next]
    by_cases hkind : c.kind = .delete
    · rw [if_pos hkind]
      exact .gone hkind
    · rw [if_neg hkind]
      exact .there hkind
  | refer e entity rest =>
    cases entity with
    | none => exact .unreferred (.inl rfl)
    | some r =>
      cases hproperty : e.backReference? c.entityType with
      | none =>
        simp only [next, hproperty]
        exact .unreferred (.inr hproperty)
      | some property =>
        cases hids : r.referenceIds? property e.rootIdProperty e.rootIdType with
        | none =>
          simp only [next, hproperty, hids]
          exact .unreadable hproperty hids
        | some ids =>
          simp only [next, hproperty, hids]
          exact .referred hproperty hids
  | search e rest =>
    by_cases hfields : e.idFields c.entityType = []
    · simp only [next, hfields]
      exact .unlocated hfields
    · simp only [next]
      exact .located hfields
  | found e ids rest =>
    rw [next]
    cases hids : firsts (ids.filter fun id => !written.contains (e.root, id)) with
    | nil => exact .idle hids
    | cons id ids => exact .pending hids (List.cons_ne_nil id ids)
  | load e records rest =>
    rcases records with _ | ⟨r, records⟩
    · exact .loaded
    · rw [next]
      by_cases hwritten : (e.root, r.id) ∈ written
      · rw [if_pos (List.contains_iff_mem.mpr hwritten)]
        exact .skipped hwritten
      · rw [if_neg (mt List.contains_iff_mem.mp hwritten)]
        exact .updated hwritten

open BatchAction

theorem run_record_known {a : Option Record} {b : Batch σ} (hb : b.answer = some a) :
    (u.record c).run b = (.ok a, b) := by
  unfold record
  rw [run_get_bind, hb]
  rfl

theorem run_record_unknown {b : Batch σ} (hb : b.answer = none) :
    (u.record c).run b = match u.store.get c.entityType c.id b.world with
      | (.ok a, w) => (.ok a, { b with world := w, answer := some a })
      | (.error cause, w) =>
        (.error (.store c.entityType (.one c.id) cause), { b with world := w }) := by
  unfold record
  rw [run_get_bind, hb]
  dsimp only
  rw [run_bind, run_call]
  rcases u.store.get c.entityType c.id b.world with ⟨cause | a, w⟩
  · rw [hb]
    rfl
  · rfl

section Steps

variable {b : Batch σ} {ok : Stage → Batch σ → Prop} {failed : UpdateError → Batch σ → Prop}

@[simp] theorem exec_go (s : Stage) : (u.exec c (.go s)).Ensures b ok failed ↔ ok s b := Iff.rfl

@[simp] theorem exec_stop (type : EntityType) (reason : Unresolved) :
    (u.exec c (.stop type reason)).Ensures b ok failed ↔ failed (.unresolved type reason) b :=
  Iff.rfl

@[simp] theorem exec_warn (w : UnlocatedWarning) (s : Stage) :
    (u.exec c (.warn w s)).Ensures b ok failed ↔ ok s { b with warnings := b.warnings ++ [w] } :=
  Iff.rfl

theorem exec_look (call : Call τ) (failure : String → UpdateError) (s : call.Answer → Stage) :
    (u.exec c (.look call failure s)).Ensures b ok failed ↔
      (BatchAction.call (u.perform call) failure).Ensures b (fun a => ok (s a)) failed := by
  rw [exec, ensures_bind]
  rfl

theorem exec_write (kind : WriteKind) (key : DocumentKey) (call : Call τ) (s : Stage) :
    (u.exec c (.write kind key call s)).Ensures b ok failed ↔
      (BatchAction.call (u.perform call) (.write kind key.1 key.2)).Ensures b
        (fun _ b' => ok s (Batch.afterWrite kind key.1 key.2 b')) failed := by
  rw [exec, ensures_bind]
  rfl

theorem exec_ask_known {a : Option Record} (h : b.answer = some a) (s : Option Record → Stage) :
    (u.exec c (.ask s)).Ensures b ok failed ↔ ok (s a) b := by
  rw [exec, record, ensures_bind, ensures_bind, ensures_get, h]
  rfl

theorem exec_ask_unknown (h : b.answer = none) (s : Option Record → Stage) :
    (u.exec c (.ask s)).Ensures b ok failed ↔
      (BatchAction.call (u.perform (.get c.entityType c.id))
        (.store c.entityType (.one c.id))).Ensures b
        (fun a b' => ok (s a) { b' with answer := some a }) failed := by
  rw [exec, record, ensures_bind, ensures_bind, ensures_get, h]
  simp only [ensures_bind]
  rfl

theorem step_ensures {s : Stage}
    (h : ∀ act, Due u tx all c b.written s act → (u.exec c act).Ensures b ok failed) :
    (u.step tx all c s).Ensures b ok failed := by
  rw [step, ensures_bind, ensures_get]
  exact h _ (u.next_due tx all c b.written s)

end Steps

theorem ensures_logged_call {b : Batch (Logged τ σ)} (call : Call τ)
    {failure : String → UpdateError} {ok : call.Answer → Batch (Logged τ σ) → Prop}
    {failed : UpdateError → Batch (Logged τ σ) → Prop}
    (hok : ∀ a w, u.perform call b.world.world = (.ok a, w) →
      ok a { b with world := ⟨w, b.world.log ++ [⟨call, .ok a⟩]⟩ })
    (hfailed : ∀ cause w,
      failed (failure cause) { b with world := ⟨w, b.world.log ++ [⟨call, .error cause⟩]⟩ }) :
    (BatchAction.call (u.logged.perform call) failure).Ensures b ok failed := by
  rw [ensures_call, u.logged_perform]
  unfold Logged.note
  rcases haction : u.perform call b.world.world with ⟨cause | a, w⟩
  · exact hfailed cause w
  · exact hok a w haction

theorem due_follows {written : List DocumentKey} {s : Stage} {act : Act τ}
    (h : Due u tx all c written s act) (hs : s ≠ .serve []) : act.Leads (·.Follows s) := by
  cases h with
  | done => exact absurd rfl hs
  | unknown | unreadable => trivial
  | own | other => exact .left _ _ (Nat.lt_succ_self _)
  | removed | gone | referred | unreferred | unlocated | idle | loaded =>
    exact .right _ (.left _ _ (by decide))
  | unsettled | there | located | pending => exact fun _ => .right _ (.left _ _ (by decide))
  | settled | delete | index | update => exact Stage.after_follows c _ _ (by decide)
  | skipped | updated => exact .right _ (.right _ (Nat.lt_succ_self _))

theorem due_rest {written : List DocumentKey} {s : Stage} {act : Act τ}
    (h : Due u tx all c written s act) : act.Leads fun s' => s'.rest <:+ s.rest := by
  cases h with
  | unknown | unreadable => trivial
  | own | other => exact List.suffix_cons _ _
  | done | removed | gone | referred | unreferred | unlocated | idle | loaded | skipped
  | updated => exact List.suffix_rfl
  | unsettled | there | located | pending => exact fun _ => List.suffix_rfl
  | settled | delete | index | update =>
    change (Stage.after c _ _).rest <:+ _
    rw [Stage.rest_after]
    exact List.suffix_rfl

theorem exec_leads {P : Stage → Prop} {act : Act τ} (h : act.Leads P) (b : Batch σ) :
    (u.exec c act).Ensures b (fun s _ => P s) (fun _ _ => True) := by
  cases act with
  | go s | warn _ s => exact h
  | stop => trivial
  | ask s =>
    cases ha : b.answer with
    | some a =>
      rw [exec_ask_known ha]
      exact h a
    | none =>
      rw [exec_ask_unknown ha, ensures_call]
      split
      · exact h _
      · trivial
  | look call failure s =>
    rw [exec_look, ensures_call]
    split
    · exact h _
    · trivial
  | write kind key call s =>
    rw [exec_write, ensures_call]
    split
    · exact h
    · trivial

theorem exec_bind_congr {act : Act τ} {f g : Stage → BatchAction σ α}
    (h : act.Leads fun s => f s = g s) : u.exec c act >>= f = u.exec c act >>= g := by
  cases act with
  | go s => exact h
  | stop => rfl
  | ask s =>
    simp only [exec, bind_assoc, pure_bind]
    exact bind_congr h
  | look call failure s =>
    simp only [exec, bind_assoc, pure_bind]
    exact bind_congr h
  | write kind key call s =>
    simp only [exec, bind_assoc, pure_bind]
    exact bind_congr fun _ => bind_congr fun _ => h
  | warn w s =>
    simp only [exec, bind_assoc, pure_bind]
    exact bind_congr fun _ => h

end Updater

end SearchSync
