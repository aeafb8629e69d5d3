import SearchSync.Proofs.Sync.Course

/-!
# Watching changes nothing

A batch knows its world only through its calls. Where the calls in one world look, through a view,
like calls in another, the whole batch does. So a world that keeps a trace or a log of its calls
tells about the batch in the world as it is.
-/
namespace SearchSync

variable {τ σ σ' α β : Type} {view : σ → σ'}

/-- The batch as it is seen through a view of its world. -/
def Batch.map (view : σ → σ') (b : Batch σ) : Batch σ' :=
  ⟨view b.world, b.written, b.counts, b.warnings, b.answer⟩

namespace BatchAction

/-- Through the view, the first action looks like the second. -/
def LooksLike (view : σ → σ') (x : BatchAction σ α) (x' : BatchAction σ' α) : Prop :=
  ∀ b : Batch σ, (x'.run (b.map view) : Except UpdateError α × Batch σ') =
    ((x.run b : Except UpdateError α × Batch σ).1, (x.run b : Except _ _ × Batch σ).2.map view)

theorem looksLike_pure (a : α) :
    LooksLike view (pure a : BatchAction σ α) (pure a) := fun _ => rfl

theorem looksLike_throw (e : UpdateError) :
    LooksLike view (throw e : BatchAction σ α) (throw e) := fun _ => rfl

theorem looksLike_modify {g : Batch σ → Batch σ} {g' : Batch σ' → Batch σ'}
    (h : ∀ b, g' (b.map view) = (g b).map view) :
    LooksLike view (modify g : BatchAction σ Unit) (modify g') := by
  intro b
  exact Prod.ext rfl (h b)

theorem LooksLike.bind {x : BatchAction σ α} {x' : BatchAction σ' α} {f : α → BatchAction σ β}
    {f' : α → BatchAction σ' β} (hx : LooksLike view x x') (hf : ∀ a, LooksLike view (f a) (f' a)) :
    LooksLike view (x >>= f) (x' >>= f') := by
  intro b
  rw [run_bind, run_bind, hx b]
  rcases (x.run b : Except UpdateError α × Batch σ) with ⟨e | a, b₁⟩
  · rfl
  · exact hf a b₁

theorem looksLike_get_bind {f : Batch σ → BatchAction σ β} {f' : Batch σ' → BatchAction σ' β}
    (hf : ∀ b, LooksLike view (f b) (f' (b.map view))) :
    LooksLike view (get >>= f) (get >>= f') := by
  intro b
  exact hf b b

theorem LooksLike.ite {p : Prop} [Decidable p] {x y : BatchAction σ α} {x' y' : BatchAction σ' α}
    (hx : LooksLike view x x') (hy : LooksLike view y y') :
    LooksLike view (if p then x else y) (if p then x' else y') := by
  by_cases hp : p
  · rw [if_pos hp, if_pos hp]
    exact hx
  · rw [if_neg hp, if_neg hp]
    exact hy

theorem LooksLike.bind_if {p : Prop} [Decidable p] {x : BatchAction σ Unit}
    {x' : BatchAction σ' Unit} {y : BatchAction σ α} {y' : BatchAction σ' α}
    (hx : LooksLike view x x') (hy : LooksLike view y y') :
    LooksLike view (if p then x >>= fun _ => y else y) (if p then x' >>= fun _ => y' else y') :=
  (hx.bind fun _ => hy).ite hy

theorem looksLike_call {action : σ → Except String α × σ} {action' : σ' → Except String α × σ'}
    (h : ∀ w, action' (view w) = ((action w).1, view (action w).2))
    (failure : String → UpdateError) :
    LooksLike view (call action failure) (call action' failure) := by
  intro b
  rw [run_call, run_call]
  have hb := h b.world
  unfold Batch.map
  simp only [hb]

end BatchAction

open BatchAction

namespace Updater

/-- The same schema, and through the view each call in the first world looks like the same call in
the second. -/
structure SeenAs (view : σ → σ') (u : Updater τ σ) (u' : Updater τ σ') : Prop where
  containment : u'.containment = u.containment
  embeddings : u'.embeddings = u.embeddings
  perform : ∀ (call : Call τ) (w : σ),
    u'.perform call (view w) = ((u.perform call w).1, view (u.perform call w).2)

variable {u : Updater τ σ} {u' : Updater τ σ'}

theorem SeenAs.exec (h : SeenAs view u u') (c : Change) (act : Act τ) :
    LooksLike view (u.exec c act) (u'.exec c act) := by
  cases act with
  | go s => exact looksLike_pure s
  | stop type reason => exact looksLike_throw _
  | ask s =>
    refine LooksLike.bind (looksLike_get_bind fun b => ?_) fun a => looksLike_pure (s a)
    have hanswer : (b.map view).answer = b.answer := rfl
    rw [hanswer]
    cases b.answer with
    | some a => exact looksLike_pure a
    | none =>
      refine (looksLike_call (h.perform (.get c.entityType c.id)) _).bind fun a => ?_
      exact .bind (looksLike_modify fun _ => rfl) fun _ => looksLike_pure a
  | look call failure s =>
    exact (looksLike_call (h.perform call) failure).bind fun a => looksLike_pure (s a)
  | write kind key call s =>
    refine (looksLike_call (h.perform call) _).bind fun _ => ?_
    exact .bind (looksLike_modify fun _ => rfl) fun _ => looksLike_pure s
  | warn w s => exact .bind (looksLike_modify fun _ => rfl) fun _ => looksLike_pure s

theorem SeenAs.advance (h : SeenAs view u u') (tx : τ) (all : List EntityType) (c : Change)
    (halt : Stage → Bool) (s : Stage) :
    LooksLike view (u.advance tx all c halt s) (u'.advance tx all c halt s) := by
  induction s using Updater.advance.induct halt with
  | case1 s hhalt =>
    rw [advance_halt hhalt, advance_halt hhalt]
    exact looksLike_pure s
  | case2 s hhalt ih =>
    rw [Updater.advance, Updater.advance, if_neg hhalt, if_neg hhalt]
    refine LooksLike.bind (looksLike_get_bind fun b => ?_) fun s' => ?_
    · rw [next_congr h.embeddings]
      exact h.exec c _
    · by_cases hs' : s'.Follows s
      · rw [if_pos hs', if_pos hs']
        exact ih s' hs'
      · rw [if_neg hs', if_neg hs']
        exact looksLike_pure s'

theorem SeenAs.applyToRoots (h : SeenAs view u u') (tx : τ) (all : List EntityType)
    (c : Change) (roots : List EntityType) :
    LooksLike view (u.applyToRoots tx all c roots) (u'.applyToRoots tx all c roots) := by
  rw [applyToRoots_course, applyToRoots_course]
  exact (h.advance tx all c _ _).bind fun _ => looksLike_pure ()

theorem SeenAs.applyToRoot (h : SeenAs view u u') (tx : τ) (all : List EntityType) (c : Change)
    (e : Embedding) :
    LooksLike view (u.applyToRoot tx all c) (u'.applyToRoot tx all c) := by
  rw [applyToRoot_course e [], applyToRoot_course e []]
  exact (h.advance tx all c _ _).bind fun _ => looksLike_pure ()

theorem SeenAs.owners (h : SeenAs view u u') (tx : τ) (c : Change) (e : Embedding) :
    LooksLike view (u.owners c e) (u'.owners c e) := by
  rw [owners_course tx [] [] c e, owners_course tx [] [] c e]
  exact (h.advance tx [] c _ _).bind fun s => looksLike_pure s.ids

theorem SeenAs.applyChange (h : SeenAs view u u') (tx : τ) (c : Change) :
    LooksLike view (u.applyChange tx c) (u'.applyChange tx c) := by
  cases hroots : u.containment.rootsFor c.entityType with
  | none =>
    rw [applyChange_of_none hroots, applyChange_of_none (h.containment ▸ hroots)]
    exact looksLike_throw _
  | some roots =>
    rw [applyChange_of_roots hroots, applyChange_of_roots (h.containment ▸ hroots)]
    exact .bind (looksLike_modify fun b => rfl) fun _ => h.applyToRoots tx roots c roots

theorem SeenAs.applyAll (h : SeenAs view u u') (tx : τ) (changes : List Change) :
    LooksLike view (u.applyAll tx changes) (u'.applyAll tx changes) := by
  induction changes with
  | nil => exact looksLike_get_bind fun b => looksLike_pure b.counts
  | cons c changes ih => exact (h.applyChange tx c).bind fun _ => ih

theorem SeenAs.apply (h : SeenAs view u u') (tx : τ) (changes : List Change) (w : σ) :
    u'.apply tx changes (view w) =
      ((u.apply tx changes w).1, (u.apply tx changes w).2.map view) :=
  h.applyAll tx changes (Batch.start w)

def traced (u : Updater τ σ) : Updater τ (Traced τ σ) :=
  ⟨u.containment, u.embeddings, Traced.store u.store, Traced.sink u.sink⟩

theorem traced_perform (u : Updater τ σ) (call : Call τ) :
    u.traced.perform call = Traced.note call (u.perform call) := by
  cases call <;> rfl

theorem logged_seenAs (u : Updater τ σ) : SeenAs Logged.world u.logged u where
  containment := rfl
  embeddings := rfl
  perform call w := by
    rw [logged_perform]
    rfl

/-- Without its answers a log is a trace. -/
theorem logged_seenAs_traced (u : Updater τ σ) :
    SeenAs (fun t : Logged τ σ => ⟨t.world, t.log.map Exchange.call⟩) u.logged u.traced where
  containment := rfl
  embeddings := rfl
  perform call w := by
    rw [logged_perform, traced_perform]
    unfold Logged.note Traced.note
    rw [List.map_append]
    rfl

theorem apply_eq_logged (u : Updater τ σ) (tx : τ) (changes : List Change) (w : σ) :
    u.apply tx changes w = ((u.logged.apply tx changes ⟨w, []⟩).1,
      (u.logged.apply tx changes ⟨w, []⟩).2.map Logged.world) :=
  u.logged_seenAs.apply tx changes ⟨w, []⟩

theorem traced_outcome (u : Updater τ σ) (tx : τ) (changes : List Change) (w : σ) :
    (u.traced.apply tx changes ⟨w, []⟩).1 = (u.logged.apply tx changes ⟨w, []⟩).1 :=
  congrArg Prod.fst (u.logged_seenAs_traced.apply tx changes ⟨w, []⟩)

theorem traced_calls (u : Updater τ σ) (tx : τ) (changes : List Change) (w : σ) :
    (u.traced.apply tx changes ⟨w, []⟩).2.world.calls = (u.log tx w changes).map Exchange.call := by
  have h := u.logged_seenAs_traced.apply tx changes ⟨w, []⟩
  exact congrArg (fun run => run.2.world.calls) h

/-- The updater in those worlds that have a property which every call keeps. -/
def restrict (u : Updater τ σ) (I : σ → Prop) (hI : ∀ call w, I w → I (u.perform call w).2) :
    Updater τ { w // I w } where
  containment := u.containment
  embeddings := u.embeddings
  store :=
    { get type id w := ((u.store.get type id w).1, ⟨_, hI (.get type id) w w.2⟩)
      getBatch type ids w := ((u.store.getBatch type ids w).1, ⟨_, hI (.getBatch type ids) w w.2⟩) }
  sink :=
    { index r tx w := ((u.sink.index r tx w).1, ⟨_, hI (.index r tx) w w.2⟩)
      update r tx w := ((u.sink.update r tx w).1, ⟨_, hI (.update r tx) w w.2⟩)
      delete type roots id tx w :=
        ((u.sink.delete type roots id tx w).1, ⟨_, hI (.delete type roots id tx) w w.2⟩)
      findRootIds root fields id w :=
        ((u.sink.findRootIds root fields id w).1, ⟨_, hI (.findRootIds root fields id) w w.2⟩) }

/-- What every call keeps, a batch keeps. -/
theorem apply_keeps (u : Updater τ σ) {I : σ → Prop}
    (hI : ∀ call w, I w → I (u.perform call w).2) (tx : τ) (changes : List Change) {w : σ}
    (hw : I w) : I (u.apply tx changes w).2.world := by
  have hseen : SeenAs Subtype.val (u.restrict I hI) u :=
    { containment := rfl
      embeddings := rfl
      perform := fun call w => by cases call <;> rfl }
  have hrun : u.apply tx changes w = _ := hseen.apply tx changes ⟨w, hw⟩
  rw [hrun]
  exact ((u.restrict I hI).apply tx changes ⟨w, hw⟩).2.world.2

/-- Each call changes at most the document that it writes, also one that fails. -/
def Confined (u : Updater τ σ) (docs : σ → Documents) : Prop :=
  ∀ call w key, (∀ kind, call.write? ≠ some (kind, key)) →
    (docs (u.perform call w).2).lookup key = (docs w).lookup key

theorem confined_documents (schema : Schema) (entities : Snapshot) (find : Lookup) :
    (Updater.ofSnapshot schema entities find : Updater τ Documents).Confined fun docs => docs := by
  intro call docs key hkey
  cases call with
  | get | getBatch | findRootIds => rfl
  | index r tx =>
    have hne : key ≠ r.key := fun h => hkey .index (by rw [h]; rfl)
    exact Finmap.lookup_insert_of_ne docs hne
  | update r tx =>
    have hne : key ≠ r.key := fun h => hkey .update (by rw [h]; rfl)
    exact Finmap.lookup_insert_of_ne docs hne
  | delete type roots id tx =>
    have hne : key ≠ (type, id) := fun h => hkey .delete (by rw [h]; rfl)
    exact Finmap.lookup_erase_ne hne

/-- A document that no call writes is left as it is. -/
theorem lookup_of_unwritten {u : Updater τ σ} {docs : σ → Documents} (h : u.Confined docs)
    {tx : τ} {changes : List Change} {w : σ} {key : DocumentKey}
    (hkey : ∀ x ∈ u.log tx w changes, ∀ kind, x.call.write? ≠ some (kind, key)) :
    (docs (u.apply tx changes w).2.world).lookup key = (docs w).lookup key := by
  rw [apply_eq_logged]
  refine u.logged.apply_keeps (I := fun t =>
    (∀ x ∈ t.log, ∀ kind, x.call.write? ≠ some (kind, key)) →
      (docs t.world).lookup key = (docs w).lookup key) ?_ tx changes (fun _ => rfl) hkey
  intro call t ht hlog
  rw [logged_perform] at hlog ⊢
  have hcall := hlog _ (List.mem_append_right t.log List.mem_cons_self)
  refine (h call t.world key hcall).trans (ht fun x hx => ?_)
  exact hlog x (List.mem_append_left _ hx)

end Updater
end SearchSync
