import SearchSync.Proofs.Sync.Stages
import SearchSync.Proofs.Text.Pieces

/-!
# The course of a change

The functions that apply a change go from stage to stage and carry out what is due. They are opened
here only. What they keep to is told by the acts: an invariant that each act takes from its stage to
the next one holds wherever one of the functions ends.
-/

namespace SearchSync.Updater

open BatchAction

variable {τ σ α β : Type} {u : Updater τ σ} {tx : τ} {all : List EntityType} {c : Change}

variable {halt : Stage → Bool}

theorem advance_halt {s : Stage} (h : halt s) : u.advance tx all c halt s = pure s := by
  rw [advance, if_pos h]

theorem advance_step {s : Stage} (h : halt s = false) (hs : s ≠ .serve []) :
    u.advance tx all c halt s = u.step tx all c s >>= u.advance tx all c halt := by
  rw [advance, if_neg (Bool.eq_false_iff.mp h)]
  simp only [step, bind_assoc]
  refine bind_congr fun b => exec_bind_congr ?_
  exact (due_follows (u.next_due tx all c b.written s) hs).mono fun s' hs' => if_pos hs'

theorem run_advance {s : Stage} (h : halt s = false) (hs : s ≠ .serve []) (b : Batch σ) :
    (u.advance tx all c halt s).run b =
      match (u.exec c (u.next tx all c b.written s)).run b with
      | (.ok s', b') => (u.advance tx all c halt s').run b'
      | (.error e, b') => (.error e, b') := by
  rw [advance_step h hs, run_bind, step, run_get_bind]
  rcases (u.exec c (u.next tx all c b.written s)).run b with ⟨_ | _, _⟩ <;> rfl

theorem get_bind_const (x : BatchAction σ α) : (get >>= fun _ => x) = x := rfl

/-- Updates those of the found documents of a root that the batch has not yet written. -/
def updateOwners (u : Updater τ σ) (tx : τ) (e : Embedding) (owners : List EntityId) :
    BatchAction σ Unit := do
  let batch ← get
  match firsts (owners.filter fun id => !batch.hasWritten e.root id) with
  | [] => return ()
  | ids =>
    let records ← BatchAction.call (u.store.getBatch e.root ids) (.store e.root (.batch ids))
    u.updateAll tx e.root records

theorem updateOwners_of_written (u : Updater τ σ) (tx : τ) {e : Embedding}
    {ids : List EntityId} {b : Batch σ} (h : ∀ id ∈ ids, b.hasWritten e.root id = true) :
    (u.updateOwners tx e ids).run b = (.ok (), b) := by
  have hnone : (ids.filter fun id => !b.hasWritten e.root id) = [] := by
    rw [List.filter_eq_nil_iff]
    intro id hid
    simp [h id hid]
  rw [updateOwners, run_get_bind, hnone]
  rfl

theorem propagate_eq (c : Change) (e : Embedding) :
    u.propagate tx c e = u.owners c e >>= u.updateOwners tx e := rfl

variable {e : Embedding} {rest : List EntityType}

theorem advance_settle (h : ∀ a, halt (.settle e a rest) = false) (a : Option Record) :
    u.advance tx all c halt (.settle e a rest) =
      (match a with
        | none => u.deleteDocument tx all c
        | some r => u.writeDocument tx (c.kind = .insert) c.entityType c.id r) >>= fun _ =>
        u.advance tx all c halt (.after c e rest) := by
  rw [advance_step (h a) (by simp), step]
  cases a with
  | none =>
    simp only [next, get_bind_const, exec, Change.key, deleteDocument, bind_assoc, pure_bind]
    rfl
  | some r =>
    simp only [next, get_bind_const, writeDocument, bind_assoc]
    by_cases hk : c.kind = .insert
    · simp only [hk, ↓reduceIte, exec, Change.key, bind_assoc, pure_bind, decide_true]
      rfl
    · simp only [hk, ↓reduceIte, exec, Change.key, bind_assoc, pure_bind, decide_false]
      rfl

theorem advance_own (hown : halt (.own e rest) = false) (h : ∀ a, halt (.settle e a rest) = false) :
    u.advance tx all c halt (.own e rest) =
      u.applyToRoot tx all c >>= fun _ => u.advance tx all c halt (.after c e rest) := by
  rw [advance_step hown (by simp), step, applyToRoot]
  by_cases hk : c.kind = .delete
  · simp only [next, hk, ↓reduceIte, get_bind_const, exec, pure_bind]
    exact advance_settle h none
  · simp only [next, hk, ↓reduceIte, bind_assoc]
    refine bind_congr fun b => ?_
    change u.exec c (if b.hasWritten c.entityType c.id then _ else _) >>= _ = _
    cases b.hasWritten c.entityType c.id with
    | true => rfl
    | false =>
      simp only [Bool.false_eq_true, ↓reduceIte, Bool.not_false, exec, bind_assoc, pure_bind]
      exact bind_congr fun a => advance_settle h a

/-- Finding the owners by the fields that hold the id of the changed entity. -/
def findOwners (u : Updater τ σ) (c : Change) (e : Embedding) :
    BatchAction σ (List EntityId) :=
  match e.idFields c.entityType with
  | [] => do
    modify fun b => { b with warnings := b.warnings ++ [⟨e.root, c.entityType, c.id⟩] }
    return []
  | fields =>
    BatchAction.call (u.sink.findRootIds e.root fields c.id) (.lookup e.root c.entityType c.id)

/-- Finding the owners once it is known what remains of the changed entity. -/
def ownersOf (u : Updater τ σ) (c : Change) (e : Embedding) (record : Option Record) :
    BatchAction σ (List EntityId) :=
  match record, e.backReference? c.entityType with
  | some r, some property =>
    match r.referenceIds? property e.rootIdProperty e.rootIdType with
    | some ids => return ids
    | none => throw (.unresolved c.entityType .unreadableReference)
  | _, _ => u.findOwners c e

theorem owners_eq (u : Updater τ σ) (c : Change) (e : Embedding) :
    u.owners c e = (if c.kind = .delete then pure none else u.record c) >>= u.ownersOf c e := by
  unfold owners
  by_cases hk : c.kind = .delete
  · simp only [hk, ↓reduceIte]
    rfl
  · simp only [hk, ↓reduceIte]
    rfl

theorem advance_search (h : halt (.search e rest) = false) :
    u.advance tx all c halt (.search e rest) =
      u.findOwners c e >>= fun ids => u.advance tx all c halt (.found e ids rest) := by
  rw [advance_step h (by simp), step, findOwners]
  simp only [next, get_bind_const]
  cases e.idFields c.entityType with
  | nil => rfl
  | cons field fields =>
    simp only [exec, bind_assoc, pure_bind]
    rfl

theorem advance_refer (hsearch : halt (.search e rest) = false) {a : Option Record}
    (h : halt (.refer e a rest) = false) :
    u.advance tx all c halt (.refer e a rest) =
      u.ownersOf c e a >>= fun ids => u.advance tx all c halt (.found e ids rest) := by
  rw [advance_step h (by simp), step]
  cases a with
  | none => exact advance_search hsearch
  | some r =>
    cases hproperty : e.backReference? c.entityType with
    | none =>
      simp only [next, ownersOf, hproperty]
      exact advance_search hsearch
    | some property =>
      simp only [next, ownersOf, hproperty]
      cases r.referenceIds? property e.rootIdProperty e.rootIdType <;> rfl

theorem advance_turn (hturn : halt (.turn e rest) = false)
    (hrefer : ∀ a, halt (.refer e a rest) = false) (hsearch : halt (.search e rest) = false) :
    u.advance tx all c halt (.turn e rest) =
      u.owners c e >>= fun ids => u.advance tx all c halt (.found e ids rest) := by
  rw [advance_step hturn (by simp), step, owners_eq]
  simp only [next, bind_assoc]
  by_cases hk : c.kind = .delete
  · simp only [hk, ↓reduceIte, get_bind_const, exec, pure_bind]
    exact advance_refer hsearch (hrefer none)
  · simp only [hk, ↓reduceIte, get_bind_const, exec, bind_assoc, pure_bind]
    exact bind_congr fun a => advance_refer hsearch (hrefer a)

theorem advance_load (h : ∀ records, halt (.load e records rest) = false) (records : List Record) :
    u.advance tx all c halt (.load e records rest) =
      u.updateAll tx e.root records >>= fun _ => u.advance tx all c halt (.serve rest) := by
  induction records with
  | nil =>
    rw [advance_step (h _) (by simp)]
    rfl
  | cons r records ih =>
    rw [advance_step (h _) (by simp), step, updateAll, bind_assoc, bind_assoc]
    refine bind_congr fun b => ?_
    change u.exec c (if b.hasWritten e.root r.id then _ else _) >>= _ = _
    cases b.hasWritten e.root r.id with
    | true => exact ih
    | false =>
      simp only [Bool.false_eq_true, ↓reduceIte, Bool.not_false, exec, writeDocument, bind_assoc,
        pure_bind, ih]
      rfl

theorem advance_found (hfound : ∀ ids, halt (.found e ids rest) = false)
    (hload : ∀ records, halt (.load e records rest) = false) (ids : List EntityId) :
    u.advance tx all c halt (.found e ids rest) =
      u.updateOwners tx e ids >>= fun _ => u.advance tx all c halt (.serve rest) := by
  rw [advance_step (hfound ids) (by simp), step, updateOwners, bind_assoc, bind_assoc]
  refine bind_congr fun b => ?_
  change u.exec c (match firsts (ids.filter fun id => !b.hasWritten e.root id) with
    | [] => _ | ids => _) >>= _ = _
  cases firsts (ids.filter fun id => !b.hasWritten e.root id) with
  | nil => rfl
  | cons id ids =>
    simp only [exec, bind_assoc, pure_bind]
    exact bind_congr (advance_load hload)

/-- Roots are served one after the other, as long as there is no halt before the last of them. -/
theorem advance_serve (h : ∀ s, rest <:+ s.rest → s ≠ .serve rest → halt s = false)
    (roots : List EntityType) :
    u.advance tx all c halt (.serve (roots ++ rest)) =
      u.applyToRoots tx all c roots >>= fun _ => u.advance tx all c halt (.serve rest) := by
  induction roots with
  | nil => rfl
  | cons root roots ih =>
    have hgo {s : Stage} (hrest : s.rest = roots ++ rest) (hserve : s.isServe = false) :
        halt s = false := by
      refine h s (hrest ▸ List.suffix_append roots rest) ?_
      rintro rfl
      cases hserve
    have hturn (e : Embedding) : u.advance tx all c halt (.turn e (roots ++ rest)) =
        u.propagate tx c e >>= fun _ => u.applyToRoots tx all c roots >>= fun _ =>
          u.advance tx all c halt (.serve rest) := by
      rw [advance_turn (hgo rfl rfl) (fun _ => hgo rfl rfl) (hgo rfl rfl), propagate_eq, bind_assoc]
      refine bind_congr fun ids => ?_
      rw [advance_found (fun _ => hgo rfl rfl) (fun _ => hgo rfl rfl), ih]
    have hhalt : halt (.serve (root :: (roots ++ rest))) = false := by
      refine h _ (List.suffix_append (root :: roots) rest) fun hsame => ?_
      have hlength := congrArg List.length (Stage.serve.inj hsame)
      simp only [List.length_cons, List.length_append] at hlength
      omega
    rw [List.cons_append, advance_step hhalt (by simp), step, applyToRoots]
    simp only [next, get_bind_const]
    cases u.embeddings.lookup root with
    | none => rfl
    | some e =>
      by_cases hroot : root = c.entityType
      · simp only [hroot, ↓reduceIte, exec, pure_bind]
        rw [advance_own (hgo rfl rfl) fun _ => hgo rfl rfl, Stage.after]
        simp only [ne_eq, not_true_eq_false, decide_false, Bool.false_or, bind_assoc]
        by_cases hembeds : e.embeds c.entityType = true
        · simp only [hembeds, ↓reduceIte, bind_assoc, hturn]
        · simp only [hembeds, ↓reduceIte, ih, Bool.false_eq_true]
      · simp only [hroot, ↓reduceIte, exec, pure_bind, ne_eq, not_false_eq_true, decide_true,
          Bool.true_or, bind_assoc, hturn]

theorem advance_roots (roots : List EntityType) :
    u.advance tx all c Stage.isEnd (.serve roots) =
      u.applyToRoots tx all c roots >>= fun _ => pure (.serve []) := by
  have hgo (s : Stage) (_ : [] <:+ s.rest) (hs : s ≠ .serve []) : s.isEnd = false :=
    Bool.eq_false_iff.mpr fun hend => hs (Stage.isEnd_iff.mp hend)
  have hserve : u.advance tx all c Stage.isEnd (.serve (roots ++ [])) = _ :=
    advance_serve hgo roots
  have hend : u.advance tx all c Stage.isEnd (.serve []) = pure (.serve []) := advance_halt rfl
  rwa [List.append_nil, hend] at hserve

theorem applyToRoots_course (roots : List EntityType) : u.applyToRoots tx all c roots =
    u.advance tx all c Stage.isEnd (.serve roots) >>= fun _ => pure () := by
  rw [advance_roots, bind_assoc]
  exact (bind_pure _).symm

theorem applyToRoot_course (e : Embedding) (rest : List EntityType) : u.applyToRoot tx all c =
    u.advance tx all c Stage.isAfter (.own e rest) >>= fun _ => pure () := by
  rw [advance_own rfl fun _ => rfl, advance_halt (Stage.isAfter_after c e rest), bind_assoc]
  exact (bind_pure _).symm

theorem owners_course (tx : τ) (all rest : List EntityType) (c : Change) (e : Embedding) :
    u.owners c e = u.advance tx all c Stage.isFound (.turn e rest) >>= fun s => pure s.ids := by
  rw [advance_turn rfl (fun _ => rfl) rfl, bind_assoc]
  refine (bind_pure _).symm.trans (bind_congr fun ids => ?_)
  rw [advance_halt rfl]
  rfl

theorem applyChange_of_roots {roots : List EntityType}
    (hroots : u.containment.rootsFor c.entityType = some roots) : u.applyChange tx c =
      modify (fun b => { b with answer := none }) >>= fun _ => u.applyToRoots tx roots c roots := by
  simp only [applyChange, hroots]

theorem applyChange_of_none (hroots : u.containment.rootsFor c.entityType = none) :
    u.applyChange tx c = throw (.unresolved c.entityType .notContained) := by
  simp only [applyChange, hroots]

theorem applyToRoots_append (all : List EntityType) (c : Change) (before rest : List EntityType) :
    u.applyToRoots tx all c (before ++ rest) =
      u.applyToRoots tx all c before >>= fun _ => u.applyToRoots tx all c rest := by
  have hgo (s : Stage) (hrest : rest <:+ s.rest) (hs : s ≠ .serve rest) : s.isEnd = false := by
    refine Bool.eq_false_iff.mpr fun hend => hs ?_
    rw [Stage.isEnd_iff.mp hend] at hrest ⊢
    rw [List.suffix_nil.mp hrest]
  rw [applyToRoots_course, advance_serve hgo, bind_assoc, ← applyToRoots_course]

/-- What a change does before the turn of a root: it serves the roots before it, and the root itself
if that is what changed. -/
def lead (u : Updater τ σ) (tx : τ) (c : Change) (root : EntityType) : BatchAction σ Unit := do
  let roots := (u.containment.rootsFor c.entityType).getD []
  modify fun b => { b with answer := none }
  u.applyToRoots tx roots c (roots.takeWhile (· ≠ root))
  if root = c.entityType then
    u.applyToRoot tx roots c

/-- What a change does after the turn of a root. -/
def onward (u : Updater τ σ) (tx : τ) (c : Change) (root : EntityType) : BatchAction σ Unit :=
  let roots := (u.containment.rootsFor c.entityType).getD []
  u.applyToRoots tx roots c (roots.dropWhile (· ≠ root)).tail

theorem lead_eq {root : EntityType} {before : List EntityType}
    (hroots : u.containment.rootsFor c.entityType = some (before ++ root :: rest))
    (hnot : root ∉ before) :
    u.lead tx c root = modify (fun b => { b with answer := none }) >>= fun _ =>
      u.applyToRoots tx (before ++ root :: rest) c before >>= fun _ =>
        if root = c.entityType then u.applyToRoot tx (before ++ root :: rest) c else pure () := by
  simp only [lead, hroots, Option.getD_some, takeWhile_ne hnot]

theorem onward_eq {root : EntityType} {before : List EntityType}
    (hroots : u.containment.rootsFor c.entityType = some (before ++ root :: rest))
    (hnot : root ∉ before) :
    u.onward tx c root = u.applyToRoots tx (before ++ root :: rest) c rest := by
  simp only [onward, hroots, Option.getD_some, dropWhile_ne hnot, List.tail_cons]

theorem advance_before {before : List EntityType} (hembeds : e.embeds c.entityType = true)
    (he : u.embeddings.lookup e.root = some e) :
    u.advance tx all c (Stage.isTurn rest) (.serve (before ++ e.root :: rest)) =
      u.applyToRoots tx all c before >>= fun _ =>
        if e.root = c.entityType then u.applyToRoot tx all c >>= fun _ => pure (.turn e rest)
        else pure (.turn e rest) := by
  have hgo (s : Stage) (hrest : e.root :: rest <:+ s.rest) (_ : s ≠ .serve (e.root :: rest)) :
      s.isTurn rest = false := by
    cases s with
    | turn e' rest' =>
      refine decide_eq_false fun hsame => ?_
      have hlength : rest.length + 1 ≤ rest'.length := hrest.length_le
      rw [hsame] at hlength
      omega
    | _ => rfl
  have hturn : u.advance tx all c (Stage.isTurn rest) (.turn e rest) = pure (.turn e rest) :=
    advance_halt (decide_eq_true rfl)
  rw [advance_serve hgo, advance_step rfl (by simp), step]
  simp only [next, he, get_bind_const]
  by_cases hown : e.root = c.entityType
  · have hafter : Stage.after c e rest = .turn e rest := if_pos hembeds
    rw [if_pos hown, if_pos hown, exec, pure_bind, advance_own rfl fun _ => rfl, hafter, hturn]
  · rw [if_neg hown, if_neg hown, exec, pure_bind, hturn]

/-- A change comes to the turn of each root that embeds its entity. -/
theorem applyChange_turn (u : Updater τ σ) (tx : τ) {c : Change} {e : Embedding}
    {roots : List EntityType}
    (hroots : u.containment.rootsFor c.entityType = some roots) (hroot : e.root ∈ roots)
    (he : u.embeddings.lookup e.root = some e) (hembeds : e.embeds c.entityType = true) :
    u.applyChange tx c = u.lead tx c e.root >>= fun _ => u.propagate tx c e >>= fun _ =>
      u.onward tx c e.root := by
  obtain ⟨before, rest, rfl, hnot⟩ := List.eq_append_cons_of_mem hroot
  have hturn : (e.root ≠ c.entityType || e.embeds c.entityType) = true := by
    rw [hembeds, Bool.or_true]
  rw [applyChange_of_roots hroots, lead_eq hroots hnot, onward_eq hroots hnot]
  simp only [applyToRoots_append, bind_assoc]
  rw [applyToRoots]
  simp only [he, hturn, ↓reduceIte]
  by_cases hown : e.root = c.entityType
  · simp only [hown, ↓reduceIte]
  · simp only [hown, ↓reduceIte, pure_bind]

variable {inv : Stage → Batch σ → Prop} {failed : UpdateError → Batch σ → Prop} {b : Batch σ}

/-- Every act on the way leads from a stage within the invariant to the next one, or fails as
told. -/
def Keeps (u : Updater τ σ) (tx : τ) (all : List EntityType) (c : Change) (halt : Stage → Bool)
    (inv : Stage → Batch σ → Prop) (failed : UpdateError → Batch σ → Prop) : Prop :=
  ∀ ⦃s b act⦄, halt s = false → inv s b → Due u tx all c b.written s act →
    (u.exec c act).Ensures b inv failed

theorem Keeps.advance (h : u.Keeps tx all c halt inv failed) {s : Stage} (hb : inv s b) :
    (u.advance tx all c halt s).Ensures b inv failed := by
  induction s using advance.induct halt generalizing b with
  | case1 s hhalt =>
    rw [advance_halt hhalt]
    exact hb
  | case2 s hhalt ih =>
    rw [Updater.advance, if_neg hhalt, ensures_bind]
    refine (step_ensures fun act hact => h (Bool.eq_false_iff.mpr hhalt) hb hact).mono ?_
      fun _ _ => id
    intro s' b' hb'
    split
    · exact ih s' ‹_› hb'
    · exact hb'

theorem Keeps.applyToRoots (h : u.Keeps tx all c Stage.isEnd inv failed) {roots : List EntityType}
    (hb : inv (.serve roots) b) :
    (u.applyToRoots tx all c roots).Ensures b (fun _ b' => inv (.serve []) b') failed := by
  have hrun := h.advance hb
  rwa [advance_roots, ensures_bind] at hrun

theorem Keeps.applyChange {roots : List EntityType} (h : u.Keeps tx roots c Stage.isEnd inv failed)
    (hroots : u.containment.rootsFor c.entityType = some roots)
    (hb : inv (.serve roots) { b with answer := none }) :
    (u.applyChange tx c).Ensures b (fun _ b' => inv (.serve []) b') failed := by
  rw [applyChange_of_roots hroots, ensures_bind, ensures_modify]
  exact h.applyToRoots hb

theorem Keeps.lead {before : List EntityType}
    (h : u.Keeps tx (before ++ e.root :: rest) c (Stage.isTurn rest) inv failed)
    (hroots : u.containment.rootsFor c.entityType = some (before ++ e.root :: rest))
    (hnot : e.root ∉ before) (he : u.embeddings.lookup e.root = some e)
    (hembeds : e.embeds c.entityType = true)
    (hb : inv (.serve (before ++ e.root :: rest)) { b with answer := none }) :
    (u.lead tx c e.root).Ensures b (fun _ b' => inv (.turn e rest) b') failed := by
  have hrun := h.advance hb
  rw [advance_before hembeds he, ensures_bind] at hrun
  rw [lead_eq hroots hnot, ensures_bind, ensures_modify, ensures_bind]
  refine hrun.mono ?_ fun _ _ => id
  intro _ b₁ hb₁
  split
  · rwa [if_pos ‹_›, ensures_bind] at hb₁
  · rwa [if_neg ‹_›] at hb₁

theorem Keeps.applyToRoot (h : u.Keeps tx all c Stage.isAfter inv failed)
    (hb : inv (.own e rest) b) :
    (u.applyToRoot tx all c).Ensures b (fun _ b' => inv (.after c e rest) b') failed := by
  have hrun := h.advance hb
  rwa [advance_own rfl fun _ => rfl, ensures_bind,
    advance_halt (Stage.isAfter_after c e rest)] at hrun

theorem Keeps.owners (h : u.Keeps tx all c Stage.isFound inv failed) (hb : inv (.turn e rest) b) :
    (u.owners c e).Ensures b (fun ids b' => inv (.found e ids rest) b') failed := by
  have hrun := h.advance hb
  rw [advance_turn rfl (fun _ => rfl) rfl, ensures_bind] at hrun
  exact hrun.mono (fun ids b' hb' => by rwa [advance_halt rfl] at hb') fun _ _ => id

theorem Keeps.updateOwners (h : u.Keeps tx all c Stage.isServe inv failed) {ids : List EntityId}
    (hb : inv (.found e ids rest) b) :
    (u.updateOwners tx e ids).Ensures b (fun _ b' => inv (.serve rest) b') failed := by
  have hrun := h.advance hb
  rwa [advance_found (fun _ => rfl) fun _ => rfl, ensures_bind, advance_halt rfl] at hrun

theorem Keeps.propagate (h : u.Keeps tx all c Stage.isServe inv failed)
    (hb : inv (.turn e rest) b) :
    (u.propagate tx c e).Ensures b (fun _ b' => inv (.serve rest) b') failed := by
  have hrun := h.advance hb
  rw [advance_turn rfl (fun _ => rfl) rfl, ensures_bind] at hrun
  rw [propagate_eq, ensures_bind]
  refine hrun.mono (fun ids b' hb' => ?_) fun _ _ => id
  rwa [advance_found (fun _ => rfl) fun _ => rfl, ensures_bind, advance_halt rfl] at hb'

theorem applyAll_append (u : Updater τ σ) (tx : τ) (earlier rest : List Change) :
    u.applyAll tx (earlier ++ rest) = u.applyAll tx earlier >>= fun _ => u.applyAll tx rest := by
  induction earlier with
  | nil => rfl
  | cons c earlier ih =>
    rw [List.cons_append, applyAll, applyAll, bind_assoc]
    exact bind_congr fun _ => ih

/-- The log only grows. -/
theorem growing_keeps (u : Updater τ σ) (earlier : Log τ) {halt : Stage → Bool} :
    u.logged.Keeps tx all c halt (fun _ b => earlier <+: b.world.log)
      (fun _ b => earlier <+: b.world.log) := by
  intro s b act _ h _
  have hcall {call : Call τ} (a : Except String call.Answer) :
      earlier <+: b.world.log ++ [⟨call, a⟩] := h.trans (List.prefix_append _ _)
  cases act with
  | go | stop | warn => exact h
  | ask next =>
    cases ha : b.answer with
    | some a =>
      rw [exec_ask_known ha]
      exact h
    | none =>
      rw [exec_ask_unknown ha]
      exact ensures_logged_call _ (fun _ _ _ => hcall _) fun _ _ => hcall _
  | look call failure next =>
    rw [exec_look]
    exact ensures_logged_call _ (fun _ _ _ => hcall _) fun _ _ => hcall _
  | write kind key call next =>
    rw [exec_write]
    exact ensures_logged_call _ (fun _ _ _ => hcall _) fun _ _ => hcall _

theorem applyAll_extends (u : Updater τ σ) (tx : τ) (changes : List Change)
    (b : Batch (Logged τ σ)) :
    (u.logged.applyAll tx changes).Ensures b (fun _ b' => b.world.log <+: b'.world.log)
      (fun _ b' => b.world.log <+: b'.world.log) := by
  induction changes generalizing b with
  | nil => exact List.prefix_rfl
  | cons c changes ih =>
    have hchange : (u.logged.applyChange tx c).Ensures b
        (fun _ b' => b.world.log <+: b'.world.log) (fun _ b' => b.world.log <+: b'.world.log) := by
      cases hroots : u.logged.containment.rootsFor c.entityType with
      | none =>
        rw [applyChange_of_none hroots]
        exact List.prefix_rfl
      | some roots => exact (u.growing_keeps b.world.log).applyChange hroots List.prefix_rfl
    rw [applyAll, ensures_bind]
    refine hchange.mono (fun _ b₁ h₁ => ?_) fun _ _ => id
    exact (ih b₁).mono (fun _ _ => h₁.trans) fun _ _ => h₁.trans

/-- A batch starts with the calls of any batch that its changes start with. -/
theorem log_prefix (u : Updater τ σ) (tx : τ) (w : σ) (earlier later : List Change) :
    u.log tx w earlier <+: u.log tx w (earlier ++ later) := by
  unfold Updater.log Updater.apply
  rw [applyAll_append, run_bind]
  rcases (u.logged.applyAll tx earlier).run (Batch.start ⟨w, []⟩) with ⟨err | counts, b⟩
  · exact List.prefix_rfl
  · exact (u.applyAll_extends tx later b).run

/-- The calls of one change more are told by those of the change alone, and are none if the batch
has stopped before. -/
theorem log_concat_of (u : Updater τ σ) (tx : τ) (w : σ) {earlier : List Change} {c : Change}
    {P : Log τ → Prop} (hnil : P [])
    (hchange : ∀ counts b,
      (u.logged.applyAll tx earlier).run (Batch.start ⟨w, []⟩) = (.ok counts, b) →
      (u.logged.applyChange tx c).Ensures b
        (fun _ b' => ∃ part, b'.world.log = b.world.log ++ part ∧ P part)
        (fun _ b' => ∃ part, b'.world.log = b.world.log ++ part ∧ P part)) :
    ∃ part, u.log tx w (earlier ++ [c]) = u.log tx w earlier ++ part ∧ P part := by
  unfold Updater.log Updater.apply
  rw [applyAll_append, run_bind]
  rcases hrun : (u.logged.applyAll tx earlier).run (Batch.start ⟨w, []⟩) with ⟨err | counts, b⟩
  · exact ⟨[], (List.append_nil _).symm, hnil⟩
  · obtain ⟨part, hlog, hpart⟩ := (hchange counts b hrun).run
    refine ⟨part, ?_, hpart⟩
    dsimp only
    rw [applyAll, run_bind, ← hlog]
    rcases (u.logged.applyChange tx c).run b with ⟨err | _, b'⟩ <;> rfl

end SearchSync.Updater
