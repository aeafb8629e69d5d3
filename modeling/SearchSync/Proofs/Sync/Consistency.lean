import SearchSync.Proofs.Sync.Course
import SearchSync.Proofs.Sync.Resolution

/-!
# One state of the entity for each change

The store is asked about the entity of a change when its state first matters, and the answer is kept
for all roots. So a change is applied as if that answer had been given in advance, even if the store
would answer differently the next time. For the records of a root the store is asked at most once.
-/

namespace SearchSync

open BatchAction

variable {τ σ α β : Type}

/-- The updater once the state of the changed entity is known. It finds the state without a call. -/
def Updater.knowing (u : Updater τ σ) (entity : Option Record) : Updater τ σ :=
  { u with store := { u.store with get := fun _ _ w => (.ok entity, w) } }

/-- Where the answer is known, the first action is the second for that answer, and keeps it. -/
def Agrees (x : BatchAction σ α) (x' : Option Record → BatchAction σ α) : Prop :=
  ∀ b entity, b.answer = some entity →
    x.run b = (x' entity).run b ∧ (x.run b).2.answer = some entity

/-- How the first action goes where the answer is not known: nothing happens that depends on it, or
the store is asked before all else, and the rest is the second action for the answer. -/
inductive Faces (u : Updater τ σ) (c : Change) (x : BatchAction σ α)
    (x' : Option Record → BatchAction σ α) (b : Batch σ) : Prop
  | idle {r : Except UpdateError α} (hx : x.run b = (r, b))
      (hx' : ∀ entity w, (x' entity).run { b with world := w } = (r, { b with world := w })) :
      Faces u c x x' b
  | asked {entity : Option Record} {w : σ}
      (hget : u.store.get c.entityType c.id b.world = (.ok entity, w))
      (hx : x.run b = (x' entity).run { b with world := w }) : Faces u c x x' b
  | refused {cause : String} {w : σ}
      (hget : u.store.get c.entityType c.id b.world = (.error cause, w))
      (hx : x.run b = (.error (.store c.entityType (.one c.id) cause), { b with world := w })) :
      Faces u c x x' b

section Runs

variable {u : Updater τ σ} {c : Change} {b : Batch σ} {tx : τ} {all : List EntityType} {s : Stage}

theorem knowing_next (entity : Option Record) : (u.knowing entity).next = u.next :=
  Updater.next_congr rfl

theorem knowing_perform {act : Act τ} {written : List DocumentKey}
    (hact : Due u tx all c written s act) (entity : Option Record) {call : Call τ}
    (hcall : act.call? = some call) : (u.knowing entity).perform call = u.perform call := by
  cases hact <;> cases hcall <;> rfl

theorem exec_agrees {act : Act τ} {written : List DocumentKey}
    (hact : Due u tx all c written s act) :
    Agrees (u.exec c act) fun entity => (u.knowing entity).exec c act := by
  intro b entity hb
  cases act with
  | go | stop | warn => exact ⟨rfl, hb⟩
  | ask s =>
    simp only [Updater.exec, run_bind, Updater.run_record_known hb]
    exact ⟨trivial, hb⟩
  | look call failure s =>
    simp only [Updater.exec, knowing_perform hact entity rfl, run_bind, run_call]
    refine ⟨trivial, ?_⟩
    rcases u.perform call b.world with ⟨cause | a, w⟩ <;> exact hb
  | write kind key call s =>
    simp only [Updater.exec, knowing_perform hact entity rfl, run_bind, run_call]
    refine ⟨trivial, ?_⟩
    rcases u.perform call b.world with ⟨cause | a, w⟩ <;> exact hb

theorem advance_agrees (s : Stage) : Agrees (u.advance tx all c Stage.isEnd s) fun entity =>
    (u.knowing entity).advance tx all c Stage.isEnd s := by
  induction s using Updater.advance.induct Stage.isEnd with
  | case1 s hend =>
    simp only [Updater.advance_halt hend]
    exact fun b entity hb => ⟨rfl, hb⟩
  | case2 s hend ih =>
    intro b entity hb
    have hgo := Bool.eq_false_iff.mpr hend
    have hs := mt Stage.isEnd_iff.mpr hend
    have hdue := u.next_due tx all c b.written s
    obtain ⟨hrun, hkept⟩ := exec_agrees hdue b entity hb
    simp only [Updater.run_advance hgo hs, knowing_next, ← hrun]
    rcases hstep : (u.exec c (u.next tx all c b.written s)).run b with ⟨e | s', b'⟩
    · rw [hstep] at hkept
      exact ⟨rfl, hkept⟩
    · rw [hstep] at hkept
      have hs' := (Updater.exec_leads (Updater.due_follows hdue hs) b).of_run hstep
      exact ih s' hs' b' entity hkept

/-- Up to the first question a change depends on what was written only. -/
def Stage.isEarly : Stage → Prop
  | .serve _ | .own _ _ | .turn _ _ => True
  | _ => False

theorem Stage.isEarly_after (c : Change) (e : Embedding) (rest : List EntityType) :
    (after c e rest).isEarly := by
  unfold after
  split <;> trivial

/-- An answer that is not known is asked for before any other call. -/
theorem advance_faces (hkind : c.kind ≠ .delete) {s : Stage} (hearly : s.isEarly)
    (hb : b.answer = none) :
    Faces u c (u.advance tx all c Stage.isEnd s)
      (fun entity => (u.knowing entity).advance tx all c Stage.isEnd s) b := by
  induction s using Updater.advance.induct Stage.isEnd with
  | case1 s hend =>
    simp only [Updater.advance_halt hend]
    exact .idle rfl fun _ _ => rfl
  | case2 s hend ih =>
    have hgo := Bool.eq_false_iff.mpr hend
    have hs := mt Stage.isEnd_iff.mpr hend
    have hdue := u.next_due tx all c b.written s
    have hrun (entity : Option Record) (w : σ) : ((u.knowing entity).advance tx all c Stage.isEnd
        s).run { b with world := w } = _ := Updater.run_advance hgo hs _
    simp only [knowing_next] at hrun
    have hstep : (u.advance tx all c Stage.isEnd s).run b = _ := Updater.run_advance hgo hs b
    have hfollows := Updater.due_follows hdue hs
    generalize u.next tx all c b.written s = act at hdue hfollows hstep hrun
    have hpass {s' : Stage} (hact : act = .go s') (hs' : s'.isEarly) :
        Faces u c (u.advance tx all c Stage.isEnd s)
          (fun entity => (u.knowing entity).advance tx all c Stage.isEnd s) b := by
      subst hact
      cases ih s' hfollows hs' with
      | idle hx hx' =>
        exact .idle (hstep.trans hx) fun entity w => (hrun entity w).trans (hx' entity w)
      | asked hget hx => exact .asked hget (hstep.trans (hx.trans (hrun _ _).symm))
      | refused hget hx => exact .refused hget (hstep.trans hx)
    have hask {next : Option Record → Stage} (hact : act = .ask next) :
        Faces u c (u.advance tx all c Stage.isEnd s)
          (fun entity => (u.knowing entity).advance tx all c Stage.isEnd s) b := by
      subst hact
      simp only [Updater.exec, run_bind, Updater.run_record_unknown hb] at hstep hrun
      rcases hget : u.store.get c.entityType c.id b.world with ⟨cause | entity, w⟩
      · rw [hget] at hstep
        exact .refused hget hstep
      · have hknown : ((u.knowing entity).record c).run { b with world := w } =
            (.ok entity, { b with world := w, answer := some entity }) :=
          Updater.run_record_unknown hb
        have hrest := hrun entity w
        rw [hknown] at hrest
        rw [hget] at hstep
        refine .asked hget (hstep.trans ?_)
        exact (advance_agrees (next entity) _ entity rfl).1.trans hrest.symm
    cases hdue with
    | done => exact absurd rfl hs
    | unknown => exact .idle hstep hrun
    | own | other => exact hpass rfl trivial
    | settled => exact hpass rfl (Stage.isEarly_after c _ _)
    | unsettled | there => exact hask rfl
    | removed hdelete | gone hdelete => exact absurd hdelete hkind
    | _ => exact hearly.elim

theorem knowing_advance (hkind : c.kind = .delete) (entity : Option Record) (s : Stage) :
    (u.knowing entity).advance tx all c Stage.isEnd s = u.advance tx all c Stage.isEnd s := by
  induction s using Updater.advance.induct Stage.isEnd with
  | case1 s hend => rw [Updater.advance_halt hend, Updater.advance_halt hend]
  | case2 s hend ih =>
    rw [Updater.advance, Updater.advance, if_neg hend, if_neg hend, Updater.step, Updater.step,
      knowing_next]
    congr 1
    · refine bind_congr fun b => ?_
      have hdue := u.next_due tx all c b.written s
      generalize u.next tx all c b.written s = act at hdue
      cases act with
      | go | stop | warn => rfl
      | ask =>
        cases hdue with
        | unsettled hne | there hne => exact absurd hkind hne
      | look call | write _ _ call => simp only [Updater.exec, knowing_perform hdue entity rfl]
    · funext s'
      split
      · exact ih s' ‹_›
      · rfl

end Runs

/-- How a change is applied: without asking, and then the entity does not matter, or after one
question about it, and then for the answer, unless there is none. -/
inductive Updater.LooksOnceAt (u : Updater τ σ) (tx : τ) (c : Change) (b : Batch σ) : Prop
  | unasked (run : ∀ entity,
      (u.applyChange tx c).run b = ((u.knowing entity).applyChange tx c).run b) :
      LooksOnceAt u tx c b
  | asked {entity : Option Record} {w : σ} (kind : c.kind ≠ .delete)
      (get : u.store.get c.entityType c.id b.world = (.ok entity, w))
      (run : (u.applyChange tx c).run b =
        ((u.knowing entity).applyChange tx c).run { b with world := w }) : LooksOnceAt u tx c b
  | refused {cause : String} {w : σ} (kind : c.kind ≠ .delete)
      (get : u.store.get c.entityType c.id b.world = (.error cause, w))
      (run : (u.applyChange tx c).run b =
        (.error (.store c.entityType (.one c.id) cause), { b with world := w, answer := none })) :
      LooksOnceAt u tx c b

theorem applyChange_looksOnce (u : Updater τ σ) (tx : τ) (c : Change) (b : Batch σ) :
    u.LooksOnceAt tx c b := by
  have hcontainment (entity : Option Record) :
      (u.knowing entity).containment = u.containment := rfl
  cases hroots : u.containment.rootsFor c.entityType with
  | none =>
    refine .unasked fun entity => ?_
    rw [Updater.applyChange_of_none hroots,
      Updater.applyChange_of_none (u := u.knowing entity) hroots]
  | some roots =>
    have hrun (v : Updater τ σ) (hv : v.containment = u.containment) (b : Batch σ) :
        (v.applyChange tx c).run b = ((v.advance tx roots c Stage.isEnd (.serve roots)) >>= fun _ =>
          pure ()).run { b with answer := none } := by
      rw [Updater.applyChange_of_roots (hv ▸ hroots), Updater.applyToRoots_course]
      rfl
    by_cases hkind : c.kind = .delete
    · refine .unasked fun entity => ?_
      rw [hrun u rfl, hrun _ (hcontainment entity), knowing_advance hkind]
    · have hfaces : Faces u c (u.advance tx roots c Stage.isEnd (.serve roots))
          (fun entity => (u.knowing entity).advance tx roots c Stage.isEnd (.serve roots))
          { b with answer := none } := advance_faces hkind trivial rfl
      cases hfaces with
      | idle h h' =>
        refine .unasked fun entity => ?_
        rw [hrun u rfl, hrun _ (hcontainment entity), run_bind, run_bind, h, h' entity b.world]
      | @asked entity w hget h =>
        refine .asked hkind hget ?_
        rw [hrun u rfl, hrun _ (hcontainment entity), run_bind, run_bind, h]
      | refused hget h =>
        refine .refused hkind hget ?_
        rw [hrun u rfl, run_bind, h]

/-- The entity that a call asks the state of. -/
def Call.looksAt? : Call τ → Option DocumentKey
  | .get type id => some (type, id)
  | _ => none

def Call.fetches? : Call τ → Option EntityType
  | .getBatch root _ => some root
  | _ => none

namespace Log

def looks (log : Log τ) : List DocumentKey :=
  log.filterMap fun x => x.call.looksAt?

def fetches (log : Log τ) : List EntityType :=
  log.filterMap fun x => x.call.fetches?

variable {xs ys : Log τ}

theorem looks_append : (xs ++ ys).looks = xs.looks ++ ys.looks := List.filterMap_append

theorem fetches_append : (xs ++ ys).fetches = xs.fetches ++ ys.fetches := List.filterMap_append

end Log

/-- What a change asks: nothing about its entity if that is deleted, and at most once otherwise, and
at most once for the records of each root. -/
structure AsksOnce (schema : Schema) (c : Change) (part : Log τ) : Prop where
  looks : part.looks.Sublist (if c.kind = .delete then [] else [c.key])
  fetches : part.fetches.Sublist (schema.holders c.entityType)

/-- The roots whose records may still be asked for. -/
def Stage.pending : Stage → List EntityType
  | .serve rest | .load _ _ rest => rest
  | .own e rest | .settle e _ rest | .turn e rest | .refer e _ rest | .search e rest
  | .found e _ rest => e.root :: rest

theorem Stage.pending_after (c : Change) (e : Embedding) (rest : List EntityType) :
    (after c e rest).pending.Sublist (e.root :: rest) := by
  unfold after
  split
  · exact List.Sublist.refl _
  · exact List.sublist_cons_self e.root rest

/-- The change has come from the log `earlier` to the stage, asking no more than it may. -/
structure Asking (schema : Schema) (c : Change) (earlier part : Log τ) (s : Stage)
    (b : Batch (Logged τ σ)) : Prop where
  log : b.world.log = earlier ++ part
  looks : part.looks.Sublist (if c.kind = .delete then [] else [c.key])
  unasked : b.answer = none → part.looks = []
  fetches : (part.fetches ++ s.pending).Sublist (schema.holders c.entityType)

def Asked (schema : Schema) (c : Change) (earlier : Log τ) (b : Batch (Logged τ σ)) : Prop :=
  ∃ part, b.world.log = earlier ++ part ∧ AsksOnce schema c part

section Changes

variable {schema : Schema} (store : EntityStore σ) (sink : SearchIndex τ σ) (tx : τ)

theorem asksOnce_nil (schema : Schema) (c : Change) : AsksOnce schema c ([] : Log τ) :=
  ⟨List.nil_sublist _, List.nil_sublist _⟩

section Asking

variable {c : Change} {earlier part : Log τ} {s : Stage} {b : Batch (Logged τ σ)}

theorem Asking.asksOnce (h : Asking schema c earlier part s b) : AsksOnce schema c part :=
  ⟨h.looks, (List.sublist_append_left _ _).trans h.fetches⟩

theorem Asking.move (h : Asking schema c earlier part s b) {s' : Stage}
    (hpending : s'.pending.Sublist s.pending) : Asking schema c earlier part s' b :=
  { h with fetches := (hpending.append_left part.fetches).trans h.fetches }

theorem Asking.note (h : Asking schema c earlier part s b) {s' : Stage} {b' : Batch (Logged τ σ)}
    (x : Exchange τ) (hlook : x.call.looksAt? = none)
    (hpending : (x.call.fetches?.toList ++ s'.pending).Sublist s.pending)
    (hlog : b'.world.log = b.world.log ++ [x]) (hanswer : b'.answer = b.answer) :
    Asking schema c earlier (part ++ [x]) s' b' := by
  have hlooks : (part ++ [x]).looks = part.looks := by
    rw [Log.looks_append]
    simp [Log.looks, hlook]
  have hfetches : (part ++ [x]).fetches = part.fetches ++ x.call.fetches?.toList := by
    rw [Log.fetches_append]
    cases hfetch : x.call.fetches? <;> simp [Log.fetches, hfetch]
  refine ⟨by rw [hlog, h.log, List.append_assoc], hlooks ▸ h.looks, ?_, ?_⟩
  · rw [hlooks, hanswer]
    exact h.unasked
  · rw [hfetches, List.append_assoc]
    exact (hpending.append_left part.fetches).trans h.fetches

theorem Asking.first_look (h : Asking schema c earlier part s b) (hunknown : b.answer = none)
    (x : Exchange τ) (hx : x.call = .get c.entityType c.id) :
    (part ++ [x]).looks = [c.key] ∧ (part ++ [x]).fetches = part.fetches := by
  obtain ⟨call, answer⟩ := x
  obtain rfl := hx
  rw [Log.looks_append, Log.fetches_append, h.unasked hunknown]
  exact ⟨rfl, List.append_nil _⟩

variable {u : Updater τ σ}

theorem Asking.call (h : Asking schema c earlier part s b) {call : Call τ}
    {failure : String → UpdateError} {ok : call.Answer → Batch (Logged τ σ) → Prop} (s' : Stage)
    (hlook : call.looksAt? = none)
    (hpending : (call.fetches?.toList ++ s'.pending).Sublist s.pending)
    (hok : ∀ a b' part, Asking schema c earlier part s' b' → ok a b') :
    (BatchAction.call (u.logged.perform call) failure).Ensures b ok
      (fun _ b => Asked schema c earlier b) := by
  refine Updater.ensures_logged_call call ?_ ?_
  · intro a w _
    exact hok a _ _ (h.note ⟨call, .ok a⟩ hlook hpending rfl rfl)
  · intro cause w
    have h' := h.note ⟨call, .error cause⟩ hlook hpending rfl
      (rfl : ({ b with world := ⟨w, _⟩ } : Batch (Logged τ σ)).answer = b.answer)
    exact ⟨_, h'.log, h'.asksOnce⟩

theorem Asking.exec_write (h : Asking schema c earlier part s b) {kind : WriteKind}
    {key : DocumentKey} {call : Call τ} {s' : Stage} (hlook : call.looksAt? = none)
    (hfetch : call.fetches? = none) (hpending : s'.pending.Sublist s.pending) :
    (u.logged.exec c (.write kind key call s')).Ensures b
      (fun s b => ∃ part, Asking schema c earlier part s b)
      (fun _ b => Asked schema c earlier b) := by
  rw [Updater.exec_write]
  refine h.call s' hlook ?_ fun a b' part' h' => ⟨part', { h' with }⟩
  rw [hfetch]
  exact hpending

theorem Asking.exec_ask (h : Asking schema c earlier part s b) {next : Option Record → Stage}
    (hkind : c.kind ≠ .delete) (hpending : ∀ a, (next a).pending = s.pending) :
    (u.logged.exec c (.ask next)).Ensures b
      (fun s b => ∃ part, Asking schema c earlier part s b)
      (fun _ b => Asked schema c earlier b) := by
  cases ha : b.answer with
  | some a =>
    rw [Updater.exec_ask_known ha]
    exact ⟨part, h.move (hpending a ▸ List.Sublist.refl _)⟩
  | none =>
    rw [Updater.exec_ask_unknown ha]
    refine Updater.ensures_logged_call (.get c.entityType c.id) ?_ ?_
    · intro (a : Option Record) w _
      obtain ⟨hlooks, hfetches⟩ := h.first_look ha ⟨.get c.entityType c.id, .ok a⟩ rfl
      refine ⟨_, (congrArg (· ++ _) h.log).trans (List.append_assoc _ _ _), ?_, nofun, ?_⟩
      · rw [hlooks, if_neg hkind]
      · rw [hfetches, hpending]
        exact h.fetches
    · intro cause w
      obtain ⟨hlooks, hfetches⟩ := h.first_look ha ⟨.get c.entityType c.id, .error cause⟩ rfl
      refine ⟨_, (congrArg (· ++ _) h.log).trans (List.append_assoc _ _ _), ?_, ?_⟩
      · rw [hlooks, if_neg hkind]
      · rw [hfetches]
        exact h.asksOnce.fetches

end Asking

/-- A change asks from stage to stage for what it has not asked for before. -/
theorem asking_keeps (all : List EntityType) (c : Change) (earlier : Log τ)
    {halt : Stage → Bool} :
    (Updater.ofSchema schema store sink).logged.Keeps tx all c halt
      (fun s b => ∃ part, Asking schema c earlier part s b)
      (fun _ b => Asked schema c earlier b) := by
  rintro s b act - ⟨part, h⟩ hact
  cases hact with
  | done | removed | gone | referred | unreferred | skipped | loaded =>
    exact ⟨part, h.move (List.Sublist.refl _)⟩
  | unknown | unreadable => exact ⟨part, h.log, h.asksOnce⟩
  | own he | other he =>
    obtain ⟨root, -, htype, rfl⟩ := Schema.root_of_lookup_embeddings he
    exact ⟨part, h.move (htype ▸ List.Sublist.refl _)⟩
  | settled => exact ⟨part, h.move (Stage.pending_after c _ _)⟩
  | idle => exact ⟨part, h.move (List.sublist_cons_self _ _)⟩
  | unsettled hkind | there hkind => exact h.exec_ask hkind fun _ => rfl
  | delete | index | update => exact h.exec_write rfl rfl (Stage.pending_after c _ _)
  | updated => exact h.exec_write rfl rfl (List.Sublist.refl _)
  | unlocated => exact ⟨part, { h with }⟩
  | @located e rest =>
    rw [Updater.exec_look]
    refine h.call (.search e rest) rfl (List.Sublist.refl _) ?_
    exact fun ids b' part' h' => ⟨part', { h' with }⟩
  | @pending e ids ids' rest =>
    rw [Updater.exec_look]
    refine h.call (.serve rest) rfl (List.Sublist.refl _) ?_
    exact fun records b' part' h' => ⟨part', { h' with }⟩

theorem applyChange_asksOnce (h : schema.WellFormed) (c : Change) (b : Batch (Logged τ σ)) :
    ((Updater.ofSchema schema store sink).logged.applyChange tx c).Ensures b
      (fun _ b' => Asked schema c b.world.log b') (fun _ b' => Asked schema c b.world.log b') := by
  by_cases hnil : schema.holders c.entityType = []
  · rw [Updater.applyChange_of_none ((h.rootsFor_eq _).trans (if_pos hnil))]
    exact ⟨[], (List.append_nil _).symm, asksOnce_nil schema c⟩
  · have hroots := (h.rootsFor_eq _).trans (if_neg hnil)
    have hstart : Asking schema c b.world.log [] (.serve (schema.holders c.entityType))
        { b with answer := none } :=
      ⟨(List.append_nil _).symm, List.nil_sublist _, fun _ => rfl, List.Sublist.refl _⟩
    refine ((asking_keeps store sink tx _ c _).applyChange hroots ⟨[], hstart⟩).mono ?_
      fun _ _ => id
    rintro _ b' ⟨part, h'⟩
    exact ⟨part, h'.log, h'.asksOnce⟩

/-- Each change of a batch sees one state of its entity, whatever the store answers and however the
batch ends. The store is asked for the state at most once, only under the key of the change and not
at all if that deletes, and for the records of each root at most once. All that is done for the
change is what would be done if the answer was known beforehand and no question left. -/
theorem change_sees_one_state {roots : List RootType}
    (haccepted : Schema.ofRoots roots = .ok schema)
    (earlier : List Change) (c : Change) (later : List Change) (w : σ) :
    let u := Updater.ofSchema schema store sink
    (∃ part rest, u.log tx w (earlier ++ [c]) = u.log tx w earlier ++ part ∧
      u.log tx w (earlier ++ c :: later) = u.log tx w earlier ++ part ++ rest ∧
      AsksOnce schema c part) ∧
    (schema.holders c.entityType).Nodup ∧ ∀ b, u.logged.LooksOnceAt tx c b := by
  intro u
  obtain ⟨-, hwell⟩ := Schema.wellFormed_of_ofRoots haccepted
  obtain ⟨part, hlog, hpart⟩ := u.log_concat_of tx w (asksOnce_nil schema c) fun _ b _ =>
    applyChange_asksOnce store sink tx hwell c b
  obtain ⟨rest, hrest⟩ := u.log_prefix tx w (earlier ++ [c]) later
  rw [List.append_assoc, List.singleton_append, hlog] at hrest
  exact ⟨⟨part, rest, hlog, hrest.symm, hpart⟩, hwell.holders_nodup c.entityType,
    applyChange_looksOnce u.logged tx c⟩

end Changes

namespace Sample

/-- A store that loses sight of Merlin at every other question. -/
def flickering : EntityStore Nat where
  get _ _ n := (.ok (if n % 2 = 0 then some merlin else none), n + 1)
  getBatch type ids n := (.ok (ids.filterMap fun id => entities.find? (type, id)), n)

/-- An index that takes everything and finds nothing. -/
def patient : SearchIndex Unit Nat where
  index _ _ n := (.ok (), n)
  update _ _ n := (.ok (), n)
  delete _ _ _ _ n := (.ok (), n)
  findRootIds _ _ _ n := (.ok [], n)

end Sample

/-- Merlin's document is written and his tower is found by the one answer. -/
theorem change_sees_one_state_flickering :
    let u := Updater.ofSchema Sample.schema Sample.flickering Sample.patient
    let c : Change := ⟨Sample.sorcerer, .int 2, .update⟩
    Schema.ofRoots Sample.roots = .ok Sample.schema ∧ AsksOnce Sample.schema c (u.log () 0 [c]) ∧
      (u.log () 0 [c]).looks = [Sample.merlin.key] ∧
      (u.log () 0 [c]).fetches = [Sample.place] := by
  intro u c
  have haccepted : Schema.ofRoots Sample.roots = .ok Sample.schema := rfl
  obtain ⟨⟨part, -, hlog, -, hpart⟩, -, -⟩ := change_sees_one_state Sample.flickering Sample.patient
    () haccepted [] c [] 0
  obtain rfl : u.log () 0 [c] = part := hlog
  exact ⟨haccepted, hpart, rfl, rfl⟩

end SearchSync
