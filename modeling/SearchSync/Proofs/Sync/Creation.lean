import SearchSync.Proofs.Sync.Portions

/-!
# How missing documents are created

A new document is meant to be indexed, and an update to replace a document that is there. The
first write of a root's document is an index, and so is the next after each deletion, unless a
change is resolved to the document while it is missing. That change updates the missing document,
and the insertion that follows finds it written and leaves it. Nothing else stands in the way.
-/
namespace SearchSync

open BatchAction

variable {τ σ : Type}

/-- What can happen to a root next: one that is deleted can only be inserted, or deleted again, and
one that is there cannot be inserted. -/
def ChangeKind.Allows (kind : ChangeKind) : ChangeKind → Prop
  | .insert => kind = .delete
  | .update => kind ≠ .delete
  | .delete => True

instance (kind next : ChangeKind) : Decidable (kind.Allows next) :=
  match next with
  | .insert => inferInstanceAs (Decidable (kind = .delete))
  | .update => inferInstanceAs (Decidable (kind ≠ .delete))
  | .delete => inferInstanceAs (Decidable True)

def kindsOf (key : DocumentKey) (changes : List Change) : List ChangeKind :=
  (changes.filter (·.key = key)).map (·.kind)

/-- The changes of the entity under the key form a life cycle. -/
def LifeCycle (key : DocumentKey) (changes : List Change) : Prop :=
  (kindsOf key changes).IsChain ChangeKind.Allows

/-- After the first of the changes, the entity under the key is yet to be inserted, for the first
time or again. -/
def Awaited (key : DocumentKey) (changes earlier : List Change) : Prop :=
  (kindsOf key earlier).getLast? = some .delete ∨
    kindsOf key earlier = [] ∧ (kindsOf key changes).head? = some .insert

/-- The first write of the document is an index if the changes of its root start with an insertion,
and the next write after a deletion is an index if it does not delete once more. -/
def CreatedByIndex (key : DocumentKey) (changes : List Change) (log : Log τ) : Prop :=
  ∀ before x after kind, log = before ++ x :: after → x.call.write? = some (kind, key) →
    (Log.lastWrite? before key = none → (kindsOf key changes).head? = some .insert →
      kind = .index) ∧
    (Log.lastWrite? before key = some .delete → kind ≠ .delete → kind = .index)

section Kinds

variable {key : DocumentKey} {changes earlier later : List Change} {c : Change}

theorem kindsOf_append (key : DocumentKey) (earlier later : List Change) :
    kindsOf key (earlier ++ later) = kindsOf key earlier ++ kindsOf key later := by
  unfold kindsOf
  rw [List.filter_append, List.map_append]

theorem kindsOf_cons_own (h : c.key = key) :
    kindsOf key (c :: later) = c.kind :: kindsOf key later := by
  unfold kindsOf
  rw [List.filter_cons_of_pos (by simpa using h), List.map_cons]

theorem kindsOf_cons_other (h : c.key ≠ key) : kindsOf key (c :: later) = kindsOf key later := by
  unfold kindsOf
  rw [List.filter_cons_of_neg (by simpa using h)]

theorem kindsOf_concat_own (h : c.key = key) :
    kindsOf key (earlier ++ [c]) = kindsOf key earlier ++ [c.kind] := by
  rw [kindsOf_append, kindsOf_cons_own h]
  rfl

theorem kindsOf_concat_other (h : c.key ≠ key) :
    kindsOf key (earlier ++ [c]) = kindsOf key earlier := by
  rw [kindsOf_append, kindsOf_cons_other h]
  exact List.append_nil _

/-- What was last of the changes of a root allows its next change. -/
theorem LifeCycle.allows (h : LifeCycle key (earlier ++ c :: later)) (hc : c.key = key)
    {kind : ChangeKind} (hlast : (kindsOf key earlier).getLast? = some kind) :
    kind.Allows c.kind := by
  unfold LifeCycle at h
  rw [kindsOf_append, kindsOf_cons_own hc, List.isChain_append] at h
  exact h.2.2 kind hlast c.kind rfl

end Kinds

/-- How the changes of its own root leave the document: deleted, or put. -/
def leftBy? (key : DocumentKey) (changes : List Change) : Option WriteKind :=
  (kindsOf key changes).getLast?.map fun kind => if kind = .delete then .delete else .index

theorem leftBy?_eq_none {key : DocumentKey} {changes : List Change} :
    leftBy? key changes = none ↔ kindsOf key changes = [] := by
  unfold leftBy?
  rw [Option.map_eq_none_iff, List.getLast?_eq_none_iff]

theorem leftBy?_eq_delete {key : DocumentKey} {changes : List Change} :
    leftBy? key changes = some .delete ↔ (kindsOf key changes).getLast? = some .delete := by
  unfold leftBy?
  rcases (kindsOf key changes).getLast? with _ | kind
  · simp
  · cases kind <;> simp

section Batches

variable {schema : Schema} {store : EntityStore σ} {sink : SearchIndex τ σ} {tx : τ} {w : σ}
  {entities : Snapshot} {key : DocumentKey} {r : Record} {earlier later : List Change} {c : Change}

theorem completes_of_append {u : Updater τ σ} (h : u.Completes tx w (earlier ++ later)) :
    u.Completes tx w earlier := by
  obtain ⟨counts, hok⟩ := h
  unfold Updater.apply at hok
  rw [Updater.applyAll_append, run_bind] at hok
  unfold Updater.Completes Updater.apply
  rcases hrun : (u.applyAll tx earlier).run (Batch.start w) with ⟨err | counts', b⟩
  · rw [hrun] at hok
    cases hok
  · exact ⟨counts', rfl⟩

theorem log_append_of_stopped {u : Updater τ σ} (h : ¬u.Completes tx w earlier)
    (later : List Change) : u.log tx w (earlier ++ later) = u.log tx w earlier := by
  rw [Updater.completes_iff_logged] at h
  unfold Updater.log Updater.apply
  rw [Updater.applyAll_append, run_bind]
  rcases hrun : (u.logged.applyAll tx earlier).run (Batch.start ⟨w, []⟩) with ⟨err | counts, b⟩
  · rfl
  · exact absurd ⟨counts, congrArg Prod.fst hrun⟩ h

/-- A batch that goes through has last written the document as the changes of its root have it, or
it has updated it since. -/
theorem lastWrite?_of_completes (h : schema.WellFormed) (hstore : store.AnswersFrom entities)
    (hkey : key.1 ∈ schema.rootTypes) (hr : entities.find? key = some r) (changes : List Change) :
    let u := Updater.ofSchema schema store sink
    u.Completes tx w changes →
      (u.log tx w changes).lastWrite? key = some .update ∨
        (u.log tx w changes).lastWrite? key = leftBy? key changes := by
  intro u hdone
  induction changes using List.reverseRecOn with
  | nil => exact Or.inr rfl
  | append_singleton changes c ih =>
    obtain ⟨own, others, hparts⟩ := exists_portions sink h hstore hkey hr tx w changes c
    rw [hparts.log_eq, Log.lastWrite?_append]
    cases hothers : others.lastWrite? key with
    | some kind =>
      obtain ⟨x, hx, hwrite⟩ := Log.mem_of_lastWrite? hothers
      obtain ⟨rfl, -⟩ := hparts.updates x hx kind hwrite
      exact Or.inl rfl
    | none =>
      rw [Option.none_or]
      by_cases hc : c.key = key
      · obtain ⟨kind, hlast, hdelete⟩ := hparts.settled (Or.inr hdone) hc
        rw [hlast, leftBy?, kindsOf_concat_own hc, List.getLast?_concat, Option.map_some]
        by_cases hkind : c.kind = .delete
        · rw [if_pos hkind, hdelete.mpr hkind]
          exact Or.inr rfl
        · rw [if_neg hkind]
          cases kind with
          | index => exact Or.inr rfl
          | update => exact Or.inl rfl
          | delete => exact absurd (hdelete.mp rfl) hkind
      · rw [Log.lastWrite?_append_spared fun x hx => (hparts.serves x hx).spares hc, leftBy?,
          kindsOf_concat_other hc]
        exact ih (completes_of_append hdone)

/-- As long as the document is missing, its root is gone or was not changed yet. -/
theorem missing_of_lastWrite? (h : schema.WellFormed) (hstore : store.AnswersFrom entities)
    (hkey : key.1 ∈ schema.rootTypes) (hr : entities.find? key = some r) :
    let u := Updater.ofSchema schema store sink
    u.Completes tx w earlier →
      ((u.log tx w earlier).lastWrite? key = none → kindsOf key earlier = []) ∧
      ((u.log tx w earlier).lastWrite? key = some .delete →
        (kindsOf key earlier).getLast? = some .delete) := by
  intro u hdone
  rw [← leftBy?_eq_none, ← leftBy?_eq_delete]
  rcases lastWrite?_of_completes h hstore hkey hr earlier hdone with hupdate | hleft
  · rw [hupdate]
    exact ⟨nofun, nofun⟩
  · rw [hleft]
    exact ⟨id, id⟩

/-- Every call is one of the portions of a change. -/
theorem exists_portions_of_call (h : schema.WellFormed) (hstore : store.AnswersFrom entities)
    (hkey : key.1 ∈ schema.rootTypes) (hr : entities.find? key = some r) (changes : List Change) :
    let u := Updater.ofSchema schema store sink
    ∀ before x after, u.log tx w changes = before ++ x :: after →
      ∃ earlier c later own others part rest, changes = earlier ++ c :: later ∧
        u.Completes tx w earlier ∧ u.Portions tx w earlier c key own others ∧
        before = u.log tx w earlier ++ part ∧ own ++ others = part ++ x :: rest := by
  intro u before x after hlog
  obtain ⟨earlier, c, later, part, hchanges, hbefore, ⟨rest, hprefix⟩, -⟩ :=
    call_justified schema sink tx hstore.keyed changes w before x after hlog
  obtain ⟨own, others, hparts⟩ := exists_portions sink h hstore hkey hr tx w earlier c
  have hcall : u.log tx w (earlier ++ [c]) = u.log tx w earlier ++ (part ++ x :: rest) := by
    rw [← hprefix, hbefore, List.append_assoc, List.append_assoc]
    rfl
  refine ⟨earlier, c, later, own, others, part, rest, hchanges, ?_, hparts, hbefore, ?_⟩
  · by_contra hstopped
    rw [log_append_of_stopped hstopped] at hcall
    simp at hcall
  · rw [hparts.log_eq, List.append_assoc] at hcall
    exact List.append_cancel_left hcall

/-- An own change creates a missing document by index, unless the life of its root starts with an
update. -/
theorem Updater.Portions.own_creates {u : Updater τ σ} {own others : Log τ} {x : Exchange τ}
    {kind : WriteKind} {part rest : Log τ} (hparts : u.Portions tx w earlier c key own others)
    (hcycle : LifeCycle key (earlier ++ c :: later)) (hown : own = part ++ x :: rest)
    (hwrite : x.call.write? = some (kind, key))
    (hnever : (u.log tx w earlier).lastWrite? key = none → kindsOf key earlier = [])
    (hdeleted : (u.log tx w earlier).lastWrite? key = some .delete →
      (kindsOf key earlier).getLast? = some .delete) :
    ((u.log tx w earlier ++ part).lastWrite? key = none →
      (kindsOf key (earlier ++ c :: later)).head? = some .insert → kind = .index) ∧
    ((u.log tx w earlier ++ part).lastWrite? key = some .delete → kind ≠ .delete →
      kind = .index) := by
  have hserves := hparts.serves
  rw [hown, List.forall_mem_append, List.forall_mem_cons] at hserves
  obtain ⟨hpart, hx, -⟩ := hserves
  obtain ⟨hc, rfl⟩ := hx kind hwrite
  rw [Log.lastWrite?_append]
  constructor
  · intro hmissing hfirst
    obtain ⟨-, hlog⟩ := Option.or_eq_none_iff.mp hmissing
    rw [kindsOf_append, hnever hlog, kindsOf_cons_own hc] at hfirst
    rw [Option.some.inj hfirst]
    rfl
  · intro hmissing hput
    cases hkind : c.kind with
    | insert => rfl
    | delete => exact absurd (by rw [hkind]; rfl) hput
    | update =>
      -- A root that was deleted is not updated next.
      cases hlast : part.lastWrite? key with
      | some kind =>
        obtain ⟨y, hy, hwrite⟩ := Log.mem_of_lastWrite? hlast
        rw [hlast, (hpart y hy kind hwrite).2, hkind] at hmissing
        cases hmissing
      | none =>
        rw [hlast, Option.none_or] at hmissing
        have hallows := hcycle.allows hc (hdeleted hmissing)
        rw [hkind] at hallows
        exact absurd rfl hallows

/-- When a change that is resolved to a missing document updates it, the document is awaited. -/
theorem Updater.Portions.awaited_of_update {u : Updater τ σ} {own others : Log τ} {x : Exchange τ}
    {part rest : Log τ} (hparts : u.Portions tx w earlier c key own others)
    (hothers : others = part ++ x :: rest)
    (hnever : (u.log tx w earlier).lastWrite? key = none → kindsOf key earlier = [])
    (hdeleted : (u.log tx w earlier).lastWrite? key = some .delete →
      (kindsOf key earlier).getLast? = some .delete)
    (hmissing : (u.log tx w earlier ++ own ++ part).lastWrite? key = some .delete ∨
      (u.log tx w earlier ++ own ++ part).lastWrite? key = none ∧
        (kindsOf key (earlier ++ c :: later)).head? = some .insert) :
    Awaited key (earlier ++ c :: later) (earlier ++ [c]) := by
  have hpart : part.lastWrite? key = none := by
    cases hlast : part.lastWrite? key with
    | none => rfl
    | some kind =>
      obtain ⟨y, hy, hwrite⟩ := Log.mem_of_lastWrite? hlast
      have hmem : y ∈ others := hothers ▸ List.mem_append_left _ hy
      obtain ⟨rfl, -⟩ := hparts.updates y hmem kind hwrite
      rw [Log.lastWrite?_append, hlast] at hmissing
      rcases hmissing with hdelete | ⟨hnone, -⟩
      · cases hdelete
      · cases hnone
  rw [Log.lastWrite?_append, hpart, Option.none_or] at hmissing
  by_cases hc : c.key = key
  · have hne : others ≠ [] := by
      rw [hothers]
      simp
    obtain ⟨kind, hlast, hdelete⟩ := hparts.settled (Or.inl hne) hc
    rw [hlast] at hmissing
    left
    rw [kindsOf_concat_own hc, List.getLast?_concat]
    rcases hmissing with hkind | ⟨hnone, -⟩
    · rw [hdelete.mp (Option.some.inj hkind)]
    · cases hnone
  · unfold Awaited
    rw [kindsOf_concat_other hc]
    rw [Log.lastWrite?_append_spared fun y hy => (hparts.serves y hy).spares hc] at hmissing
    exact hmissing.imp hdeleted (And.imp_left hnever)

theorem createdByIndex_of_unresolved (h : schema.WellFormed) (hstore : store.AnswersFrom entities)
    (hkey : key.1 ∈ schema.rootTypes) (hr : entities.find? key = some r) {changes : List Change}
    (hcycle : LifeCycle key changes) :
    let u := Updater.ofSchema schema store sink
    (∀ earlier c later, changes = earlier ++ c :: later → Awaited key changes (earlier ++ [c]) →
      ¬u.ResolvesTo tx w earlier c key) →
      CreatedByIndex key changes (u.log tx w changes) := by
  intro u hunresolved before x after kind hlog hwrite
  obtain ⟨earlier, c, later, own, others, part, rest, rfl, hdone, hparts, rfl, hsplit⟩ :=
    exists_portions_of_call h hstore hkey hr changes before x after hlog
  obtain ⟨hnever, hdeleted⟩ := missing_of_lastWrite? h hstore hkey hr hdone
  rcases append_split hsplit with ⟨others', hown, -⟩ | ⟨part', rfl, hothers⟩
  · exact hparts.own_creates hcycle hown hwrite hnever hdeleted
  · have hmem : x ∈ others := hothers ▸ List.mem_append_right part' List.mem_cons_self
    obtain ⟨-, hresolves⟩ := hparts.updates x hmem kind hwrite
    rw [← List.append_assoc]
    have hcontra : ¬((u.log tx w earlier ++ own ++ part').lastWrite? key = some .delete ∨
        (u.log tx w earlier ++ own ++ part').lastWrite? key = none ∧
          (kindsOf key (earlier ++ c :: later)).head? = some .insert) := fun hmissing =>
      hunresolved earlier c later rfl
        (hparts.awaited_of_update hothers hnever hdeleted hmissing) hresolves
    exact ⟨fun hnone hfirst => absurd (Or.inr ⟨hnone, hfirst⟩) hcontra,
      fun hdelete _ => absurd (Or.inl hdelete) hcontra⟩

/-- A root that its last change deletes has been deleted from the index. -/
theorem deleted_of_completes (h : schema.WellFormed) (hstore : store.AnswersFrom entities)
    (hkey : key.1 ∈ schema.rootTypes) (hr : entities.find? key = some r) {changes : List Change} :
    let u := Updater.ofSchema schema store sink
    u.Completes tx w changes → (kindsOf key changes).getLast? = some .delete →
      ∃ y ∈ u.log tx w changes, y.call.write? = some (.delete, key) := by
  intro u hdone hlast
  induction changes using List.reverseRecOn with
  | nil => cases hlast
  | append_singleton changes c ih =>
    obtain ⟨own, others, hparts⟩ := exists_portions sink h hstore hkey hr tx w changes c
    rw [hparts.log_eq]
    by_cases hc : c.key = key
    · rw [kindsOf_concat_own hc, List.getLast?_concat] at hlast
      obtain ⟨kind, hwrite, hdelete⟩ := hparts.settled (Or.inr hdone) hc
      rw [hdelete.mpr (Option.some.inj hlast)] at hwrite
      obtain ⟨y, hy, hy'⟩ := Log.mem_of_lastWrite? hwrite
      exact ⟨y, List.mem_append_left others hy, hy'⟩
    · rw [kindsOf_concat_other hc] at hlast
      obtain ⟨y, hy, hy'⟩ := ih (completes_of_append hdone) hlast
      exact ⟨y, List.mem_append_left others (List.mem_append_left own hy), hy'⟩

/-- A change that is resolved to an awaited document updates it, and so the insertion that is to
come does not create it. -/
theorem not_createdByIndex_of_resolved (h : schema.WellFormed)
    (hstore : store.AnswersFrom entities) (hkey : key.1 ∈ schema.rootTypes)
    (hr : entities.find? key = some r) :
    let u := Updater.ofSchema schema store sink
    u.Completes tx w (earlier ++ c :: later) →
      Awaited key (earlier ++ c :: later) (earlier ++ [c]) → u.ResolvesTo tx w earlier c key →
      ¬CreatedByIndex key (earlier ++ c :: later) (u.log tx w (earlier ++ c :: later)) := by
  intro u hdone hawaited hresolves hcreated
  have hchanges : earlier ++ c :: later = (earlier ++ [c]) ++ later := by simp
  rw [hchanges] at hdone hcreated
  have hreached := completes_of_append hdone
  obtain ⟨own, others, hparts⟩ := exists_portions sink h hstore hkey hr tx w earlier c
  obtain ⟨kind, hlast, hput⟩ := hparts.resolved hreached hresolves
  -- Its own changes leave an awaited document deleted or untouched, so the last write is an update.
  obtain rfl : kind = .update := by
    have hwritten := lastWrite?_of_completes h hstore hkey hr _ hreached
    rw [hlast] at hwritten
    rcases hwritten with hupdate | hleft
    · exact Option.some.inj hupdate
    · rcases hawaited with hdelete | ⟨hnever, -⟩
      · rw [leftBy?_eq_delete.mpr hdelete] at hleft
        exact absurd (Option.some.inj hleft) hput
      · rw [leftBy?_eq_none.mpr hnever] at hleft
        cases hleft
  obtain ⟨before, x, after, hlog, hx, hafter⟩ := Log.split_of_lastWrite? hlast
  obtain ⟨rest, hrest⟩ : u.log tx w (earlier ++ [c]) <+: u.log tx w (earlier ++ [c] ++ later) :=
    u.log_prefix tx w (earlier ++ [c]) later
  have hwhole : u.log tx w (earlier ++ [c] ++ later) = before ++ x :: (after ++ rest) := by
    rw [← hrest, hlog, List.append_assoc]
    rfl
  obtain ⟨hfirst, hnext⟩ := hcreated before x (after ++ rest) .update hwhole hx
  have hfresh := log_fresh schema sink tx hstore.keyed (earlier ++ [c] ++ later) w
  have hunwritten := hfresh before x (after ++ rest) hwhole key (Or.inr hx)
  rw [Log.mem_written_iff] at hunwritten
  cases hmissing : Log.lastWrite? before key with
  | some kind =>
    cases kind with
    | delete => cases hnext hmissing nofun
    | index => exact hunwritten ⟨.index, hmissing, nofun⟩
    | update => exact hunwritten ⟨.update, hmissing, nofun⟩
  | none =>
    rcases hawaited with hdelete | ⟨-, hinsert⟩
    · obtain ⟨y, hy, hwrite⟩ := deleted_of_completes h hstore hkey hr hreached hdelete
      rw [hlog, List.mem_append, List.mem_cons] at hy
      have hkind := Call.kindFor?_eq_some.mpr hwrite
      rcases hy with hy | rfl | hy
      · cases (Log.lastWrite?_eq_none.mp hmissing y hy).symm.trans hkind
      · cases hx.symm.trans hwrite
      · cases (Log.lastWrite?_eq_none.mp hafter y hy).symm.trans hkind
    · rw [hchanges] at hinsert
      cases hfirst hmissing hinsert

end Batches

/-- For a root that the store has and whose changes form a life cycle: its missing document is
created by index in every batch in which no change is resolved to it while it is awaited. In a batch
that goes through, it is written if its root is inserted, and it is not created by index if there is
such a change. -/
theorem created_by_index_iff {roots : List RootType} {schema : Schema}
    (hschema : Schema.ofRoots roots = .ok schema) {store : EntityStore σ} {entities : Snapshot}
    (hstore : store.AnswersFrom entities) (sink : SearchIndex τ σ) (tx : τ) (w : σ)
    {changes : List Change} {key : DocumentKey} {r : Record} (hkey : key.1 ∈ schema.rootTypes)
    (hr : entities.find? key = some r) (hcycle : LifeCycle key changes) :
    let u := Updater.ofSchema schema store sink
    let log := u.log tx w changes
    let preempted := ∃ earlier c later, changes = earlier ++ c :: later ∧
      Awaited key changes (earlier ++ [c]) ∧ u.ResolvesTo tx w earlier c key
    (¬preempted → CreatedByIndex key changes log) ∧
      (u.Completes tx w changes →
        ((kindsOf key changes).head? = some .insert →
          ∃ x ∈ log, ∃ kind, x.call.write? = some (kind, key)) ∧
        (CreatedByIndex key changes log ↔ ¬preempted)) := by
  intro u log preempted
  have h := (Schema.wellFormed_of_ofRoots hschema).2
  have hcreated : ¬preempted → CreatedByIndex key changes log := by
    intro hnone
    exact createdByIndex_of_unresolved h hstore hkey hr hcycle fun earlier c later hchanges
      hawaited hresolves => hnone ⟨earlier, c, later, hchanges, hawaited, hresolves⟩
  refine ⟨hcreated, fun hdone => ⟨fun hfirst => ?_, ?_, hcreated⟩⟩
  · have hleft : leftBy? key changes ≠ none := by
      rw [Ne, leftBy?_eq_none]
      intro hnil
      rw [hnil] at hfirst
      cases hfirst
    have hwritten : log.lastWrite? key ≠ none := by
      rcases lastWrite?_of_completes h hstore hkey hr changes hdone with
        hupdate | heq
      · rw [hupdate]
        nofun
      · rw [heq]
        exact hleft
    obtain ⟨kind, hlast⟩ := Option.ne_none_iff_exists'.mp hwritten
    obtain ⟨x, hx, hwrite⟩ := Log.mem_of_lastWrite? hlast
    exact ⟨x, hx, kind, hwrite⟩
  · rintro hindex ⟨earlier, c, later, rfl, hawaited, hresolves⟩
    exact not_createdByIndex_of_resolved h hstore hkey hr hdone hawaited hresolves hindex

namespace Sample

/-- A place is inserted, and again after it was deleted. Its sorcerer changes while it is there. -/
def rebuilding : List Change :=
  [⟨place, .int 1, .insert⟩, ⟨sorcerer, .int 2, .update⟩, ⟨place, .int 1, .delete⟩,
    ⟨place, .int 1, .insert⟩]

/-- The same changes, but each time the sorcerer's come before the place is inserted. -/
def premature : List Change :=
  [⟨sorcerer, .int 2, .update⟩, ⟨place, .int 1, .insert⟩, ⟨place, .int 1, .delete⟩,
    ⟨sorcerer, .int 2, .update⟩, ⟨place, .int 1, .insert⟩]

end Sample

/-- While the place is missing, only its own changes come. -/
theorem created_by_index_iff_rebuilding :
    let u : Updater Unit Documents := .ofSnapshot Sample.places Sample.entities fun _ _ _ _ => []
    let log := u.log () ∅ Sample.rebuilding
    CreatedByIndex Sample.tower.key Sample.rebuilding log ∧
      ∃ x ∈ log, ∃ kind, x.call.write? = some (kind, Sample.tower.key) := by
  intro u log
  have hschema : Schema.ofRoots Sample.places.roots = .ok Sample.places := by rfl
  have hroot : Sample.tower.key.1 ∈ Sample.places.rootTypes := by decide
  have hfind : Sample.entities.find? Sample.tower.key = some Sample.tower := rfl
  have hcycle : LifeCycle Sample.tower.key Sample.rebuilding := by
    unfold LifeCycle
    decide
  obtain ⟨hcreated, hdone⟩ := created_by_index_iff hschema Sample.entities.store_answersFrom
    (Documents.sink fun _ _ _ _ => []) () ∅ hroot hfind hcycle
  refine ⟨hcreated ?_, (hdone ⟨⟨2, 0, 1⟩, by decide +kernel⟩).1 rfl⟩
  rintro ⟨earlier, c, later, hsplit, hawaited, e, he, hembeds, -⟩
  rcases earlier with _ | ⟨c₁, _ | ⟨c₂, _ | ⟨c₃, _ | ⟨c₄, earlier⟩⟩⟩⟩
  · cases hsplit
    exact absurd hawaited (by unfold Awaited; decide)
  · cases hsplit
    exact absurd hawaited (by unfold Awaited; decide)
  · -- The deletion leaves the place missing, but a place embeds no place.
    cases hsplit
    cases he
    cases hembeds
  · cases hsplit
    exact absurd hawaited (by unfold Awaited; decide)
  · simp [Sample.rebuilding] at hsplit

/-- The place is never indexed. Its missing document is updated before either insertion, and so
neither of them writes. -/
theorem missing_document_updated :
    let u : Updater Unit Documents := .ofSnapshot Sample.places Sample.entities fun _ _ _ _ => []
    let log := u.log () ∅ Sample.premature
    Schema.ofRoots Sample.places.roots = .ok Sample.places ∧
      Sample.entities.find? Sample.tower.key = some Sample.tower ∧
      (∀ key : DocumentKey, key.1 ∈ Sample.places.rootTypes → LifeCycle key Sample.premature) ∧
      (kindsOf Sample.tower.key Sample.premature).head? = some .insert ∧
      log.map (fun x => x.call.write?) = [none, none] ++ some (.update, Sample.tower.key) ::
        [some (.delete, Sample.tower.key), none, none, some (.update, Sample.tower.key)] ∧
      ¬CreatedByIndex Sample.tower.key Sample.premature log := by
  intro u log
  have hwrites : log.map (fun x => x.call.write?) =
      [none, none] ++ some (.update, Sample.tower.key) ::
        [some (.delete, Sample.tower.key), none, none, some (.update, Sample.tower.key)] := by
    decide +kernel
  refine ⟨rfl, rfl, ?_, rfl, hwrites, fun hcreated => ?_⟩
  · intro key hroot
    by_cases hplace : Sample.tower.key = key
    · subst key
      unfold LifeCycle
      decide
    · have hsorcerer : Sample.merlin.key ≠ key := by
        rintro rfl
        exact absurd hroot (by decide)
      have hkeys : ∀ c ∈ Sample.premature,
          c.key = Sample.tower.key ∨ c.key = Sample.merlin.key := by decide
      have hnil : kindsOf key Sample.premature = [] := by
        unfold kindsOf
        rw [List.map_eq_nil_iff, List.filter_eq_nil_iff]
        intro c hc
        rcases hkeys c hc with hkey | hkey
        · simpa [hkey] using hplace
        · simpa [hkey] using hsorcerer
      unfold LifeCycle
      rw [hnil]
      exact .nil
  · obtain ⟨before, _, hlog, hbefore, hrest⟩ := List.map_eq_append_iff.mp hwrites
    obtain ⟨x, after, rfl, hx, -⟩ := List.map_eq_cons_iff.mp hrest
    have hmissing : Log.lastWrite? before Sample.tower.key = none := by
      rw [Log.lastWrite?_eq_none]
      intro y hy
      have hlook : y.call.write? ∈ [none, none] := hbefore ▸ List.mem_map_of_mem hy
      unfold Call.Spares Call.kindFor?
      rw [show y.call.write? = none by simpa using hlook]
    cases (hcreated before x after .update hlog hx).1 hmissing rfl

end SearchSync
