import SearchSync.Proofs.Sync.Delivery

/-!
# Filling an index again

What a second call does after the filling of an index has failed. The scan goes on where it stands:
behind the last record that the index was asked to write, whether it took it or not. After a page
failed, the two calls write together what one would have written. After a record was rejected they
write all but this one, which is still the row of the scan that was returned last.
-/
namespace SearchSync

namespace Scan

variable {κ α σ : Type}

/-- From a world that is good, every page of the source is fetched, and the world stays good. -/
def Source.Steady (good : σ → Prop) (s : Source κ α σ) : Prop :=
  ∀ offset limit w, good w → ∃ page w', s.fetchPage offset limit w = (.ok page, w') ∧ good w'

theorem steady_of_origins {good : σ → Prop} {sources sources' : List (Source κ α σ)}
    (hsteady : ∀ s ∈ sources, s.Steady good)
    (horigins : sources'.map Source.origin = sources.map Source.origin) :
    ∀ s ∈ sources', s.Steady good := by
  intro s hs
  have hmem : s.origin ∈ sources.map Source.origin := by
    rw [← horigins]
    exact List.mem_map_of_mem hs
  obtain ⟨t, ht, heq⟩ := List.mem_map.mp hmem
  obtain ⟨-, hfetch⟩ := Prod.mk.inj heq
  have hsame := hsteady t ht
  rw [Source.Steady, hfetch] at hsame
  exact hsame

section Steady

variable {good : σ → Prop} {limit : Nat} {w : σ}

theorem Source.Steady.refill {s : Source κ α σ} {q : Queue κ α} (h : s.Steady good)
    (hfollows : Follows s q) (hlimit : 0 < limit) (hw : good w) :
    ∃ t w', s.refill limit w = (.ok t, w') ∧ good w' := by
  unfold Source.refill
  by_cases hready : s.remaining = 0 ∨ s.buffer ≠ []
  · rw [if_pos hready]
    exact ⟨s, w, rfl, hw⟩
  · obtain ⟨f, hstands⟩ := hfollows
    obtain ⟨page, w', hpage, hw'⟩ := h s.processed.toNat limit w hw
    have hne := (hstands.fetch (fun hzero => hready (Or.inl hzero)) hlimit hpage).1
    obtain ⟨v, rest, rfl⟩ := List.exists_cons_of_ne_nil hne
    refine ⟨{ s with buffer := v :: rest }, w', ?_, hw'⟩
    rw [if_neg hready, hpage]

theorem refillAll_steady {sources : List (Source κ α σ)} {queues : List (Queue κ α)}
    (h : ∀ s ∈ sources, s.Steady good) (hfollows : List.Forall₂ Follows sources queues)
    (hlimit : 0 < limit) (hw : good w) :
    ∃ sources' w', refillAll limit sources w = (none, sources', w') ∧ good w' := by
  induction hfollows generalizing w with
  | nil => exact ⟨[], w, rfl, hw⟩
  | cons hs _ ih =>
    obtain ⟨hnow, hlater⟩ := List.forall_mem_cons.mp h
    obtain ⟨t, w₁, ht, hw₁⟩ := hnow.refill hs hlimit hw
    obtain ⟨rest, w₂, hrest, hw₂⟩ := ih hlater hw₁
    refine ⟨t :: rest, w₂, ?_, hw₂⟩
    simp only [refillAll, ht, hrest]

/-- A step does not fail then. -/
theorem Awaits.next_steady [DecidableEq κ] {s t : Scan κ α σ} {left : List (Candidate κ α)} {w' : σ}
    {r : Except (ScanError κ) Bool} (h : s.Awaits left) (hsteady : ∀ x ∈ s.sources, x.Steady good)
    (hw : good w) (hnext : s.next w = (r, t, w')) :
    good w' ∧ ((∃ c rest, r = .ok true ∧ t.current = some c ∧ left = c :: rest ∧ t.Awaits rest) ∨
      r = .ok false ∧ left = []) := by
  obtain ⟨queues, hfollows, -, -⟩ := id h
  obtain ⟨sources, w₁, hrefill, hw₁⟩ := refillAll_steady hsteady hfollows s.batchSize_pos hw
  obtain ⟨stop, sources', hrefill', hend⟩ := next_turn hnext
  rw [hrefill] at hrefill'
  cases hrefill'
  refine ⟨hw₁, ?_⟩
  rcases h.next hnext with hreturned | ⟨hr, hleft, -⟩ | ⟨tag, cause, hr, -⟩
  · exact Or.inl hreturned
  · exact Or.inr ⟨hr, hleft⟩
  · obtain ⟨_, _, hturn, -⟩ := hend
    rw [hr] at hturn
    cases hturn

end Steady

end Scan

namespace Bulk

variable {τ σ : Type}

/-- Filling an index, step after step. -/
inductive Filling (sink : SearchIndex τ σ) (tx : τ) :
    Scan EntityType Record σ → σ → Except UpdateError Nat → Scan EntityType Record σ → σ → Prop
  | stopped {s t : Scan EntityType Record σ} {w w' : σ} {e : ScanError EntityType}
      (next : s.next w = (.error e, t, w')) : Filling sink tx s w (.error (.scan e)) t w'
  | finished {s t : Scan EntityType Record σ} {w w' : σ} (next : s.next w = (.ok false, t, w')) :
      Filling sink tx s w (.ok 0) t w'
  | rejected {s t : Scan EntityType Record σ} {w w₁ w' : σ} {c : Scan.Candidate EntityType Record}
      {cause : String} (next : s.next w = (.ok true, t, w₁)) (current : t.current = some c)
      (index : sink.index c.value tx w₁ = (.error cause, w')) :
      Filling sink tx s w (.error (.write .index c.value.entityType c.value.id cause)) t w'
  | accepted {s t t' : Scan EntityType Record σ} {w w₁ w₂ w' : σ}
      {c : Scan.Candidate EntityType Record} {result : Except UpdateError Nat}
      (next : s.next w = (.ok true, t, w₁)) (current : t.current = some c)
      (index : sink.index c.value tx w₁ = (.ok (), w₂)) (rest : Filling sink tx t w₂ result t' w') :
      Filling sink tx s w (result.map (· + 1)) t' w'

theorem indexAll_filling {sink : SearchIndex τ σ} {tx : τ} {s t : Scan EntityType Record σ}
    {w w' : σ} {result : Except UpdateError Nat} (h : indexAll sink tx s w = (result, t, w')) :
    Filling sink tx s w result t w' := by
  generalize hleft : Scan.pending s.sources = left
  induction left using Nat.strong_induction_on generalizing s w result with
  | h left ih =>
    obtain ⟨r, t₁, w₁, hnext⟩ : ∃ r t₁ w₁, s.next w = (r, t₁, w₁) := ⟨_, _, _, rfl⟩
    rcases r with e | _ | _
    · rw [indexAll_of_error hnext] at h
      cases h
      exact .stopped hnext
    · rw [indexAll_of_finished hnext] at h
      cases h
      exact .finished hnext
    · obtain ⟨c, hcurrent⟩ : ∃ c, t₁.current = some c := by
        cases Scan.next_advance hnext
        exact ⟨_, rfl⟩
      obtain ⟨answer, w₂, hindex⟩ : ∃ answer w₂, sink.index c.value tx w₁ = (answer, w₂) :=
        ⟨_, _, rfl⟩
      cases answer with
      | error cause =>
        rw [indexAll_of_rejected hnext hcurrent hindex] at h
        cases h
        exact .rejected hnext hcurrent hindex
      | ok =>
        have hfewer := Scan.pending_next hnext
        rw [indexAll_of_accepted hnext hcurrent hindex] at h
        generalize hlater : indexAll sink tx t₁ w₂ = outcome at h
        obtain ⟨result₁, t₂, w₃⟩ := outcome
        cases h
        exact .accepted hnext hcurrent hindex (ih _ (by omega) hlater rfl)

/-- The sources of a scan stay the ones they are. -/
theorem Filling.origins {sink : SearchIndex τ σ} {tx : τ} {s t : Scan EntityType Record σ}
    {w w' : σ} {result : Except UpdateError Nat} (h : Filling sink tx s w result t w') :
    t.sources.map Scan.Source.origin = s.sources.map Scan.Source.origin := by
  induction h with
  | stopped next => exact Scan.next_origins next
  | finished next => exact Scan.next_origins next
  | rejected next => exact Scan.next_origins next
  | accepted next _ _ _ ih => exact ih.trans (Scan.next_origins next)

theorem logged_index {sink : SearchIndex τ σ} {tx : τ} {r : Record}
    {world world' : σ × List (Entry τ)} {answer : Except String Unit}
    (h : (logged sink).index r tx world = (answer, world')) :
    world'.2 = world.2 ++ [.index r tx answer] := by
  cases h
  rfl

/-- A step that returns no row writes nothing. -/
theorem awaits_of_ended {tx : τ} {s t : Scan EntityType Record (σ × List (Entry τ))}
    {world world' : σ × List (Entry τ)} {left : List (Scan.Candidate EntityType Record)}
    {r : Except (ScanError EntityType) Bool} (hawaits : s.Awaits left)
    (hnoted : ∀ x ∈ s.sources, x.Noted Entry.page) (hnext : s.next world = (r, t, world'))
    (hended : r ≠ .ok true) :
    ∃ entries, world'.2 = world.2 ++ entries ∧ t.Awaits (left.drop (writes entries).length) ∧
      ∀ r cause, (r, tx, .error cause) ∈ writes entries → t.get = .ok r := by
  obtain ⟨requests, hlog, -⟩ := hawaits.next_noted hnoted hnext
  have hpages := writes_pages (τ := τ) requests
  refine ⟨requests.map .page, hlog, ?_, ?_⟩
  · rw [hpages]
    rcases hawaits.next hnext with ⟨_, _, hr, -⟩ | ⟨-, -, ht⟩ | ⟨_, _, -, ht⟩
    · exact absurd hr hended
    · exact ht
    · exact ht
  · rw [hpages]
    exact nofun

/-- Behind the records written, whether they were accepted or not, the scan goes on. A record that
was rejected is the row returned last. -/
theorem Filling.awaits {sink : SearchIndex τ σ} {tx : τ}
    {s t : Scan EntityType Record (σ × List (Entry τ))} {world world' : σ × List (Entry τ)}
    {left : List (Scan.Candidate EntityType Record)} {result : Except UpdateError Nat}
    (h : Filling (logged sink) tx s world result t world') (hawaits : s.Awaits left)
    (hnoted : ∀ x ∈ s.sources, x.Noted Entry.page) :
    ∃ entries, world'.2 = world.2 ++ entries ∧ t.Awaits (left.drop (writes entries).length) ∧
      ∀ r cause, (r, tx, .error cause) ∈ writes entries → t.get = .ok r := by
  induction h generalizing left with
  | stopped next => exact awaits_of_ended hawaits hnoted next (by simp)
  | finished next => exact awaits_of_ended hawaits hnoted next (by simp)
  | @rejected s t world world₁ world' c cause next current index =>
    obtain ⟨requests, hlog, hend⟩ := hawaits.next_noted hnoted next
    have hwritten := writes_visit requests c.value tx (.error cause)
    refine ⟨visit requests c.value tx (.error cause), ?_, ?_, ?_⟩
    · rw [logged_index index, hlog, visit, List.append_assoc]
    · rw [hwritten]
      rcases hend with ⟨_, rest, -, -, rfl, ht, -⟩ | ⟨hr, -⟩ | ⟨_, _, _, _, hr, -⟩
      · exact ht
      · cases hr
      · cases hr
    · intro r cause' hr
      rw [hwritten, List.mem_singleton] at hr
      cases hr
      rw [Scan.get, current]
  | @accepted s t t' world world₁ world₂ world' c result next current index rest ih =>
    obtain ⟨requests, hlog, hend⟩ := hawaits.next_noted hnoted next
    rcases hend with ⟨_, left, -, -, rfl, ht, -⟩ | ⟨hr, -⟩ | ⟨_, _, _, _, hr, -⟩
    · obtain ⟨entries, hlog', ht', hrejected⟩ :=
        ih ht (Scan.noted_of_origins hnoted (Scan.next_origins next))
      have hwritten : writes (visit requests c.value tx (.ok ()) ++ entries) =
          (c.value, tx, .ok ()) :: writes entries := by
        rw [writes_append, writes_visit]
        rfl
      refine ⟨visit requests c.value tx (.ok ()) ++ entries, ?_, ?_, ?_⟩
      · rw [hlog', logged_index index, hlog, visit]
        simp only [List.append_assoc]
      · rw [hwritten]
        exact ht'
      · intro r cause hr
        rw [hwritten] at hr
        exact hrejected r cause (List.mem_of_ne_of_mem (by simp) hr)
    · cases hr
    · cases hr

/-- From a world that is good, every page is fetched and every record is accepted, and the world
stays good. -/
structure Healed (sink : SearchIndex τ σ) (tx : τ) (feeds : List (Scan.Feed EntityType Record σ))
    (good : σ → Prop) : Prop where
  page : ∀ f ∈ feeds, ∀ offset limit w, good w →
    ∃ page w', f.fetchPage offset limit w = (.ok page, w') ∧ good w'
  index : ∀ r w, good w → ∃ w', sink.index r tx w = (.ok (), w') ∧ good w'

theorem Filling.steady {sink : SearchIndex τ σ} {tx : τ} {s t : Scan EntityType Record σ}
    {w w' : σ} {left : List (Scan.Candidate EntityType Record)} {result : Except UpdateError Nat}
    {good : σ → Prop} (h : Filling sink tx s w result t w') (hawaits : s.Awaits left)
    (hsteady : ∀ x ∈ s.sources, x.Steady good)
    (hindex : ∀ r w, good w → ∃ w', sink.index r tx w = (.ok (), w') ∧ good w') (hw : good w) :
    result = .ok left.length := by
  induction h generalizing left with
  | stopped next =>
    rcases (hawaits.next_steady hsteady hw next).2 with ⟨_, _, hr, -⟩ | ⟨hr, -⟩
    · cases hr
    · cases hr
  | finished next =>
    rcases (hawaits.next_steady hsteady hw next).2 with ⟨_, _, hr, -⟩ | ⟨-, rfl⟩
    · cases hr
    · rfl
  | @rejected s t w w₁ w' c cause next current index =>
    obtain ⟨w₂, haccepted, -⟩ := hindex c.value w₁ (hawaits.next_steady hsteady hw next).1
    rw [index] at haccepted
    cases haccepted
  | @accepted s t t' w w₁ w₂ w' c result next current index rest ih =>
    obtain ⟨hw₁, hend⟩ := hawaits.next_steady hsteady hw next
    obtain ⟨w₂', haccepted, hw₂⟩ := hindex c.value w₁ hw₁
    rw [index] at haccepted
    cases haccepted
    rcases hend with ⟨_, left, -, -, rfl, ht⟩ | ⟨hr, -⟩
    · have hlater := ih ht (Scan.steady_of_origins hsteady (Scan.next_origins next)) hw₂
      rw [hlater]
      rfl
    · cases hr

section Feeds

variable {feeds : List (Scan.Feed EntityType Record σ)} {sink : SearchIndex τ σ} {tx : τ}
  {good : σ → Prop}

theorem noted_feeds (feeds : List (Scan.Feed EntityType Record σ)) :
    ∀ x ∈ feeds.map (fun f => (loggedFeed (τ := τ) f).source), x.Noted Entry.page := by
  rw [List.forall_mem_map]
  exact fun f _ => ⟨f.fetchPage, rfl⟩

theorem tags_feeds (feeds : List (Scan.Feed EntityType Record σ)) :
    (feeds.map fun f => (loggedFeed (τ := τ) f).source).map (·.tag) = feeds.map (·.tag) :=
  List.map_map

theorem awaits_inOrder {batchSize : Nat} (hsize : 0 < batchSize)
    (hdistinct : (feeds.map (·.tag)).Nodup)
    (hsorted : ∀ f ∈ feeds, f.queue.rows.Pairwise fun a b => (a.id.cmp b.id).isLE) :
    ∃ left : List (Scan.Candidate EntityType Record), left.map (·.value) = inOrder feeds ∧
      Scan.Awaits ⟨byId, batchSize, hsize, feeds.map fun f => (loggedFeed (τ := τ) f).source, none⟩
        left := by
  refine ⟨_, merge_values hdistinct hsorted, ?_⟩
  have htags : ((feeds.map (loggedFeed (τ := τ))).map (·.tag)).Nodup := by rwa [List.map_map]
  have hawaits := Scan.awaits_feeds byId hsize htags
  rwa [List.map_map, List.map_map] at hawaits

theorem Healed.steady (h : Healed sink tx feeds good) :
    ∀ x ∈ feeds.map (fun f => (loggedFeed (τ := τ) f).source),
      x.Steady fun world => good world.1 := by
  rw [List.forall_mem_map]
  intro f hf offset limit world hw
  obtain ⟨page, w', hpage, hw'⟩ := h.page f hf offset limit world.1 hw
  refine ⟨page, (w', world.2 ++ [.page ⟨f.tag, offset, limit, .ok page⟩]), ?_, hw'⟩
  have hfetch : (loggedFeed (τ := τ) f).source.fetchPage offset limit world =
      Scan.noted .page f.tag f.fetchPage offset limit world := rfl
  rw [hfetch, Scan.noted, hpage]

theorem Healed.logged (h : Healed sink tx feeds good) (r : Record) (world : σ × List (Entry τ))
    (hw : good world.1) :
    ∃ world', (Bulk.logged sink).index r tx world = (.ok (), world') ∧ good world'.1 := by
  obtain ⟨w', hindex, hw'⟩ := h.index r world.1 hw
  refine ⟨(w', world.2 ++ [.index r tx (.ok ())]), ?_, hw'⟩
  simp only [Bulk.logged, hindex]

/-- From a good world, the records that a scan of the sources awaits are written, and counted. -/
theorem Healed.writes_left (h : Healed sink tx feeds good)
    {s t : Scan EntityType Record (σ × List (Entry τ))} {w w' : σ} {log : List (Entry τ)}
    {left : List (Scan.Candidate EntityType Record)} {result : Except UpdateError Nat}
    (hawaits : s.Awaits left)
    (horigins : s.sources.map Scan.Source.origin =
      (feeds.map fun f => (loggedFeed f).source).map Scan.Source.origin)
    (hw : good w) (hrun : indexAll (Bulk.logged sink) tx s (w, []) = (result, t, w', log)) :
    result = .ok left.length ∧ writes log = (left.map (·.value)).map (accepted tx) := by
  have hall := (indexAll_filling hrun).steady hawaits (Scan.steady_of_origins h.steady horigins)
    h.logged hw
  refine ⟨hall, ?_⟩
  obtain ⟨entries, rfl, houtcome⟩ :=
    indexAll_outcome hawaits (Scan.noted_of_origins (noted_feeds feeds) horigins) hrun
  subst hall
  generalize hresult : (Except.ok left.length : Except UpdateError Nat) = result at houtcome
  cases houtcome with
  | complete written => exact written
  | rejected => cases hresult
  | unfetched => cases hresult

end Feeds

/-- Let the filling of an index from sources that are sorted by id fail, and let it be called again
on the same scan when nothing fails any more. After a page failed, the two calls write together what
one call would have written. After a record was rejected they write all but this one, which the scan
still has as the row returned last until the second call. The second call counts the records that it
has written itself. -/
theorem goes_on_behind_failure {sink sink' : SearchIndex τ σ} {tx tx' : τ} {batchSize : Nat}
    (hsize : 0 < batchSize) {feeds : List (Scan.Feed EntityType Record σ)}
    (hsorted : ∀ f ∈ feeds, f.queue.rows.Pairwise fun a b => (a.id.cmp b.id).isLE)
    {good : σ → Prop} (hgood : Healed sink' tx' feeds good)
    {s : Scan EntityType Record (σ × List (Entry τ))}
    (hs : Scan.ofSources byId batchSize (feeds.map fun f => (loggedFeed f).source) = .ok s) :
    (∀ w result t w' log, good w →
      indexAll (logged sink') tx' s (w, []) = (result, t, w', log) →
      result = .ok (inOrder feeds).length ∧ writes log = (inOrder feeds).map (accepted tx')) ∧
    ∀ w e t w₁ log₁, indexAll (logged sink) tx s (w, []) = (.error e, t, w₁, log₁) →
      ∀ w₂ result t' w₃ log₂, good w₂ →
        indexAll (logged sink') tx' t (w₂, []) = (result, t', w₃, log₂) →
        ∃ done rest, result = .ok rest.length ∧ writes log₂ = rest.map (accepted tx') ∧
          (((∃ tag cause, e = .scan (.fetch tag cause)) ∧
              writes log₁ = done.map (accepted tx) ∧ inOrder feeds = done ++ rest) ∨
            ∃ r cause, e = .write .index r.entityType r.id cause ∧
              writes log₁ = done.map (accepted tx) ++ [(r, tx, .error cause)] ∧
              inOrder feeds = done ++ r :: rest ∧ t.get = .ok r) := by
  obtain ⟨hdistinct, rfl⟩ := (Scan.ofSources_iff hsize).mp hs
  rw [tags_feeds] at hdistinct
  obtain ⟨left, hleft, hawaits⟩ := awaits_inOrder (τ := τ) hsize hdistinct hsorted
  rw [← hleft, List.length_map]
  refine ⟨fun w result t w' log hw hrun => hgood.writes_left hawaits rfl hw hrun, ?_⟩
  intro w e t w₁ log₁ hrun w₂ result t' w₃ log₂ hw hagain
  have hfilling := indexAll_filling hrun
  obtain ⟨_, rfl, houtcome⟩ := indexAll_outcome hawaits (noted_feeds feeds) hrun
  obtain ⟨_, rfl, ht, hrejected⟩ := hfilling.awaits hawaits (noted_feeds feeds)
  obtain ⟨hresult, hwritten⟩ := hgood.writes_left ht hfilling.origins hw hagain
  rw [List.map_drop] at hwritten
  rw [← List.length_map (·.value), List.map_drop] at hresult
  generalize left.map (·.value) = order at *
  generalize hfailed : (Except.error e : Except UpdateError Nat) = failed at houtcome
  cases houtcome with
  | complete => cases hfailed
  | @rejected log done rest r cause split written =>
    cases hfailed
    have hlength : (writes log₁).length = done.length + 1 := by
      rw [written, List.length_append, List.length_map]
      rfl
    rw [hlength, split, List.drop_length_add_append] at hresult hwritten
    refine ⟨done, rest, hresult, hwritten, Or.inr ⟨r, cause, rfl, written, split, ?_⟩⟩
    apply hrejected r cause
    rw [written]
    exact List.mem_append_right _ List.mem_cons_self
  | @unfetched log done rest tag offset cause split left written =>
    cases hfailed
    have hdone : writes (log ++ [.page ⟨tag, offset, batchSize, .error cause⟩]) =
        done.map (accepted tx) := by
      rw [writes_append, written]
      exact List.append_nil _
    rw [hdone, split, List.length_map, List.drop_left] at hresult hwritten
    exact ⟨done, rest, hresult, hwritten, Or.inl ⟨⟨tag, cause, rfl⟩, hdone, split⟩⟩

namespace Sample

/-- The call with the number `down` fails; the world counts the calls. -/
def unlessDown {α : Type} (down : Nat) (answer : α) (calls : Nat) : Except String α × Nat :=
  (if calls = down then .error "down" else .ok answer, calls + 1)

def interruptedFeed (down : Nat) (type : EntityType) (rows : List Record) (count : UInt64)
    (count_le : count.toNat ≤ rows.length) : Scan.Feed EntityType Record Nat where
  tag := type
  rows := rows
  count := count
  fetchPage offset limit := unlessDown down ((rows.drop offset).take limit)
  count_le := count_le
  page := by
    intro offset limit w page w' hoffset hlimit h
    obtain ⟨hanswer, -⟩ := Prod.mk.inj h
    split at hanswer
    · cases hanswer
    · cases hanswer
      refine ⟨?_, List.take_prefix _ _⟩
      rw [ne_eq, List.take_eq_nil_iff, List.drop_eq_nil_iff]
      omega

def interrupted (down : Nat) : List (Scan.Feed EntityType Record Nat) :=
  [interruptedFeed down ⟨"Place"⟩ ([1, 4, 5, 9].map (record "Place")) 3 (by decide)]

def interruptedIndex (down : Nat) : SearchIndex Nat Nat where
  index _ _ := unlessDown down ()
  update _ _ := unlessDown down ()
  delete _ _ _ _ := unlessDown down ()
  findRootIds _ _ _ := unlessDown down []

theorem healed_interrupted (down : Nat) :
    Healed (interruptedIndex down) 1 (interrupted down) (down < ·) := by
  have hgood {α : Type} (answer : α) (w : Nat) (hw : down < w) :
      ∃ w', unlessDown down answer w = (.ok answer, w') ∧ down < w' :=
    ⟨w + 1, by rw [unlessDown, if_neg (by omega)], by omega⟩
  constructor
  · intro f hf offset limit w hw
    rw [List.mem_singleton.mp hf]
    exact ⟨_, hgood _ w hw⟩
  · exact fun _ w hw => hgood () w hw

def start (down : Nat) : Scan EntityType Record (Nat × List (Entry Nat)) :=
  ⟨byId, 2, Nat.two_pos, (interrupted down).map fun f => (loggedFeed f).source, none⟩

def firstCall (down : Nat) :=
  indexAll (logged (interruptedIndex down)) 1 (start down) (0, [])

def secondCall (down : Nat) :=
  indexAll (logged (interruptedIndex down)) 1 (firstCall down).2.1 ((firstCall down).2.2.1, [])

/-- One call from a world in which nothing fails any more. -/
def unbroken (down : Nat) :=
  indexAll (logged (interruptedIndex down)) 1 (start down) (down + 1, [])

def delivered (log : List (Entry Nat)) : List EntityId :=
  ((writes log).filter fun write => write.2.2 = .ok ()).map (·.1.id)

end Sample

/-- The second page fails. -/
theorem goes_on_behind_failure_page :
    Scan.ofSources byId 2 ((Sample.interrupted 3).map fun f => (loggedFeed f).source) =
        .ok (Sample.start 3) ∧
      (Sample.firstCall 3).1 = .error (.scan (.fetch ⟨"Place"⟩ "down")) ∧
      (Sample.secondCall 3).1 = .ok (writes (Sample.secondCall 3).2.2.2).length ∧
      writes (Sample.firstCall 3).2.2.2 ++ writes (Sample.secondCall 3).2.2.2 =
        (inOrder (Sample.interrupted 3)).map (accepted 1) := by
  have hs : Scan.ofSources byId 2 ((Sample.interrupted 3).map fun f => (loggedFeed f).source) =
      .ok (Sample.start 3) := rfl
  have hsorted : ∀ f ∈ Sample.interrupted 3,
      f.queue.rows.Pairwise fun a b => (a.id.cmp b.id).isLE := by
    simp only [Sample.interrupted, List.forall_mem_cons]
    exact ⟨by decide, List.forall_mem_nil _⟩
  have hfirst : (Sample.firstCall 3).1 = .error (.scan (.fetch ⟨"Place"⟩ "down")) := by
    decide +kernel
  have hgood : 3 < (Sample.firstCall 3).2.2.1 := by decide +kernel
  have hrun : Sample.firstCall 3 = (.error (.scan (.fetch ⟨"Place"⟩ "down")),
      (Sample.firstCall 3).2.1, (Sample.firstCall 3).2.2.1, (Sample.firstCall 3).2.2.2) :=
    Prod.ext hfirst rfl
  have hagain : Sample.secondCall 3 = ((Sample.secondCall 3).1, (Sample.secondCall 3).2.1,
      (Sample.secondCall 3).2.2.1, (Sample.secondCall 3).2.2.2) := rfl
  obtain ⟨-, hcalls⟩ :=
    goes_on_behind_failure (by decide) hsorted (Sample.healed_interrupted 3) hs
  obtain ⟨done, rest, hresult, hwritten, hend⟩ := hcalls _ _ _ _ _ hrun _ _ _ _ _ hgood hagain
  refine ⟨hs, hfirst, ?_, ?_⟩
  · rw [hwritten, List.length_map]
    exact hresult
  · rcases hend with ⟨-, hdone, hsplit⟩ | ⟨_, _, herror, -⟩
    · rw [hwritten, hdone, hsplit, List.map_append]
    · cases herror

/-- The record that was rejected is not written by the second call. -/
theorem rejected_record_skipped :
    Scan.ofSources byId 2 ((Sample.interrupted 2).map fun f => (loggedFeed f).source) =
        .ok (Sample.start 2) ∧
      (Sample.firstCall 2).1 = .error (.write .index ⟨"Place"⟩ (.int 4) "down") ∧
      Healed (Sample.interruptedIndex 2) 1 (Sample.interrupted 2) (2 < ·) ∧
      2 < (Sample.firstCall 2).2.2.1 ∧ (Sample.secondCall 2).1 = .ok 1 ∧
      Sample.delivered (Sample.unbroken 2).2.2.2 = [.int 1, .int 4, .int 5] ∧
      Sample.delivered ((Sample.firstCall 2).2.2.2 ++ (Sample.secondCall 2).2.2.2) =
        [.int 1, .int 5] :=
  ⟨rfl, by decide +kernel, Sample.healed_interrupted 2, by decide +kernel, by decide +kernel,
    by decide +kernel, by decide +kernel⟩

end Bulk

end SearchSync
