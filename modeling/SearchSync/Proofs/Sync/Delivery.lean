import SearchSync.Proofs.Entity.Order
import SearchSync.Proofs.Scan.Journal
import SearchSync.Proofs.Scan.Retry
import SearchSync.Proofs.Scan.Sorting

/-!
# Filling an index

What an index has received when it was filled from a merged scan. The pages that are asked for and
the records that are written are entered in one log. Up to the page that fails or the record that is
rejected, the records of the log are the announced ones in the order of their ids.
-/
namespace SearchSync

namespace Scan

variable {κ α σ ε : Type} [DecidableEq κ]

/-- While a source expects rows there are rows to come. -/
theorem Awaits.ne_nil {s : Scan κ α σ} {left : List (Candidate κ α)} (h : s.Awaits left)
    {x : Source κ α σ} (hx : x ∈ s.sources) (hexpected : x.remaining ≠ 0) : left ≠ [] := by
  obtain ⟨queues, hfollows, -, hleft⟩ := h
  obtain ⟨before, after, hsplit⟩ := List.append_of_mem hx
  rw [hsplit] at hfollows
  obtain ⟨earlier, q, later, rfl, -, ⟨f, hstands⟩, -⟩ := forall₂_split hfollows
  rintro rfl
  have hnone : first? s.comparator (earlier ++ q :: later) = none := by
    by_contra hsome
    obtain ⟨c, hc⟩ := Option.ne_none_iff_exists'.mp hsome
    rw [merge_of_some hc] at hleft
    cases hleft
  have hempty : q.rows = [] := by
    have hcandidates := List.flatMap_eq_nil_iff.mp (candidates_of_first?_eq_none hnone) q
      (List.mem_append_right earlier List.mem_cons_self)
    exact List.map_eq_nil_iff.mp hcandidates
  have hcounted := hstands.counted
  have hle := f.count_le
  have hsome := Source.remaining_ne_zero hexpected
  rw [hstands.rows_eq, List.take_eq_nil_iff, List.drop_eq_nil_iff] at hempty
  omega

/-- What a step of a scan adds to the log: answered requests, or at last the one that failed. -/
theorem Awaits.next_noted {note : Request κ α → ε} {s t : Scan κ α (σ × List ε)} {w w' : σ}
    {log log' : List ε} {left : List (Candidate κ α)} (h : s.Awaits left)
    (hnoted : ∀ x ∈ s.sources, x.Noted note) {r : Except (ScanError κ) Bool}
    (hnext : s.next (w, log) = (r, t, w', log')) :
    ∃ requests : List (Request κ α), log' = log ++ requests.map note ∧
      ((∃ c rest, r = .ok true ∧ t.current = some c ∧ left = c :: rest ∧ t.Awaits rest ∧
          ∀ q ∈ requests, q.Answered) ∨
        (r = .ok false ∧ left = [] ∧ ∀ q ∈ requests, q.Answered) ∨
        ∃ tag cause earlier offset, r = .error (.fetch tag cause) ∧ left ≠ [] ∧
          requests = earlier ++ [⟨tag, offset, s.batchSize, .error cause⟩] ∧
          ∀ q ∈ earlier, q.Answered) := by
  obtain ⟨stop, sources, hrefill, hend⟩ := next_turn hnext
  obtain ⟨requests, hlog, hrefilling⟩ := refillAll_noted hnoted hrefill
  refine ⟨requests, hlog, ?_⟩
  rcases h.next hnext with ⟨c, rest, rfl, hcurrent, hleft, ht⟩ | ⟨rfl, hleft, -⟩ |
    ⟨tag, cause, rfl, -⟩
  · cases stop with
    | some e => cases hend.1
    | none => exact Or.inl ⟨c, rest, rfl, hcurrent, hleft, ht, hrefilling.answered⟩
  · cases stop with
    | some e => cases hend.1
    | none => exact Or.inr (Or.inl ⟨rfl, hleft, hrefilling.answered⟩)
  · cases stop with
    | some e =>
      cases hend.1
      obtain ⟨earlier, offset, rfl, hanswered⟩ := hrefilling.failed_last
      obtain ⟨x, hx, -, -, -, -, hexpected⟩ :=
        hrefilling.mem (List.mem_append_right earlier List.mem_cons_self)
      have hleft := h.ne_nil hx hexpected
      exact Or.inr (Or.inr ⟨tag, cause, earlier, offset, rfl, hleft, rfl, hanswered⟩)
    | none =>
      obtain ⟨_, _, hturn, -⟩ := hend
      cases hturn

end Scan

namespace Bulk

variable {τ σ : Type}

section Steps

variable {sink : SearchIndex τ σ} {tx : τ} {s t : Scan EntityType Record σ} {w w' w'' : σ}
  {c : Scan.Candidate EntityType Record}

theorem indexAll_of_error {e : ScanError EntityType} (h : s.next w = (.error e, t, w')) :
    indexAll sink tx s w = (.error (.scan e), t, w') := by
  unfold indexAll
  split <;> rename_i hnext <;> rw [h] at hnext <;> cases hnext
  rfl

theorem indexAll_of_finished (h : s.next w = (.ok false, t, w')) :
    indexAll sink tx s w = (.ok 0, t, w') := by
  unfold indexAll
  split <;> rename_i hnext <;> rw [h] at hnext <;> cases hnext
  rfl

theorem indexAll_of_rejected (h : s.next w = (.ok true, t, w')) (hcurrent : t.current = some c)
    {cause : String} (hindex : sink.index c.value tx w' = (.error cause, w'')) :
    indexAll sink tx s w =
      (.error (.write .index c.value.entityType c.value.id cause), t, w'') := by
  unfold indexAll
  split <;> rename_i hnext <;> rw [h] at hnext <;> cases hnext
  simp only [Scan.get, hcurrent, hindex]

theorem indexAll_of_accepted (h : s.next w = (.ok true, t, w')) (hcurrent : t.current = some c)
    (hindex : sink.index c.value tx w' = (.ok (), w'')) :
    indexAll sink tx s w =
      ((indexAll sink tx t w'').1.map (· + 1), (indexAll sink tx t w'').2) := by
  conv_lhs => unfold indexAll
  split <;> rename_i hnext <;> rw [h] at hnext <;> cases hnext
  simp only [Scan.get, hcurrent, hindex]
  generalize indexAll sink tx t w'' = outcome
  obtain ⟨_ | _, _⟩ := outcome <;> rfl

end Steps

/-- What is entered in the log of a scan and an index. -/
inductive Entry (τ : Type)
  | page (request : Scan.Request EntityType Record)
  | index (record : Record) (tx : τ) (answer : Except String Unit)

namespace Entry

/-- The record written, the transaction and the answer. -/
def write? : Entry τ → Option (Record × τ × Except String Unit)
  | .page _ => none
  | .index record tx answer => some (record, tx, answer)

end Entry

def writes (log : List (Entry τ)) : List (Record × τ × Except String Unit) :=
  log.filterMap Entry.write?

/-- The write of a record that was accepted. -/
def accepted (tx : τ) (r : Record) : Record × τ × Except String Unit := (r, tx, .ok ())

def Fetched (log : List (Entry τ)) : Prop := ∀ q, .page q ∈ log → q.Answered

/-- The entries for one record: the pages asked for before it came, and its write. -/
def visit (requests : List (Scan.Request EntityType Record)) (r : Record) (tx : τ)
    (answer : Except String Unit) : List (Entry τ) :=
  requests.map .page ++ [.index r tx answer]

def unlogged {α : Type} (action : σ → Except String α × σ) (w : σ × List (Entry τ)) :
    Except String α × (σ × List (Entry τ)) :=
  match action w.1 with
  | (answer, world) => (answer, world, w.2)

def logged (sink : SearchIndex τ σ) : SearchIndex τ (σ × List (Entry τ)) where
  index r tx w :=
    match sink.index r tx w.1 with
    | (answer, world) => (answer, world, w.2 ++ [.index r tx answer])
  update r tx := unlogged (sink.update r tx)
  delete type roots id tx := unlogged (sink.delete type roots id tx)
  findRootIds root fields id := unlogged (sink.findRootIds root fields id)

def loggedFeed (f : Scan.Feed EntityType Record σ) :
    Scan.Feed EntityType Record (σ × List (Entry τ)) :=
  f.noted .page

/-- How filling an index with records in some order ends, and what is in the log then. -/
inductive Outcome (limit : Nat) (tx : τ) (order : List Record) :
    Except UpdateError Nat → List (Entry τ) → Prop
  | complete {log : List (Entry τ)} (written : writes log = order.map (accepted tx))
      (fetched : Fetched log) : Outcome limit tx order (.ok order.length) log
  | rejected {log : List (Entry τ)} {done rest : List Record} {r : Record} {cause : String}
      (split : order = done ++ r :: rest)
      (written : writes log = done.map (accepted tx) ++ [(r, tx, .error cause)])
      (fetched : Fetched log) :
      Outcome limit tx order (.error (.write .index r.entityType r.id cause)) log
  | unfetched {log : List (Entry τ)} {done rest : List Record} {tag : EntityType} {offset : Nat}
      {cause : String} (split : order = done ++ rest) (left : rest ≠ [])
      (written : writes log = done.map (accepted tx)) (fetched : Fetched log) :
      Outcome limit tx order (.error (.scan (.fetch tag cause)))
        (log ++ [.page ⟨tag, offset, limit, .error cause⟩])

section Log

variable {log later : List (Entry τ)} {requests : List (Scan.Request EntityType Record)} {tx : τ}
  {limit : Nat} {order : List Record} {result : Except UpdateError Nat}

theorem writes_append (log later : List (Entry τ)) :
    writes (log ++ later) = writes log ++ writes later :=
  List.filterMap_append

theorem writes_pages (requests : List (Scan.Request EntityType Record)) :
    writes (requests.map (.page : _ → Entry τ)) = [] := by
  rw [writes, List.filterMap_map, List.filterMap_eq_nil_iff]
  exact fun _ _ => rfl

theorem fetched_append (h : Fetched log) (hlater : Fetched later) : Fetched (log ++ later) := by
  intro q hq
  rcases List.mem_append.mp hq with hq | hq
  · exact h q hq
  · exact hlater q hq

theorem fetched_pages (h : ∀ q ∈ requests, q.Answered) :
    Fetched (requests.map (.page : _ → Entry τ)) := by
  intro q hq
  obtain ⟨_, hmem, heq⟩ := List.mem_map.mp hq
  cases heq
  exact h q hmem

theorem writes_visit (requests : List (Scan.Request EntityType Record)) (r : Record) (tx : τ)
    (answer : Except String Unit) : writes (visit requests r tx answer) = [(r, tx, answer)] := by
  rw [visit, writes_append, writes_pages]
  rfl

theorem fetched_visit (h : ∀ q ∈ requests, q.Answered) (r : Record) (tx : τ)
    (answer : Except String Unit) : Fetched (visit requests r tx answer) := by
  refine fetched_append (fetched_pages h) fun q hq => ?_
  cases List.mem_singleton.mp hq

/-- Entries before the others: those of the records already written, and of answered pages. -/
theorem Outcome.prepend (h : Outcome limit tx order result later) {done : List Record}
    (hwritten : writes log = done.map (accepted tx)) (hfetched : Fetched log) :
    Outcome limit tx (done ++ order) (result.map (· + done.length)) (log ++ later) := by
  cases h with
  | complete written fetched =>
    have hlength : order.length + done.length = (done ++ order).length := by
      rw [List.length_append, Nat.add_comm]
    rw [Except.map, hlength]
    refine .complete ?_ (fetched_append hfetched fetched)
    rw [writes_append, hwritten, written, List.map_append]
  | rejected split written fetched =>
    refine .rejected (by rw [split, List.append_assoc]) ?_ (fetched_append hfetched fetched)
    rw [writes_append, hwritten, written, List.map_append, List.append_assoc]
  | unfetched split left written fetched =>
    rw [← List.append_assoc]
    refine .unfetched (by rw [split, List.append_assoc]) left ?_ (fetched_append hfetched fetched)
    rw [writes_append, hwritten, written, List.map_append]

end Log

/-- Filling an index from a scan, wherever the scan stands. -/
theorem indexAll_outcome {sink : SearchIndex τ σ} {tx : τ}
    {s t : Scan EntityType Record (σ × List (Entry τ))} {w w' : σ} {log log' : List (Entry τ)}
    {left : List (Scan.Candidate EntityType Record)} {result : Except UpdateError Nat}
    (h : s.Awaits left) (hnoted : ∀ x ∈ s.sources, x.Noted Entry.page)
    (hrun : indexAll (logged sink) tx s (w, log) = (result, t, w', log')) :
    ∃ entries, log' = log ++ entries ∧
      Outcome s.batchSize tx (left.map (·.value)) result entries := by
  induction left generalizing s w log result with
  | nil =>
    obtain ⟨r, t₁, ⟨w₁, log₁⟩, hnext⟩ : ∃ r t₁ world, s.next (w, log) = (r, t₁, world) :=
      ⟨_, _, _, rfl⟩
    obtain ⟨requests, rfl, hend⟩ := h.next_noted hnoted hnext
    rcases hend with ⟨_, _, -, -, hleft, -⟩ | ⟨rfl, -, hanswered⟩ | ⟨_, _, _, _, -, hleft, -⟩
    · cases hleft
    · rw [indexAll_of_finished hnext] at hrun
      cases hrun
      exact ⟨_, rfl, .complete (writes_pages requests) (fetched_pages hanswered)⟩
    · exact absurd rfl hleft
  | cons c rest ih =>
    obtain ⟨r, t₁, ⟨w₁, log₁⟩, hnext⟩ : ∃ r t₁ world, s.next (w, log) = (r, t₁, world) :=
      ⟨_, _, _, rfl⟩
    have hsize := Scan.next_batchSize hnext
    have hnoted₁ := Scan.noted_of_origins hnoted (Scan.next_origins hnext)
    obtain ⟨requests, rfl, hend⟩ := h.next_noted hnoted hnext
    rcases hend with ⟨_, _, rfl, hcurrent, hleft, ht, hanswered⟩ | ⟨-, hleft, -⟩ |
      ⟨tag, cause, earlier, offset, rfl, -, rfl, hanswered⟩
    · cases hleft
      obtain ⟨answer, w₂, hindex⟩ : ∃ answer w₂, sink.index c.value tx w₁ = (answer, w₂) :=
        ⟨_, _, rfl⟩
      have hlogged : (logged sink).index c.value tx (w₁, log ++ requests.map .page) =
          (answer, w₂, log ++ visit requests c.value tx answer) := by
        simp only [logged, hindex, visit, List.append_assoc]
      have hwritten := writes_visit requests c.value tx answer
      have hfetched := fetched_visit hanswered c.value tx answer
      cases answer with
      | error cause =>
        rw [indexAll_of_rejected hnext hcurrent hlogged] at hrun
        cases hrun
        have hsplit : (c :: rest).map (·.value) = [] ++ c.value :: rest.map (·.value) := rfl
        exact ⟨_, rfl, .rejected hsplit hwritten hfetched⟩
      | ok =>
        rw [indexAll_of_accepted hnext hcurrent hlogged] at hrun
        generalize hlater : indexAll (logged sink) tx t₁ _ = outcome at hrun
        obtain ⟨result₁, t₂, w₃, log₃⟩ := outcome
        cases hrun
        obtain ⟨entries, rfl, houtcome⟩ := ih ht hnoted₁ hlater
        have hdone : writes (visit requests c.value tx (.ok ())) = [c.value].map (accepted tx) :=
          hwritten
        refine ⟨_, List.append_assoc _ _ _, ?_⟩
        rw [← hsize]
        exact houtcome.prepend hdone hfetched
    · cases hleft
    · rw [indexAll_of_error hnext] at hrun
      cases hrun
      have hsplit : (c :: rest).map (·.value) = [] ++ (c :: rest).map (·.value) := rfl
      refine ⟨earlier.map .page ++ [.page ⟨tag, offset, s.batchSize, .error cause⟩], ?_,
        .unfetched hsplit (List.cons_ne_nil _ _) (writes_pages earlier) (fetched_pages hanswered)⟩
      rw [List.map_append, List.map_singleton]

/-- Where no page fails and every record is accepted, all records of the scan are counted. -/
theorem indexAll_ok {sink : SearchIndex τ σ} {tx : τ}
    (haccepts : ∀ r w, ∃ w', sink.index r tx w = (.ok (), w')) {s : Scan EntityType Record σ}
    {queues : List (Scan.Queue EntityType Record)}
    (h : List.Forall₂ Scan.Tracks s.sources queues) (hdistinct : (queues.map (·.source)).Nodup)
    (w : σ) : (indexAll sink tx s w).1 = .ok (Scan.merge s.comparator queues).length := by
  generalize hcomparator : s.comparator = comparator
  fun_induction Scan.merge comparator queues generalizing s w with
  | case1 queues hfirst =>
    have hnext := Scan.next_ok h hdistinct w
    rw [hcomparator, hfirst] at hnext
    obtain ⟨t, w', hnext⟩ := hnext
    rw [indexAll_of_finished hnext]
    rfl
  | case2 queues c hfirst ih =>
    have hnext := Scan.next_ok h hdistinct w
    rw [hcomparator, hfirst] at hnext
    obtain ⟨t, w', hnext, hcurrent, hsame, htracks⟩ := hnext
    obtain ⟨w'', hindex⟩ := haccepts c.value w'
    rw [← Scan.map_source_pop c.source] at hdistinct
    rw [indexAll_of_accepted hnext hcurrent hindex, ih htracks hdistinct w'' hsame]
    rfl

section Order

variable {feeds : List (Scan.Feed EntityType Record σ)}

def announced (feeds : List (Scan.Feed EntityType Record σ)) : List Record :=
  feeds.flatMap fun f => f.queue.rows

def inOrder (feeds : List (Scan.Feed EntityType Record σ)) : List Record :=
  (announced feeds).mergeSort fun a b => (a.id.cmp b.id).isLE

private theorem idLE_trans (a b c : Record) (hab : (a.id.cmp b.id).isLE)
    (hbc : (b.id.cmp c.id).isLE) : (a.id.cmp c.id).isLE :=
  EntityId.cmp_isLE_trans _ _ _ hab hbc

private theorem idLE_total (a b : Record) : (a.id.cmp b.id).isLE || (b.id.cmp a.id).isLE := by
  rw [EntityId.cmp_swap b.id a.id]
  cases a.id.cmp b.id <;> rfl

theorem inOrder_sorted (feeds : List (Scan.Feed EntityType Record σ)) :
    (inOrder feeds).Pairwise fun a b => (a.id.cmp b.id).isLE :=
  List.pairwise_mergeSort idLE_trans idLE_total _

/-- Records with one id stay in the order in which they were announced. -/
theorem inOrder_filter (feeds : List (Scan.Feed EntityType Record σ)) (id : EntityId) :
    (inOrder feeds).filter (·.id = id) = (announced feeds).filter (·.id = id) := by
  apply Scan.filter_mergeSort idLE_trans idLE_total
  rw [List.pairwise_filter]
  refine List.pairwise_of_forall fun a b ha hb => ?_
  have hsame : a.id = b.id := (of_decide_eq_true ha).trans (of_decide_eq_true hb).symm
  rw [(EntityId.cmp_eq_iff a.id b.id).mpr hsame]
  rfl

theorem inOrder_length (feeds : List (Scan.Feed EntityType Record σ)) :
    (inOrder feeds).length = (feeds.map fun f => f.count.toNat).sum := by
  rw [inOrder, List.length_mergeSort, announced, List.length_flatMap]
  congr 1
  apply List.map_congr_left
  intro f _
  have hle := f.count_le
  simp only [Scan.Feed.queue, List.length_take]
  omega

/-- What a scan of sorted sources reads. -/
theorem merge_values (hdistinct : (feeds.map (·.tag)).Nodup)
    (hsorted : ∀ f ∈ feeds, f.queue.rows.Pairwise fun a b => (a.id.cmp b.id).isLE) :
    (Scan.merge byId (feeds.map (·.queue))).map (·.value) = inOrder feeds := by
  have hqueues : ∀ q ∈ feeds.map (·.queue), q.Sorted byId := by
    intro q hq
    obtain ⟨f, hf, rfl⟩ := List.mem_map.mp hq
    exact List.pairwise_map.mpr (hsorted f hf)
  have hvalues : ((feeds.map (·.queue)).flatMap Scan.Queue.candidates).map (·.value) =
      announced feeds := by
    rw [List.map_flatMap, List.flatMap_map, announced]
    congr 1
    funext f
    rw [Scan.Queue.candidates, List.map_map]
    exact List.map_id _
  rw [Scan.merge_eq_mergeSort hqueues (by rwa [List.map_map]), inOrder, ← hvalues]
  exact List.map_mergeSort fun _ _ _ _ => rfl

end Order

/-- An index that is filled from sources of rows that are sorted by id receives their announced
records in the order of the ids, each once and those with one id in the order of the sources. If all
goes well these are all of them; else they are those before the record that is rejected, or before
the page that fails, and the error says which it was. -/
theorem delivered_once_in_order {sink : SearchIndex τ σ} {tx : τ} {batchSize : Nat}
    (hsize : 0 < batchSize) {feeds : List (Scan.Feed EntityType Record σ)}
    (hdistinct : (feeds.map (·.tag)).Nodup)
    (hsorted : ∀ f ∈ feeds, f.queue.rows.Pairwise fun a b => (a.id.cmp b.id).isLE) :
    (inOrder feeds).Perm (announced feeds) ∧
    ((inOrder feeds).Pairwise fun a b => (a.id.cmp b.id).isLE) ∧
    (∀ id, (inOrder feeds).filter (·.id = id) = (announced feeds).filter (·.id = id)) ∧
    ∃ s, Scan.ofSources byId batchSize (feeds.map fun f => (loggedFeed f).source) = .ok s ∧
      ∀ w result t w' log, indexAll (logged sink) tx s (w, []) = (result, t, w', log) →
        Outcome batchSize tx (inOrder feeds) result log ∧
        ((∀ f ∈ feeds, f.Reliable) → (∀ r w, ∃ w', sink.index r tx w = (.ok (), w')) →
          result = .ok (feeds.map fun f => f.count.toNat).sum) := by
  let watched : List (Scan.Feed EntityType Record (σ × List (Entry τ))) := feeds.map loggedFeed
  have hqueues : watched.map (·.queue) = feeds.map (·.queue) := List.map_map
  have htags : (watched.map (·.tag)).Nodup := by
    rwa [List.map_map]
  have hsources : watched.map (·.source) = feeds.map fun f => (loggedFeed f).source := List.map_map
  rw [← hsources]
  refine ⟨List.mergeSort_perm _ _, inOrder_sorted feeds, inOrder_filter feeds,
    ⟨byId, batchSize, hsize, watched.map (·.source), none⟩, ?_, ?_⟩
  · apply Scan.ofSources_ok
    rwa [List.map_map]
  · intro w result t w' log hrun
    constructor
    · have hawaits := Scan.awaits_feeds byId hsize htags
      have hnoted : ∀ x ∈ watched.map (·.source), x.Noted Entry.page := by
        rw [hsources]
        intro x hx
        obtain ⟨f, -, rfl⟩ := List.mem_map.mp hx
        exact ⟨f.fetchPage, rfl⟩
      obtain ⟨entries, rfl, houtcome⟩ := indexAll_outcome hawaits hnoted hrun
      rwa [hqueues, merge_values hdistinct hsorted] at houtcome
    · intro hreliable haccepts
      have hlogged : ∀ r w, ∃ w', (logged sink).index r tx w = (.ok (), w') := by
        intro r w
        obtain ⟨w', hindex⟩ := haccepts r w.1
        exact ⟨(w', w.2 ++ [.index r tx (.ok ())]), by simp only [logged, hindex]⟩
      have hwatched : ∀ f ∈ watched, f.Reliable :=
        List.forall_mem_map.mpr fun f hf => Scan.Feed.noted_reliable (hreliable f hf)
      have hall := indexAll_ok hlogged (s := ⟨byId, batchSize, hsize, watched.map (·.source), none⟩)
        (Scan.tracks_feeds hwatched) (by rwa [List.map_map]) (w, [])
      have hlength : (Scan.merge byId (watched.map (·.queue))).length = (inOrder feeds).length := by
        rw [← merge_values hdistinct hsorted, List.length_map, hqueues]
      rw [hrun, hlength, inOrder_length] at hall
      exact hall

namespace Sample

def record (type : String) (id : Int64) : Record := ⟨⟨type⟩, .int id, []⟩

/-- The last record of the second source is not announced. -/
def tables : List (Scan.Feed EntityType Record Unit) :=
  [.plain ⟨"Place"⟩ ([1, 4, 5].map (record "Place")) 3 (by decide),
    .plain ⟨"Sorcerer"⟩ ([2, 4, 9].map (record "Sorcerer")) 2 (by decide)]

def accepting : SearchIndex Nat Unit where
  index _ _ w := (.ok (), w)
  update _ _ w := (.ok (), w)
  delete _ _ _ _ w := (.ok (), w)
  findRootIds _ _ _ w := (.ok [], w)

end Sample

theorem delivered_once_in_order_tables :
    ∃ s, Scan.ofSources byId 2 (Sample.tables.map fun f => (loggedFeed f).source) = .ok s ∧
      ∀ result t w log, indexAll (logged Sample.accepting) 1 s ((), []) = (result, t, w, log) →
        result = .ok 5 ∧
        (writes log).map (fun write => (write.1.entityType, write.1.id, write.2.1)) =
          [(⟨"Place"⟩, .int 1, 1), (⟨"Sorcerer"⟩, .int 2, 1), (⟨"Place"⟩, .int 4, 1),
            (⟨"Sorcerer"⟩, .int 4, 1), (⟨"Place"⟩, .int 5, 1)] := by
  have hdistinct : (Sample.tables.map (·.tag)).Nodup := by decide
  have hsorted : ∀ f ∈ Sample.tables,
      f.queue.rows.Pairwise fun a b => (a.id.cmp b.id).isLE := by
    simp only [Sample.tables, List.forall_mem_cons]
    exact ⟨by decide, by decide, List.forall_mem_nil _⟩
  have hreliable : ∀ f ∈ Sample.tables, f.Reliable := by
    simp only [Sample.tables, List.forall_mem_cons]
    exact ⟨Scan.Feed.plain_reliable _ _ _ _, Scan.Feed.plain_reliable _ _ _ _,
      List.forall_mem_nil _⟩
  obtain ⟨-, -, -, s, hs, hrun⟩ :=
    @delivered_once_in_order Nat Unit Sample.accepting 1 2 (by decide) _ hdistinct hsorted
  refine ⟨s, hs, fun result t w log hindexed => ?_⟩
  obtain ⟨houtcome, hall⟩ := hrun () result t w log hindexed
  have hresult : result = .ok 5 := hall hreliable fun _ _ => ⟨(), rfl⟩
  refine ⟨hresult, ?_⟩
  cases houtcome with
  | complete written =>
    rw [written, ← merge_values hdistinct hsorted, List.map_map, List.map_map]
    decide +kernel
  | rejected => cases hresult
  | unfetched => cases hresult

end Bulk

end SearchSync
