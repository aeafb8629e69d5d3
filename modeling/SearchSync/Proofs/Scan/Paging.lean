import Mathlib.Data.List.Forall2
import Mathlib.Data.List.Nodup
import SearchSync.Proofs.Scan.Merge

/-!
# Pages are not seen

A source stands for the queue of its rows that are still to come: what it has buffered begins that
queue, and its counters say where the rest is to be found. Refilling it changes nothing of the
queue and taking a row takes the queue's first, so a scan that is read to its end returns what
merging the queues returns, whatever its pages were.
-/
namespace SearchSync.Scan

variable {κ α σ : Type}

def ofSources [DecidableEq κ] (comparator : Comparator κ α) (batchSize : Nat)
    (sources : List (Source κ α σ)) : Except (ScanError κ) (Scan κ α σ) := do
  let s ← withBatchSize comparator batchSize
  sources.foldlM add s

def readAll (s : Scan κ α σ) (w : σ) : Except (ScanError κ) (List (Candidate κ α)) :=
  match _step : s.next w with
  | (.error e, _, _) => .error e
  | (.ok false, _, _) => .ok []
  | (.ok true, s, w) => do
    let source ← s.currentSource
    let value ← s.get
    let rest ← readAll s w
    return ⟨source, value⟩ :: rest
  termination_by pending s.sources
  decreasing_by
    have := pending_next _step
    omega

theorem readAll_of_none {s t : Scan κ α σ} {w w' : σ} (h : s.next w = (.ok false, t, w')) :
    s.readAll w = .ok [] := by
  rw [readAll]
  split
  · rename_i hnext
    rw [h] at hnext
    cases hnext
  · rfl
  · rename_i hnext
    rw [h] at hnext
    cases hnext

theorem readAll_of_some {s t : Scan κ α σ} {w w' : σ} {c : Candidate κ α}
    (h : s.next w = (.ok true, t, w')) (hcurrent : t.current = some c) :
    s.readAll w = (t.readAll w').map (c :: ·) := by
  rw [readAll]
  split
  · rename_i hnext
    rw [h] at hnext
    cases hnext
  · rename_i hnext
    rw [h] at hnext
    cases hnext
  · rename_i hnext
    rw [h] at hnext
    cases hnext
    simp only [currentSource, get, hcurrent]
    cases t.readAll w' <;> rfl

theorem foldlM_add [DecidableEq κ] {s : Scan κ α σ} {sources : List (Source κ α σ)}
    (h : ((s.sources ++ sources).map (·.tag)).Nodup) :
    sources.foldlM add s = .ok { s with sources := s.sources ++ sources } := by
  induction sources generalizing s with
  | nil =>
    rw [List.append_nil]
    rfl
  | cons source rest ih =>
    have hnew : source.tag ∉ s.sources.map (·.tag) := by
      intro hmem
      rw [List.map_append, List.map_cons, List.nodup_append] at h
      exact h.2.2 _ hmem _ List.mem_cons_self rfl
    have hassoc : s.sources ++ source :: rest = (s.sources ++ [source]) ++ rest := by simp
    rw [hassoc] at h ⊢
    rw [List.foldlM_cons, add, if_neg hnew]
    exact ih h

theorem withBatchSize_ok {comparator : Comparator κ α} {batchSize : Nat} {s : Scan κ α σ}
    (h : withBatchSize comparator batchSize = .ok s) :
    s.sources = [] ∧ s.batchSize = batchSize := by
  unfold withBatchSize at h
  split at h
  · cases h
    exact ⟨rfl, rfl⟩
  · cases h

theorem ofSources_ok [DecidableEq κ] (comparator : Comparator κ α) {batchSize : Nat}
    (hsize : 0 < batchSize) {sources : List (Source κ α σ)}
    (h : (sources.map (·.tag)).Nodup) :
    ofSources comparator batchSize sources = .ok ⟨comparator, batchSize, hsize, sources, none⟩ := by
  unfold ofSources withBatchSize
  rw [dif_pos hsize]
  exact foldlM_add h

theorem nodup_of_foldlM_add [DecidableEq κ] {s t : Scan κ α σ} {sources : List (Source κ α σ)}
    (hs : (s.sources.map (·.tag)).Nodup) (h : sources.foldlM add s = .ok t) :
    ((s.sources ++ sources).map (·.tag)).Nodup := by
  induction sources generalizing s with
  | nil => rwa [List.append_nil]
  | cons source rest ih =>
    rw [List.foldlM_cons, add] at h
    split at h
    · cases h
    · rename_i hnew
      have hadded : ((s.sources ++ [source]).map (·.tag)).Nodup := by
        rw [List.map_append, List.map_singleton, ← List.concat_eq_append]
        exact hs.concat hnew
      rw [List.append_cons]
      exact ih hadded h

theorem ofSources_iff [DecidableEq κ] {comparator : Comparator κ α} {batchSize : Nat}
    (hsize : 0 < batchSize) {sources : List (Source κ α σ)} {s : Scan κ α σ} :
    ofSources comparator batchSize sources = .ok s ↔
      (sources.map (·.tag)).Nodup ∧ s = ⟨comparator, batchSize, hsize, sources, none⟩ := by
  constructor
  · intro h
    have hdistinct : (sources.map (·.tag)).Nodup := by
      unfold ofSources withBatchSize at h
      rw [dif_pos hsize] at h
      exact nodup_of_foldlM_add (s := ⟨comparator, batchSize, hsize, [], none⟩) List.nodup_nil h
    rw [ofSources_ok comparator hsize hdistinct] at h
    exact ⟨hdistinct, (Except.ok.inj h).symm⟩
  · rintro ⟨hdistinct, rfl⟩
    exact ofSources_ok comparator hsize hdistinct

theorem Source.remaining_ne_zero {s : Source κ α σ} (h : ¬s.remaining = 0) :
    s.remaining.toNat ≠ 0 :=
  fun hzero => h (UInt64.toNat.inj hzero)

theorem Source.advance_ok {s : Source κ α σ} (hsome : ¬s.remaining = 0)
    (hfits : s.processed.toNat + s.remaining.toNat < UInt64.size) :
    ∃ processed remaining, s.advance = .ok { s with processed, remaining } ∧
      processed.toNat = s.processed.toNat + 1 ∧ remaining.toNat + 1 = s.remaining.toNat := by
  have hpos := remaining_ne_zero hsome
  obtain ⟨processed, hprocessed, hp⟩ :=
    Bounded.exists_uint64? (n := s.processed.toNat + 1) (by omega)
  obtain ⟨remaining, hremaining, hr⟩ :=
    Bounded.exists_uint64? (n := s.remaining.toNat - 1) (by omega)
  have hsucc : Int.ofNat s.processed.toNat + 1 = ((s.processed.toNat + 1 : Nat) : Int) := rfl
  have hpred : Int.ofNat s.remaining.toNat - 1 = ((s.remaining.toNat - 1 : Nat) : Int) := by
    simp only [Int.ofNat_eq_natCast]
    omega
  refine ⟨processed, remaining, ?_, hp, by omega⟩
  rw [advance, hsucc, hpred, hprocessed, hremaining]

theorem Source.head?_of_buffered {s : Source κ α σ} {rows : List α}
    (hready : s.remaining = 0 ∨ s.buffer ≠ [])
    (hbuffered : s.buffer <+: rows.drop s.processed.toNat) :
    s.head? = Queue.head? ⟨s.tag, (rows.drop s.processed.toNat).take s.remaining.toNat⟩ := by
  unfold head? Queue.head?
  by_cases hzero : s.remaining = 0
  · rw [if_pos hzero, hzero]
    rfl
  · obtain ⟨v, rest, hbuffer⟩ := List.exists_cons_of_ne_nil (hready.resolve_left hzero)
    obtain ⟨later, hlater⟩ := hbuffered
    obtain ⟨n, hn⟩ := Nat.exists_eq_succ_of_ne_zero (remaining_ne_zero hzero)
    rw [if_neg hzero, ← hlater, hbuffer, hn]
    rfl

theorem Source.take_of_buffered {s : Source κ α σ} {rows : List α} {c : Candidate κ α}
    (hhead : s.head? = some c) (hfits : s.processed.toNat + s.remaining.toNat < UInt64.size)
    (hbuffered : s.buffer <+: rows.drop s.processed.toNat) :
    ∃ rest processed remaining, s.buffer = c.value :: rest ∧ c.source = s.tag ∧
      s.take = (.ok c.value, { s with buffer := rest, processed, remaining }) ∧
      processed.toNat = s.processed.toNat + 1 ∧ remaining.toNat + 1 = s.remaining.toNat ∧
      rest <+: rows.drop processed.toNat := by
  unfold head? at hhead
  by_cases hzero : s.remaining = 0
  · rw [if_pos hzero] at hhead
    cases hhead
  · rw [if_neg hzero] at hhead
    obtain ⟨v, hv, rfl⟩ := Option.map_eq_some_iff.mp hhead
    obtain ⟨rest, hbuffer⟩ := List.head?_eq_some_iff.mp hv
    obtain ⟨processed, remaining, hadvance, hp, hr⟩ :=
      advance_ok (s := { s with buffer := rest }) hzero hfits
    dsimp only at hp hr
    refine ⟨rest, processed, remaining, hbuffer, rfl, ?_, hp, hr, ?_⟩
    · rw [take, hbuffer]
      simp only [hadvance]
    · obtain ⟨later, hlater⟩ := hbuffered
      refine ⟨later, ?_⟩
      rw [hp, ← List.tail_drop, ← hlater, hbuffer]
      rfl

/-- A source of fixed rows, of which it announces the first `count`. A page that is asked for where
there are rows begins with the row that was asked for. How many rows it has does not matter, and
may depend on the world. -/
structure Feed (κ α σ : Type) where
  tag : κ
  rows : List α
  count : UInt64
  fetchPage : Nat → Nat → σ → Except String (List α) × σ
  count_le : count.toNat ≤ rows.length
  page : ∀ {offset limit w page w'}, offset < rows.length → 0 < limit →
    fetchPage offset limit w = (.ok page, w') → page ≠ [] ∧ page <+: rows.drop offset

namespace Feed

def plain (tag : κ) (rows : List α) (count : UInt64) (count_le : count.toNat ≤ rows.length) :
    Feed κ α σ where
  tag := tag
  rows := rows
  count := count
  fetchPage offset limit w := (.ok ((rows.drop offset).take limit), w)
  count_le := count_le
  page := by
    rintro offset limit w page w' hoffset hlimit ⟨⟩
    refine ⟨?_, List.take_prefix _ _⟩
    rw [ne_eq, List.take_eq_nil_iff, List.drop_eq_nil_iff]
    omega

def Reliable (f : Feed κ α σ) : Prop :=
  ∀ offset limit w, ∃ page w', f.fetchPage offset limit w = (.ok page, w')

theorem plain_reliable (tag : κ) (rows : List α) (count : UInt64)
    (count_le : count.toNat ≤ rows.length) :
    (plain tag rows count count_le : Feed κ α σ).Reliable :=
  fun _ _ _ => ⟨_, _, rfl⟩

def source (f : Feed κ α σ) : Source κ α σ := .start f.tag f.count f.fetchPage

def queue (f : Feed κ α σ) : Queue κ α := ⟨f.tag, f.rows.take f.count.toNat⟩

/-- The source has returned the announced rows up to those of the queue. -/
structure Stands (f : Feed κ α σ) (s : Source κ α σ) (q : Queue κ α) : Prop where
  tag : s.tag = f.tag
  fetchPage : s.fetchPage = f.fetchPage
  counted : s.processed.toNat + s.remaining.toNat = f.count.toNat
  buffered : s.buffer <+: f.rows.drop s.processed.toNat
  left : q = ⟨f.tag, f.queue.rows.drop s.processed.toNat⟩

variable {f : Feed κ α σ} {s : Source κ α σ} {q : Queue κ α}

theorem stands_source (f : Feed κ α σ) : f.Stands f.source f.queue where
  tag := rfl
  fetchPage := rfl
  counted := Nat.zero_add _
  buffered := List.nil_prefix
  left := rfl

theorem Stands.rows_eq (h : f.Stands s q) :
    q.rows = (f.rows.drop s.processed.toNat).take s.remaining.toNat := by
  have hcounted := h.counted
  have hleft : f.count.toNat - s.processed.toNat = s.remaining.toNat := by omega
  simp only [h.left, queue, List.drop_take, hleft]

theorem Stands.head?_eq (h : f.Stands s q) (hready : s.remaining = 0 ∨ s.buffer ≠ []) :
    s.head? = q.head? := by
  have hq : q = ⟨s.tag, (f.rows.drop s.processed.toNat).take s.remaining.toNat⟩ := by
    rw [← h.rows_eq, h.tag, h.left]
  rw [hq]
  exact Source.head?_of_buffered hready h.buffered

theorem Stands.fetch (h : f.Stands s q) (hexpected : s.remaining ≠ 0) {limit : Nat}
    (hlimit : 0 < limit) {page : List α} {w w' : σ}
    (hpage : s.fetchPage s.processed.toNat limit w = (.ok page, w')) :
    page ≠ [] ∧ f.Stands { s with buffer := page } q := by
  have hoffset : s.processed.toNat < f.rows.length := by
    have hcounted := h.counted
    have hle := f.count_le
    have hsome := Source.remaining_ne_zero hexpected
    omega
  rw [h.fetchPage] at hpage
  obtain ⟨hne, hprefix⟩ := f.page hoffset hlimit hpage
  exact ⟨hne, h.tag, h.fetchPage, h.counted, hprefix, h.left⟩

theorem Stands.refill (h : f.Stands s q) (hreliable : f.Reliable) {limit : Nat}
    (hlimit : 0 < limit) (w : σ) :
    ∃ t w', s.refill limit w = (.ok t, w') ∧ f.Stands t q ∧ t.head? = q.head? := by
  unfold Source.refill
  by_cases hready : s.remaining = 0 ∨ s.buffer ≠ []
  · rw [if_pos hready]
    exact ⟨s, w, rfl, h, h.head?_eq hready⟩
  · obtain ⟨page, w', hpage⟩ := hreliable s.processed.toNat limit w
    rw [← h.fetchPage] at hpage
    obtain ⟨hne, hfilled⟩ := h.fetch (fun hzero => hready (Or.inl hzero)) hlimit hpage
    obtain ⟨v, rest, rfl⟩ := List.exists_cons_of_ne_nil hne
    refine ⟨_, w', ?_, hfilled, hfilled.head?_eq (Or.inr hne)⟩
    rw [if_neg hready, hpage]

theorem Stands.take (h : f.Stands s q) {c : Candidate κ α} (hhead : s.head? = some c) :
    ∃ t, s.take = (.ok c.value, t) ∧ f.Stands t q.tail := by
  have hfits : s.processed.toNat + s.remaining.toNat < UInt64.size := by
    rw [h.counted]
    exact f.count.toNat_lt
  obtain ⟨rest, processed, remaining, -, -, htake, hp, hr, hrest⟩ :=
    Source.take_of_buffered hhead hfits h.buffered
  refine ⟨_, htake, h.tag, h.fetchPage, ?_, hrest, ?_⟩
  · have hcounted := h.counted
    dsimp only
    omega
  · dsimp only
    rw [h.left, hp, ← List.tail_drop]
    rfl

end Feed

def Tracks (s : Source κ α σ) (q : Queue κ α) : Prop :=
  ∃ f : Feed κ α σ, f.Reliable ∧ f.Stands s q

def Shows (s : Source κ α σ) (q : Queue κ α) : Prop := Tracks s q ∧ s.head? = q.head?

section Sources

variable {sources : List (Source κ α σ)} {queues : List (Queue κ α)}

theorem refillAll_ok (h : List.Forall₂ Tracks sources queues) {limit : Nat} (hlimit : 0 < limit)
    (w : σ) :
    ∃ sources' w', refillAll limit sources w = (none, sources', w') ∧
      List.Forall₂ Shows sources' queues := by
  induction h generalizing w with
  | nil => exact ⟨[], w, rfl, .nil⟩
  | cons hs _ ih =>
    obtain ⟨f, hreliable, hs⟩ := hs
    obtain ⟨t, w₁, ht, hstands, hhead⟩ := hs.refill hreliable hlimit w
    obtain ⟨rest', w₂, hrest, hshows⟩ := ih w₁
    refine ⟨t :: rest', w₂, ?_, .cons ⟨⟨f, hreliable, hstands⟩, hhead⟩ hshows⟩
    simp only [refillAll, ht, hrest]

theorem candidates_eq (h : List.Forall₂ (fun s q => s.head? = q.head?) sources queues)
    (place : Nat) : (candidates place sources).map Prod.snd = queues.filterMap Queue.head? := by
  induction h generalizing place with
  | nil => rfl
  | cons hs _ ih =>
    rw [candidates, List.filterMap_cons, ← hs]
    split
    · rename_i hc
      rw [hc, List.map_cons, ih]
    · rename_i hc
      rw [hc, ih]

theorem foldl_better (comparator : Comparator κ α) (x : Nat × Candidate κ α)
    (later : List (Nat × Candidate κ α)) :
    (later.foldl (better comparator) x).2 =
      (later.map Prod.snd).foldl (lesser comparator) x.2 := by
  induction later generalizing x with
  | nil => rfl
  | cons y later ih =>
    have hbetter : (better comparator x y).2 = lesser comparator x.2 y.2 := by
      unfold better lesser
      split <;> rfl
    rw [List.foldl_cons, ih, hbetter, List.map_cons, List.foldl_cons]

theorem better_eq_or (comparator : Comparator κ α) (x y : Nat × Candidate κ α) :
    better comparator x y = x ∨ better comparator x y = y := by
  unfold better
  split
  · exact Or.inr rfl
  · exact Or.inl rfl

theorem winner?_eq (h : List.Forall₂ (fun s q => s.head? = q.head?) sources queues)
    (comparator : Comparator κ α) :
    (winner? comparator sources).map Prod.snd = first? comparator queues := by
  unfold winner? first?
  rw [← candidates_eq h 0]
  cases candidates 0 sources with
  | nil => rfl
  | cons x later => exact congrArg some (foldl_better comparator x later)

theorem winner?_mem {comparator : Comparator κ α} {x : Nat × Candidate κ α}
    (h : winner? comparator sources = some x) : x ∈ candidates 0 sources := by
  unfold winner? at h
  split at h
  · cases h
  · rename_i y later hcandidates
    rw [hcandidates, ← Option.some.inj h]
    exact foldl_choice_mem (better_eq_or comparator) y later

theorem source_mem_of_candidate
    (h : List.Forall₂ (fun s q => s.head? = q.head?) sources queues) {place i : Nat}
    {c : Candidate κ α} (hc : (i, c) ∈ candidates place sources) :
    c.source ∈ queues.map (·.source) := by
  have hhead : c ∈ queues.filterMap Queue.head? := by
    rw [← candidates_eq h place]
    exact List.mem_map_of_mem hc
  obtain ⟨q, hq, hqc⟩ := List.mem_filterMap.mp hhead
  rw [Queue.head?_eq_some hqc] at hq
  exact List.mem_map_of_mem hq

theorem takeAt_ok [DecidableEq κ] (h : List.Forall₂ Shows sources queues)
    (hdistinct : (queues.map (·.source)).Nodup) {place i : Nat} {c : Candidate κ α}
    (hc : (i, c) ∈ candidates place sources) :
    place ≤ i ∧ ∃ sources', takeAt (i - place) sources = (.ok c.value, sources') ∧
      List.Forall₂ Tracks sources' (pop c.source queues) := by
  induction h generalizing place with
  | nil => cases hc
  | @cons s q rest queues hs hrest ih =>
    obtain ⟨hnew, hdistinct⟩ : q.source ∉ queues.map (·.source) ∧ (queues.map (·.source)).Nodup :=
      List.nodup_cons.mp hdistinct
    have hlater (hc : (i, c) ∈ candidates (place + 1) rest) : place ≤ i ∧ ∃ sources',
        takeAt (i - place) (s :: rest) = (.ok c.value, sources') ∧
          List.Forall₂ Tracks sources' (pop c.source (q :: queues)) := by
      obtain ⟨hle, rest', htake, htracks⟩ := ih hdistinct hc
      have hne : q.source ≠ c.source := by
        intro heq
        rw [heq] at hnew
        exact hnew (source_mem_of_candidate (hrest.imp fun _ _ h => h.2) hc)
      have hi : i - place = (i - (place + 1)) + 1 := by omega
      refine ⟨by omega, s :: rest', ?_, ?_⟩
      · rw [hi, takeAt, htake]
      · rw [pop_cons, if_neg hne]
        exact .cons hs.1 htracks
    unfold candidates at hc
    split at hc
    · rename_i d hd
      rcases List.mem_cons.mp hc with heq | hc
      · obtain ⟨rfl, rfl⟩ := Prod.mk.inj heq
        obtain ⟨⟨f, hreliable, hstands⟩, hhead⟩ := hs
        obtain ⟨t, ht, htail⟩ := hstands.take hd
        have hq : q.source = c.source :=
          congrArg Queue.source (Queue.head?_eq_some (hhead.symm.trans hd))
        have hothers : pop c.source queues = queues := by
          apply pop_eq_self
          intro q' hq' heq
          exact hnew (List.mem_map.mpr ⟨q', hq', heq.trans hq.symm⟩)
        refine ⟨Nat.le_refl i, t :: rest, ?_, ?_⟩
        · rw [Nat.sub_self, takeAt, ht]
        · rw [pop_cons, if_pos hq, hothers]
          exact .cons ⟨f, hreliable, htail⟩ (hrest.imp fun _ _ h => h.1)
      · exact hlater hc
    · exact hlater hc

end Sources

section Reading

variable [DecidableEq κ] {s : Scan κ α σ} {queues : List (Queue κ α)}

theorem next_ok (h : List.Forall₂ Tracks s.sources queues)
    (hdistinct : (queues.map (·.source)).Nodup) (w : σ) :
    match first? s.comparator queues with
    | none => ∃ t w', s.next w = (.ok false, t, w')
    | some c => ∃ t w', s.next w = (.ok true, t, w') ∧ t.current = some c ∧
        t.comparator = s.comparator ∧ List.Forall₂ Tracks t.sources (pop c.source queues) := by
  obtain ⟨sources, w', hrefill, hshows⟩ := refillAll_ok h s.batchSize_pos w
  rw [← winner?_eq (hshows.imp fun _ _ h => h.2)]
  cases hwinner : winner? s.comparator sources with
  | none =>
    refine ⟨{ s with sources, current := none }, w', ?_⟩
    simp only [next, hrefill, hwinner]
  | some x =>
    obtain ⟨place, c⟩ := x
    obtain ⟨-, sources', htake, htracks⟩ := takeAt_ok hshows hdistinct (winner?_mem hwinner)
    rw [Nat.sub_zero] at htake
    refine ⟨{ s with sources := sources', current := some c }, w', ?_, rfl, rfl, htracks⟩
    simp only [next, hrefill, hwinner, htake]

theorem readAll_of_tracks (h : List.Forall₂ Tracks s.sources queues)
    (hdistinct : (queues.map (·.source)).Nodup) (w : σ) :
    s.readAll w = .ok (merge s.comparator queues) := by
  generalize hcomparator : s.comparator = comparator
  fun_induction merge comparator queues generalizing s w with
  | case1 queues hfirst =>
    have hnext := next_ok h hdistinct w
    rw [hcomparator, hfirst] at hnext
    obtain ⟨t, w', hnext⟩ := hnext
    exact readAll_of_none hnext
  | case2 queues c hfirst ih =>
    have hnext := next_ok h hdistinct w
    rw [hcomparator, hfirst] at hnext
    obtain ⟨t, w', hnext, hcurrent, hsame, htracks⟩ := hnext
    rw [← map_source_pop c.source] at hdistinct
    rw [readAll_of_some hnext hcurrent, ih htracks hdistinct w' hsame]
    rfl

end Reading

theorem tracks_feeds {feeds : List (Feed κ α σ)} (h : ∀ f ∈ feeds, f.Reliable) :
    List.Forall₂ Tracks (feeds.map (·.source)) (feeds.map (·.queue)) := by
  rw [List.forall₂_map_left_iff, List.forall₂_map_right_iff, List.forall₂_same]
  exact fun f hf => ⟨f, h f hf, f.stands_source⟩

/-- A scan over sources that are told apart can be set up with any batch size but zero. Read to its
end, it returns the merge of the announced rows and then says that there are no more, however the
rows were cut into pages. -/
theorem paging_invisible [DecidableEq κ] (comparator : Comparator κ α) {batchSize : Nat}
    (hsize : 0 < batchSize) {feeds : List (Feed κ α σ)} (hreliable : ∀ f ∈ feeds, f.Reliable)
    (hdistinct : (feeds.map (·.tag)).Nodup) :
    ∃ s, ofSources comparator batchSize (feeds.map (·.source)) = .ok s ∧
      ∀ w, s.readAll w = .ok (merge comparator (feeds.map (·.queue))) := by
  refine ⟨⟨comparator, batchSize, hsize, feeds.map (·.source), none⟩, ?_, ?_⟩
  · apply ofSources_ok
    rwa [List.map_map]
  · intro w
    apply readAll_of_tracks (tracks_feeds hreliable)
    rwa [List.map_map]

namespace Sample

def ragged (tag : Char) (rows : List Nat) (count : UInt64) (count_le : count.toNat ≤ rows.length) :
    Feed Char Nat Nat where
  tag := tag
  rows := rows
  count := count
  fetchPage offset limit calls := (.ok ((rows.drop offset).take (calls % limit + 1)), calls + 1)
  count_le := count_le
  page := by
    rintro offset limit calls page w' hoffset - ⟨⟩
    refine ⟨?_, List.take_prefix _ _⟩
    rw [ne_eq, List.take_eq_nil_iff, List.drop_eq_nil_iff]
    omega

theorem ragged_reliable (tag : Char) (rows : List Nat) (count : UInt64)
    (count_le : count.toNat ≤ rows.length) : (ragged tag rows count count_le).Reliable :=
  fun _ _ _ => ⟨_, _, rfl⟩

def feeds : List (Feed Char Nat Nat) :=
  [ragged 'a' [1, 3, 5, 9] 3 (by decide), ragged 'b' [2, 3, 4] 3 (by decide)]

end Sample

theorem paging_invisible_ragged :
    ∃ s, ofSources (fun c d => compare c.value d.value) 2 (Sample.feeds.map (·.source)) = .ok s ∧
      ∀ w, s.readAll w =
        .ok [⟨'a', 1⟩, ⟨'b', 2⟩, ⟨'a', 3⟩, ⟨'b', 3⟩, ⟨'b', 4⟩, ⟨'a', 5⟩] := by
  have hreliable : ∀ f ∈ Sample.feeds, f.Reliable := by
    simp only [Sample.feeds, List.forall_mem_cons]
    exact ⟨Sample.ragged_reliable _ _ _ _, Sample.ragged_reliable _ _ _ _, nofun⟩
  have hmerge : merge (fun c d => compare c.value d.value) (Sample.feeds.map (·.queue)) =
      [⟨'a', 1⟩, ⟨'b', 2⟩, ⟨'a', 3⟩, ⟨'b', 3⟩, ⟨'b', 4⟩, ⟨'a', 5⟩] := by
    decide +kernel
  rw [← hmerge]
  exact paging_invisible _ (by decide) hreliable (by decide)

end SearchSync.Scan
