import Mathlib.Algebra.Order.BigOperators.Group.List
import Mathlib.Algebra.Order.Group.Nat
import SearchSync.Proofs.Scan.Journal
import SearchSync.Proofs.Scan.Shortage

/-!
# Every page once

Sources that have the rows they announce, read by calling for the next row only. The offsets that
are asked for are counted by rows returned, not by pages, and yet are the multiples of the batch
size: what a source has returned and buffered together ends where a page ends, or with the last
row. So each page is asked for once, in order, whatever the other sources and the comparator are.
-/
namespace SearchSync.Scan

variable {κ α σ : Type}

def pageStarts (limit n : Nat) : List Nat := (List.range n).filter (limit ∣ ·)

theorem pageStarts_add {limit start n : Nat} (hstart : limit ∣ start) (hsome : 0 < n)
    (hle : n ≤ limit) : pageStarts limit (start + n) = pageStarts limit start ++ [start] := by
  obtain ⟨m, rfl⟩ := Nat.exists_eq_succ_of_ne_zero (Nat.ne_of_gt hsome)
  have hrange : List.range (start + (m + 1)) =
      List.range start ++ start :: (List.range m).map (fun i => start + (i + 1)) := by
    rw [List.range_add, List.range_succ_eq_map, List.map_cons, List.map_map, Nat.add_zero]
    rfl
  have hinside : ((List.range m).map fun i => start + (i + 1)).filter (limit ∣ ·) = [] := by
    rw [List.filter_eq_nil_iff, List.forall_mem_map]
    intro i hi hdvd
    have hlt := List.mem_range.mp hi
    have hle' := Nat.le_of_dvd (Nat.succ_pos i)
      ((Nat.dvd_add_right hstart).mp (of_decide_eq_true hdvd))
    omega
  rw [pageStarts, hrange, List.filter_append, List.filter_cons, if_pos (decide_eq_true hstart),
    hinside]
  rfl

theorem pageStarts_mono (limit : Nat) {m n : Nat} (h : m ≤ n) :
    pageStarts limit m <+: pageStarts limit n := by
  obtain ⟨k, rfl⟩ := Nat.exists_eq_add_of_le h
  rw [pageStarts, pageStarts, List.range_add, List.filter_append]
  exact List.prefix_append _ _

namespace Offer

def notedSource (o : Offer κ α) : Source κ α (σ × List (Request κ α)) :=
  .start o.tag o.count (Scan.noted id o.tag o.fetchPage)

def request (o : Offer κ α) (limit offset : Nat) : Request κ α :=
  ⟨o.tag, offset, limit, .ok ((o.rows.drop offset).take limit)⟩

def pages (o : Offer κ α) (limit n : Nat) : List (Request κ α) :=
  (pageStarts limit n).map (o.request limit)

variable [DecidableEq κ]

def asked (o : Offer κ α) (log : List (Request κ α)) : List (Request κ α) :=
  log.filter fun r => r.source = o.tag

theorem asked_append (o : Offer κ α) (log later : List (Request κ α)) :
    o.asked (log ++ later) = o.asked log ++ o.asked later :=
  List.filter_append log later

theorem asked_eq_nil {o : Offer κ α} {log : List (Request κ α)}
    (h : ∀ r ∈ log, r.source ≠ o.tag) : o.asked log = [] := by
  simpa [asked, List.filter_eq_nil_iff] using h

omit [DecidableEq κ] in
def fetched (o : Offer κ α) (s : Source κ α σ) : Nat :=
  min o.count.toNat (s.processed.toNat + s.buffer.length)

/-- The source holds at most one page, and was asked for the pages of the rows fetched so far. -/
structure Paged (limit : Nat) (log : List (Request κ α))
    (s : Source κ α (σ × List (Request κ α))) (o : Offer κ α) : Prop where
  tag : s.tag = o.tag
  fetchPage : s.fetchPage = Scan.noted id o.tag o.fetchPage
  counted : s.processed.toNat + s.remaining.toNat = o.count.toNat
  buffered : s.buffer <+: o.rows.drop s.processed.toNat
  held : s.buffer.length ≤ limit
  whole : limit ∣ o.fetched s ∨ o.fetched s = o.count.toNat
  asked : o.asked log = o.pages limit (o.fetched s)

variable {o : Offer κ α} {limit : Nat} {log log' : List (Request κ α)}
  {s t : Source κ α (σ × List (Request κ α))} {w : σ}

theorem paged_source (o : Offer κ α) (limit : Nat) :
    o.Paged limit [] (o.notedSource : Source κ α (σ × List (Request κ α))) where
  tag := rfl
  fetchPage := rfl
  counted := Nat.zero_add _
  buffered := List.nil_prefix
  held := Nat.zero_le _
  whole := Or.inl (by simp [fetched, notedSource, Source.start])
  asked := by simp [Offer.asked, pages, pageStarts, fetched, notedSource, Source.start]

theorem Paged.later (h : o.Paged limit log s) (hothers : ∀ r ∈ log', r.source ≠ o.tag) :
    o.Paged limit (log ++ log') s := by
  refine ⟨h.tag, h.fetchPage, h.counted, h.buffered, h.held, h.whole, ?_⟩
  rw [asked_append, asked_eq_nil hothers, List.append_nil, h.asked]

theorem Paged.refill (h : o.Paged limit log s) (hlimit : 0 < limit)
    (hcount : o.count.toNat ≤ o.rows.length) (w : σ) :
    ∃ t requests, s.refill limit (w, log) = (.ok t, w, log ++ requests) ∧
      o.Paged limit (log ++ requests) t ∧ ∀ r ∈ requests, r.source = o.tag := by
  by_cases hready : s.remaining = 0 ∨ s.buffer ≠ []
  · refine ⟨s, [], ?_, ?_, nofun⟩
    · rw [Source.refill, if_pos hready, List.append_nil]
    · rwa [List.append_nil]
  have hcounted := h.counted
  have hexpected := Source.remaining_ne_zero fun hzero => hready (Or.inl hzero)
  have hempty : s.buffer = [] := by
    by_contra hne
    exact hready (Or.inr hne)
  generalize hpage : (o.rows.drop s.processed.toNat).take limit = page
  have hlength : page.length = min limit (o.rows.length - s.processed.toNat) := by
    rw [← hpage, List.length_take, List.length_drop]
  have hfetched : o.fetched s = s.processed.toNat := by
    rw [fetched, hempty, List.length_nil]
    omega
  have hstart : limit ∣ s.processed.toNat := by
    rcases h.whole with hdvd | hall
    · rwa [hfetched] at hdvd
    · omega
  have hanswer : s.fetchPage s.processed.toNat limit (w, log) =
      (.ok page, w, log ++ [o.request limit s.processed.toNat]) := by
    rw [h.fetchPage, request, hpage]
    simp only [Scan.noted, Offer.fetchPage, hpage, id]
  have hmore : o.fetched { s with buffer := page } =
      s.processed.toNat + min limit (o.count.toNat - s.processed.toNat) := by
    simp only [fetched, hlength]
    omega
  refine ⟨{ s with buffer := page }, [o.request limit s.processed.toNat], ?_, ?_, ?_⟩
  · obtain ⟨v, rest, rfl⟩ : ∃ v rest, page = v :: rest := by
      apply List.exists_cons_of_length_pos
      omega
    rw [Source.refill, if_neg hready, hanswer]
  · refine ⟨h.tag, h.fetchPage, h.counted, ?_, ?_, ?_, ?_⟩
    · rw [← hpage]
      exact List.take_prefix _ _
    · dsimp only
      omega
    · rw [hmore]
      by_cases hfull : limit ≤ o.count.toNat - s.processed.toNat
      · rw [min_eq_left hfull]
        exact Or.inl ((Nat.dvd_add_right hstart).mpr (Nat.dvd_refl limit))
      · right
        omega
    · have hown : o.asked [o.request limit s.processed.toNat] =
          [o.request limit s.processed.toNat] := by simp [Offer.asked, request]
      rw [asked_append, h.asked, hown, hmore, hfetched, pages, pages,
        pageStarts_add hstart (by omega) (by omega), List.map_append]
      rfl
  · intro r hr
    rw [List.mem_singleton.mp hr]
    rfl

theorem Paged.asked_mono (h : o.Paged limit log s) :
    o.asked log <+: o.pages limit o.count.toNat := by
  rw [h.asked]
  exact (pageStarts_mono limit (min_le_left _ _)).map (o.request limit)

theorem Paged.asked_all (h : o.Paged limit log s) (hzero : s.remaining = 0) :
    o.asked log = o.pages limit o.count.toNat := by
  have hcounted := h.counted
  rw [hzero] at hcounted
  have hall : o.fetched s = o.count.toNat := by
    rw [fetched, ← hcounted]
    simp
  rw [h.asked, hall]

theorem Paged.take (h : o.Paged limit log s) {c : Candidate κ α} (hhead : s.head? = some c)
    {v : Except (ScanError κ) α} (htake : s.take = (v, t)) :
    v = .ok c.value ∧ o.Paged limit log t := by
  have hfits : s.processed.toNat + s.remaining.toNat < UInt64.size := by
    rw [h.counted]
    exact o.count.toNat_lt
  obtain ⟨rest, processed, remaining, hbuffer, -, hok, hp, hr, hrest⟩ :=
    Source.take_of_buffered hhead hfits h.buffered
  rw [hok] at htake
  cases htake
  have hcounted := h.counted
  have hheld := h.held
  have hlength : s.buffer.length = rest.length + 1 := by rw [hbuffer, List.length_cons]
  have hsame : o.fetched { s with buffer := rest, processed, remaining } = o.fetched s := by
    simp only [fetched]
    omega
  refine ⟨rfl, h.tag, h.fetchPage, ?_, hrest, ?_, ?_, ?_⟩
  · dsimp only
    omega
  · dsimp only
    omega
  · rw [hsame]
    exact h.whole
  · rw [hsame]
    exact h.asked

end Offer

theorem pending_eq_zero {sources : List (Source κ α σ)} :
    pending sources = 0 ↔ ∀ s ∈ sources, s.remaining = 0 := by
  induction sources with
  | nil => simp [pending]
  | cons s rest ih =>
    rw [pending, Nat.add_eq_zero_iff, ih, List.forall_mem_cons, ← UInt64.toNat_inj]
    rfl

theorem pending_noted (offers : List (Offer κ α)) :
    pending (offers.map (·.notedSource) : List (Source κ α (σ × List (Request κ α)))) =
      (offers.map (·.count.toNat)).sum := by
  induction offers with
  | nil => rfl
  | cons o offers ih =>
    rw [List.map_cons, pending, ih, List.map_cons, List.sum_cons]
    rfl

section Sources

variable [DecidableEq κ] {offers : List (Offer κ α)} {limit : Nat} {log log' : List (Request κ α)}
  {sources : List (Source κ α (σ × List (Request κ α)))}

theorem paged_later (h : List.Forall₂ (fun s o => o.Paged limit log s) sources offers)
    (hothers : ∀ o ∈ offers, ∀ r ∈ log', r.source ≠ o.tag) :
    List.Forall₂ (fun s o => o.Paged limit (log ++ log') s) sources offers := by
  induction h with
  | nil => exact .nil
  | cons hs _ ih =>
    obtain ⟨hnow, hlater⟩ := List.forall_mem_cons.mp hothers
    exact .cons (hs.later hnow) (ih hlater)

theorem refillAll_paged (h : List.Forall₂ (fun s o => o.Paged limit log s) sources offers)
    (hlimit : 0 < limit) (hcount : ∀ o ∈ offers, o.count.toNat ≤ o.rows.length)
    (hdistinct : (offers.map (·.tag)).Nodup) (w : σ) :
    ∃ sources' requests, refillAll limit sources (w, log) = (none, sources', w, log ++ requests) ∧
      List.Forall₂ (fun s o => o.Paged limit (log ++ requests) s) sources' offers ∧
      ∀ r ∈ requests, r.source ∈ offers.map (·.tag) := by
  induction offers generalizing sources log with
  | nil =>
    cases h
    exact ⟨[], [], by rw [List.append_nil]; rfl, .nil, nofun⟩
  | cons o offers ih =>
    cases h with
    | @cons s _ rest _ hs hrest =>
      obtain ⟨hnow, hlater⟩ := List.forall_mem_cons.mp hcount
      rw [List.map_cons, List.nodup_cons] at hdistinct
      obtain ⟨hnew, hdistinct⟩ := hdistinct
      obtain ⟨t, first, hrefill, ht, hfirst⟩ := hs.refill hlimit hnow w
      have hwaiting : List.Forall₂ (fun s o => o.Paged limit (log ++ first) s) rest offers := by
        apply paged_later hrest
        intro o' ho' r hr heq
        apply hnew
        rw [← hfirst r hr, heq]
        exact List.mem_map_of_mem ho'
      obtain ⟨rest', requests, hrefills, hpaged, hrequests⟩ := ih hwaiting hlater hdistinct
      refine ⟨t :: rest', first ++ requests, ?_, ?_, ?_⟩
      · simp only [refillAll, hrefill, hrefills, List.append_assoc]
      · rw [← List.append_assoc]
        refine .cons (ht.later ?_) hpaged
        intro r hr heq
        rw [← heq] at hnew
        exact hnew (hrequests r hr)
      · intro r hr
        rcases List.mem_append.mp hr with hr | hr
        · rw [hfirst r hr]
          exact List.mem_cons_self
        · exact List.mem_cons_of_mem _ (hrequests r hr)

theorem use_paged {s : Scan κ α (σ × List (Request κ α))} (hsize : s.batchSize = limit)
    (h : List.Forall₂ (fun x o => o.Paged limit log x) s.sources offers)
    (hcount : ∀ o ∈ offers, o.count.toNat ≤ o.rows.length)
    (hdistinct : (offers.map (·.tag)).Nodup) (w : σ) :
    ∃ event t requests, s.use (w, log) .next = (event, t, w, log ++ requests) ∧
      t.batchSize = limit ∧
      List.Forall₂ (fun x o => o.Paged limit (log ++ requests) x) t.sources offers ∧
      (∀ r ∈ requests, r.source ∈ offers.map (·.tag)) ∧
      ((event = .finished ∧ pending s.sources = 0 ∧ pending t.sources = 0) ∨
        ∃ c, event = .returned c ∧ pending t.sources + 1 = pending s.sources) := by
  subst hsize
  obtain ⟨sources, requests, hrefill, hpaged, hrequests⟩ :=
    refillAll_paged h s.batchSize_pos hcount hdistinct w
  generalize hnext : s.next (w, log) = outcome
  obtain ⟨r, t, w', log'⟩ := outcome
  obtain ⟨stop, sources', hrefill', hend⟩ := next_turn hnext
  rw [hrefill] at hrefill'
  cases hrefill'
  have hsize := next_batchSize hnext
  obtain ⟨sources', current, hturn, rfl⟩ := hend
  cases hturn with
  | finished nothing =>
    have hnone := pending_eq_zero.mpr nothing
    refine ⟨.finished, _, requests, ?_, hsize, hpaged, hrequests, Or.inl ⟨rfl, ?_, hnone⟩⟩
    · simp only [Scan.use, hnext]
    · rw [← pending_refillAll hrefill, hnone]
  | returned split winner head take =>
    have hfewer := pending_next hnext
    rw [split] at hpaged
    obtain ⟨earlier, o, later, rfl, hbefore, hx, hafter⟩ := forall₂_split hpaged
    exact ⟨_, _, requests, use_of_returned hnext rfl, hsize,
      List.rel_append hbefore (.cons (hx.take head take).2 hafter), hrequests,
      Or.inr ⟨_, rfl, hfewer⟩⟩
  | uncounted split head take =>
    rw [split] at hpaged
    obtain ⟨_, _, _, -, -, hx, -⟩ := forall₂_split hpaged
    cases (hx.take head take).1

theorem run_paged {s t : Scan κ α (σ × List (Request κ α))} (hsize : s.batchSize = limit)
    (h : List.Forall₂ (fun x o => o.Paged limit log x) s.sources offers)
    (hcount : ∀ o ∈ offers, o.count.toNat ≤ o.rows.length)
    (hdistinct : (offers.map (·.tag)).Nodup) {n : Nat} {w w' : σ} {events : List (Event κ α)}
    (hrun : s.run (w, log) (List.replicate n .next) = (events, t, w', log')) :
    ∃ requests, log' = log ++ requests ∧
      List.Forall₂ (fun x o => o.Paged limit log' x) t.sources offers ∧
      (∀ r ∈ requests, r.source ∈ offers.map (·.tag)) ∧ (∀ e, .failed e ∉ events) ∧
      pending t.sources ≤ pending s.sources ∧ (.finished ∈ events → pending t.sources = 0) ∧
      (.finished ∈ events ∨ pending t.sources + n = pending s.sources) := by
  induction n generalizing s w log events with
  | zero =>
    cases hrun
    exact ⟨[], (List.append_nil _).symm, h, nofun, nofun, Nat.le_refl _, nofun, Or.inr rfl⟩
  | succ n ih =>
    obtain ⟨event, s₁, first, huse, hsize₁, hpaged, hfirst, hend⟩ :=
      use_paged hsize h hcount hdistinct w
    rw [List.replicate_succ, Scan.run] at hrun
    split at hrun
    rename_i huse'
    rw [huse] at huse'
    cases huse'
    split at hrun
    rename_i hlater
    cases hrun
    obtain ⟨requests, rfl, hpaged', hrequests, hfailed, hless, hzero, hleft⟩ :=
      ih hsize₁ hpaged hlater
    refine ⟨first ++ requests, List.append_assoc _ _ _, hpaged', ?_, ?_, ?_⟩
    · intro r hr
      rcases List.mem_append.mp hr with hr | hr
      · exact hfirst r hr
      · exact hrequests r hr
    · intro e he
      rcases List.mem_cons.mp he with heq | he
      · rcases hend with ⟨rfl, -⟩ | ⟨c, rfl, -⟩
        · cases heq
        · cases heq
      · exact hfailed e he
    · rcases hend with ⟨rfl, hbefore, hnone⟩ | ⟨c, rfl, hfewer⟩
      · exact ⟨by omega, fun _ => by omega, Or.inl List.mem_cons_self⟩
      · refine ⟨by omega, fun hmem => hzero (List.mem_of_ne_of_mem (by simp) hmem), ?_⟩
        rcases hleft with hmem | hcounted
        · exact Or.inl (List.mem_cons_of_mem _ hmem)
        · exact Or.inr (by omega)

end Sources

/-- Let sources have the rows they announce, and let the next row be called for any number of times.
Then no source ever holds more rows than one page has, and the requests to a source are those for
its pages from the first on, in order and each once. Once there are no more rows, and this comes
after as many rows as were announced, it has been asked for all of its pages and nothing else. -/
theorem pages_fetched_once [DecidableEq κ] (comparator : Comparator κ α) {batchSize : Nat}
    (hsize : 0 < batchSize) {offers : List (Offer κ α)}
    (hcount : ∀ o ∈ offers, o.count.toNat ≤ o.rows.length) :
    ((∃ s : Scan κ α (σ × List (Request κ α)),
        ofSources comparator batchSize (offers.map (·.notedSource)) = .ok s) ↔
      (offers.map (·.tag)).Nodup) ∧
    ∀ s : Scan κ α (σ × List (Request κ α)),
      ofSources comparator batchSize (offers.map (·.notedSource)) = .ok s →
      ∀ n w events t w' log, s.run (w, []) (List.replicate n .next) = (events, t, w', log) →
        (∀ x ∈ t.sources, x.buffer.length ≤ batchSize) ∧
        (t.sources.map (·.buffer.length)).sum ≤ offers.length * batchSize ∧
        (∀ r ∈ log, r.source ∈ offers.map (·.tag)) ∧
        (∀ o ∈ offers, o.asked log <+: o.pages batchSize o.count.toNat) ∧
        (.finished ∈ events → ∀ o ∈ offers, o.asked log = o.pages batchSize o.count.toNat) ∧
        ((offers.map (·.count.toNat)).sum < n → .finished ∈ events) ∧
        ∀ e, .failed e ∉ events := by
  have htags : (offers.map (·.notedSource)).map
      (fun s : Source κ α (σ × List (Request κ α)) => s.tag) = offers.map (·.tag) := List.map_map
  have hstart : List.Forall₂ (fun s o => o.Paged batchSize [] s)
      (offers.map (·.notedSource) : List (Source κ α (σ × List (Request κ α)))) offers := by
    rw [List.forall₂_map_left_iff, List.forall₂_same]
    exact fun o _ => o.paged_source batchSize
  refine ⟨?_, ?_⟩
  · rw [← htags]
    exact ⟨fun ⟨s, hs⟩ => ((ofSources_iff hsize).mp hs).1,
      fun h => ⟨_, (ofSources_iff hsize).mpr ⟨h, rfl⟩⟩⟩
  · intro s hs n w events t w' log hrun
    obtain ⟨hdistinct, rfl⟩ := (ofSources_iff hsize).mp hs
    rw [htags] at hdistinct
    obtain ⟨requests, hlog, hpaged, hrequests, hfailed, -, hzero, hleft⟩ :=
      run_paged rfl hstart hcount hdistinct hrun
    rw [List.nil_append] at hlog
    subst hlog
    have hheld : ∀ x ∈ t.sources, x.buffer.length ≤ batchSize := by
      intro x hx
      obtain ⟨o, -, hat⟩ := forall₂_mem_left hpaged hx
      exact hat.held
    refine ⟨hheld, ?_, hrequests, ?_, ?_, ?_, hfailed⟩
    · have hsum := List.sum_le_card_nsmul (t.sources.map (·.buffer.length)) batchSize
        (List.forall_mem_map.mpr hheld)
      rwa [List.length_map, hpaged.length_eq] at hsum
    · intro o ho
      obtain ⟨x, -, hat⟩ := forall₂_mem_left hpaged.flip ho
      exact hat.asked_mono
    · intro hmem o ho
      obtain ⟨x, hx, hat⟩ := forall₂_mem_left hpaged.flip ho
      exact hat.asked_all (pending_eq_zero.mp (hzero hmem) x hx)
    · intro hmore
      rcases hleft with hmem | hcounted
      · exact hmem
      · rw [pending_noted] at hcounted
        omega

namespace Sample

def stocked : List (Offer Char Nat) := [⟨'a', [1, 3, 5, 6], 4⟩, ⟨'b', [2, 4, 7, 8], 3⟩]

end Sample

theorem pages_fetched_once_letters :
    ∃ s : Scan Char Nat (Nat × List (Request Char Nat)),
      ofSources (fun c d => compare c.value d.value) 2 (Sample.stocked.map (·.notedSource)) =
        .ok s ∧
      .finished ∈ (s.run (0, []) (List.replicate 8 .next)).1 ∧
      (s.run (0, []) (List.replicate 8 .next)).2.2.2 =
        [⟨'a', 0, 2, .ok [1, 3]⟩, ⟨'b', 0, 2, .ok [2, 4]⟩, ⟨'a', 2, 2, .ok [5, 6]⟩,
          ⟨'b', 2, 2, .ok [7, 8]⟩] ∧
      ∀ o ∈ Sample.stocked,
        o.asked (s.run (0, []) (List.replicate 8 .next)).2.2.2 = o.pages 2 o.count.toNat := by
  obtain ⟨hbuilt, hrun⟩ := pages_fetched_once (σ := Nat) (fun c d => compare c.value d.value)
    (by decide : 0 < 2) (by decide : ∀ o ∈ Sample.stocked, o.count.toNat ≤ o.rows.length)
  obtain ⟨s, hs⟩ := hbuilt.mpr (by decide)
  have hlog : (s.run (0, []) (List.replicate 8 .next)).2.2.2 =
      [⟨'a', 0, 2, .ok [1, 3]⟩, ⟨'b', 0, 2, .ok [2, 4]⟩, ⟨'a', 2, 2, .ok [5, 6]⟩,
        ⟨'b', 2, 2, .ok [7, 8]⟩] := by
    obtain ⟨-, rfl⟩ := (ofSources_iff (by decide)).mp hs
    decide +kernel
  refine ⟨s, hs, ?_⟩
  generalize hread : s.run (0, []) (List.replicate 8 .next) = outcome at hlog ⊢
  obtain ⟨events, t, w, log⟩ := outcome
  obtain ⟨-, -, -, -, hall, hfinished, -⟩ := hrun s hs 8 0 events t w log hread
  have hend := hfinished (by decide)
  exact ⟨hend, hlog, hall hend⟩

end SearchSync.Scan
