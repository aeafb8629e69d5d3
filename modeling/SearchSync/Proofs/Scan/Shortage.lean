import Mathlib.Data.List.Infix
import SearchSync.Proofs.Scan.Retry

/-!
# Sources that announce too much

A source may announce more rows than it has. Such a scan goes like the merge of the rows that there
are until one of these sources has returned its last row. From then on every step fails with the
name of the first such source and the number of its rows that are missing.
-/
namespace SearchSync.Scan

variable {κ α σ : Type}

/-- Rows of which each page has as many as are asked for, and the number of rows announced. -/
structure Offer (κ α : Type) where
  tag : κ
  rows : List α
  count : UInt64

namespace Offer

def fetchPage (o : Offer κ α) (offset limit : Nat) (w : σ) : Except String (List α) × σ :=
  (.ok ((o.rows.drop offset).take limit), w)

def source (o : Offer κ α) : Source κ α σ := .start o.tag o.count o.fetchPage

def queue (o : Offer κ α) : Queue κ α := ⟨o.tag, o.rows.take o.count.toNat⟩

def shortage (o : Offer κ α) : ScanError κ :=
  .sourceExhausted o.tag (o.count.toNat - o.rows.length)

variable [DecidableEq κ] {o : Offer κ α} {read : List (Candidate κ α)} {s t : Source κ α σ}
  {limit : Nat} {c : Candidate κ α}

def given (o : Offer κ α) (read : List (Candidate κ α)) : Nat :=
  read.countP fun c => c.source = o.tag

/-- The source has returned all rows it has, and more are announced. -/
def Spent (o : Offer κ α) (read : List (Candidate κ α)) : Prop :=
  o.rows.length ≤ o.given read ∧ o.rows.length < o.count.toNat

instance (o : Offer κ α) (read : List (Candidate κ α)) : Decidable (o.Spent read) :=
  inferInstanceAs (Decidable (_ ∧ _))

def rest (o : Offer κ α) (read : List (Candidate κ α)) : Queue κ α :=
  ⟨o.tag, o.queue.rows.drop (o.given read)⟩

theorem given_concat (o : Offer κ α) (read : List (Candidate κ α)) (c : Candidate κ α) :
    o.given (read ++ [c]) = o.given read + if c.source = o.tag then 1 else 0 := by
  simp only [given, List.countP_append, List.countP_singleton, decide_eq_true_eq]

theorem pop_rest (offers : List (Offer κ α)) (read : List (Candidate κ α)) (c : Candidate κ α) :
    pop c.source (offers.map (·.rest read)) = offers.map (·.rest (read ++ [c])) := by
  rw [pop, List.map_map]
  apply List.map_congr_left
  intro o _
  by_cases h : c.source = o.tag
  · simp [rest, Queue.tail, given_concat, h]
  · simp [rest, given_concat, h, eq_comm]

/-- The source has returned its part of the rows read. -/
structure Stands (read : List (Candidate κ α)) (s : Source κ α σ) (o : Offer κ α) : Prop where
  tag : s.tag = o.tag
  fetchPage : s.fetchPage = o.fetchPage
  processed : s.processed.toNat = o.given read
  counted : s.processed.toNat + s.remaining.toNat = o.count.toNat
  within : s.processed.toNat ≤ o.rows.length
  buffered : s.buffer <+: o.rows.drop s.processed.toNat

theorem stands_source (o : Offer κ α) : o.Stands [] (o.source : Source κ α σ) where
  tag := rfl
  fetchPage := rfl
  processed := rfl
  counted := Nat.zero_add _
  within := Nat.zero_le _
  buffered := List.nil_prefix

theorem Stands.refill_spent (h : o.Stands read s) (hspent : o.Spent read) (limit : Nat) (w : σ) :
    s.refill limit w = (.error o.shortage, w) := by
  obtain ⟨hall, hshort⟩ := hspent
  have hprocessed := h.processed
  have hcounted := h.counted
  have hwithin := h.within
  have hremaining : s.remaining.toNat = o.count.toNat - o.rows.length := by omega
  have hexpected : ¬s.remaining = 0 := by
    intro hzero
    rw [hzero] at hremaining
    simp at hremaining
    omega
  have hend : o.rows.drop s.processed.toNat = [] := by
    rw [List.drop_eq_nil_iff]
    omega
  have hbuffer : s.buffer = [] := by
    have hprefix := h.buffered
    rwa [hend, List.prefix_nil] at hprefix
  unfold Source.refill
  rw [if_neg (by simp [hexpected, hbuffer]), h.fetchPage]
  simp only [Offer.fetchPage, hend, List.take_nil, h.tag, hremaining, shortage]

theorem Stands.refill (h : o.Stands read s) (hlimit : 0 < limit) (hleft : ¬o.Spent read) (w : σ) :
    ∃ t, s.refill limit w = (.ok t, w) ∧ o.Stands read t := by
  unfold Source.refill
  by_cases hready : s.remaining = 0 ∨ s.buffer ≠ []
  · rw [if_pos hready]
    exact ⟨s, rfl, h⟩
  · have hexpected := Source.remaining_ne_zero fun hzero => hready (Or.inl hzero)
    have hmore : s.processed.toNat < o.rows.length := by
      have hprocessed := h.processed
      have hcounted := h.counted
      have hwithin := h.within
      unfold Spent at hleft
      omega
    obtain ⟨v, later, hpage⟩ :
        ∃ v later, (o.rows.drop s.processed.toNat).take limit = v :: later := by
      apply List.exists_cons_of_ne_nil
      rw [ne_eq, List.take_eq_nil_iff, List.drop_eq_nil_iff]
      omega
    refine ⟨{ s with buffer := v :: later }, ?_, h.tag, h.fetchPage, h.processed, h.counted,
      h.within, ?_⟩
    · rw [if_neg hready, h.fetchPage]
      simp only [Offer.fetchPage, hpage]
    · rw [← hpage]
      exact List.take_prefix _ _

theorem Stands.head?_eq (h : o.Stands read s) (hready : s.Ready) :
    s.head? = (o.rest read).head? := by
  have hcounted := h.counted
  have hleft : o.count.toNat - s.processed.toNat = s.remaining.toNat := by omega
  have hrest : o.rest read = ⟨s.tag, (o.rows.drop s.processed.toNat).take s.remaining.toNat⟩ := by
    rw [rest, queue, List.drop_take, ← h.processed, hleft, h.tag]
  rw [hrest]
  exact Source.head?_of_buffered hready h.buffered

theorem Stands.take (h : o.Stands read s) (hhead : s.head? = some c) {v : Except (ScanError κ) α}
    (htake : s.take = (v, t)) : v = .ok c.value ∧ o.Stands (read ++ [c]) t := by
  have hfits : s.processed.toNat + s.remaining.toNat < UInt64.size := by
    rw [h.counted]
    exact o.count.toNat_lt
  obtain ⟨buffered, processed, remaining, hbuffer, hsource, hok, hp, hr, hbuffered⟩ :=
    Source.take_of_buffered hhead hfits h.buffered
  rw [hok] at htake
  cases htake
  have hown : c.source = o.tag := hsource.trans h.tag
  have hcounted := h.counted
  have hmore := h.buffered.length_le
  rw [hbuffer, List.length_cons, List.length_drop] at hmore
  refine ⟨rfl, h.tag, h.fetchPage, ?_, ?_, ?_, hbuffered⟩
  · rw [given_concat, if_pos hown, ← h.processed, hp]
  · dsimp only
    omega
  · dsimp only
    omega

theorem Stands.other (h : o.Stands read s) (hother : c.source ≠ o.tag) :
    o.Stands (read ++ [c]) s := by
  refine ⟨h.tag, h.fetchPage, ?_, h.counted, h.within, h.buffered⟩
  rw [given_concat, if_neg hother, h.processed, Nat.add_zero]

end Offer

section Sources

variable [DecidableEq κ] {offers : List (Offer κ α)} {read : List (Candidate κ α)}
  {sources : List (Source κ α σ)}

theorem refillAll_offers (h : List.Forall₂ (Offer.Stands read) sources offers) {limit : Nat}
    (hlimit : 0 < limit) (w : σ) :
    ∃ sources', refillAll limit sources w =
        ((offers.find? (·.Spent read)).map Offer.shortage, sources', w) ∧
      List.Forall₂ (Offer.Stands read) sources' offers := by
  induction h with
  | nil => exact ⟨[], rfl, .nil⟩
  | @cons s o sources offers hs hrest ih =>
    by_cases hspent : o.Spent read
    · refine ⟨s :: sources, ?_, .cons hs hrest⟩
      simp only [refillAll, hs.refill_spent hspent limit w, List.find?_cons, hspent, decide_true,
        Option.map_some]
    · obtain ⟨t, ht, hstands⟩ := hs.refill hlimit hspent w
      obtain ⟨sources', hrefill, hrefilled⟩ := ih
      refine ⟨t :: sources', ?_, .cons hstands hrefilled⟩
      simp only [refillAll, ht, hrefill, List.find?_cons, hspent, decide_false]

theorem head?_offers (h : List.Forall₂ (Offer.Stands read) sources offers)
    (hready : ∀ s ∈ sources, s.Ready) :
    List.Forall₂ (fun s q => s.head? = q.head?) sources (offers.map (·.rest read)) := by
  induction h with
  | nil => exact .nil
  | cons hs _ ih =>
    obtain ⟨hnow, hlater⟩ := List.forall_mem_cons.mp hready
    exact .cons (hs.head?_eq hnow) (ih hlater)

theorem stands_others (h : List.Forall₂ (Offer.Stands read) sources offers) {c : Candidate κ α}
    (hothers : ∀ o ∈ offers, c.source ≠ o.tag) :
    List.Forall₂ (Offer.Stands (read ++ [c])) sources offers := by
  induction h with
  | nil => exact .nil
  | cons hs _ ih =>
    obtain ⟨hother, hothers⟩ := List.forall_mem_cons.mp hothers
    exact .cons (hs.other hother) (ih hothers)

theorem take_offers {before after : List (Source κ α σ)} {s t : Source κ α σ} {c : Candidate κ α}
    {v : Except (ScanError κ) α}
    (h : List.Forall₂ (Offer.Stands read) (before ++ s :: after) offers)
    (hdistinct : (offers.map (·.tag)).Nodup) (hhead : s.head? = some c) (htake : s.take = (v, t)) :
    v = .ok c.value ∧ List.Forall₂ (Offer.Stands (read ++ [c])) (before ++ t :: after) offers := by
  obtain ⟨earlier, o, later, rfl, hbefore, hs, hafter⟩ := forall₂_split h
  obtain ⟨hv, ht⟩ := hs.take hhead htake
  have hown : c.source = o.tag := (Source.head?_eq_some hhead).2.1.trans hs.tag
  rw [List.map_append, List.map_cons, List.nodup_append, List.nodup_cons] at hdistinct
  obtain ⟨-, ⟨hlater, -⟩, hearlier⟩ := hdistinct
  refine ⟨hv, List.rel_append (stands_others hbefore ?_) (.cons ht (stands_others hafter ?_))⟩
  · intro o' ho' heq
    exact hearlier _ (List.mem_map_of_mem ho') _ List.mem_cons_self (heq.symm.trans hown)
  · intro o' ho' heq
    exact hlater (List.mem_map.mpr ⟨o', ho', heq.symm.trans hown⟩)

end Sources

section Steps

variable [DecidableEq κ] {offers : List (Offer κ α)} {read : List (Candidate κ α)}
  {s : Scan κ α σ}

theorem next_spent (h : List.Forall₂ (Offer.Stands read) s.sources offers) {o : Offer κ α}
    (hspent : offers.find? (·.Spent read) = some o) (w : σ) :
    ∃ t, s.next w = (.error o.shortage, t, w) ∧ t.current = none ∧
      List.Forall₂ (Offer.Stands read) t.sources offers := by
  obtain ⟨sources, hrefill, hstands⟩ := refillAll_offers h s.batchSize_pos w
  rw [hspent, Option.map_some] at hrefill
  refine ⟨{ s with sources, current := none }, ?_, rfl, hstands⟩
  simp only [next, hrefill]

theorem next_unspent (h : List.Forall₂ (Offer.Stands read) s.sources offers)
    (hdistinct : (offers.map (·.tag)).Nodup) (hleft : offers.find? (·.Spent read) = none)
    {c : Candidate κ α} (hfirst : first? s.comparator (offers.map (·.rest read)) = some c) (w : σ) :
    ∃ t, s.next w = (.ok true, t, w) ∧ t.current = some c ∧ t.comparator = s.comparator ∧
      List.Forall₂ (Offer.Stands (read ++ [c])) t.sources offers := by
  obtain ⟨sources, hrefill, hstands⟩ := refillAll_offers h s.batchSize_pos w
  rw [hleft, Option.map_none] at hrefill
  have hheads := head?_offers hstands (refillAll_ready hrefill)
  generalize hnext : s.next w = outcome
  obtain ⟨r, t, w'⟩ := outcome
  obtain ⟨stop, sources', hrefill', hend⟩ := next_turn hnext
  rw [hrefill] at hrefill'
  cases hrefill'
  obtain ⟨sources', current, hturn, rfl⟩ := hend
  rw [← winner?_eq hheads] at hfirst
  cases hturn with
  | finished nothing =>
    rw [winner?_eq_none s.comparator nothing] at hfirst
    cases hfirst
  | returned split winner head take =>
    rw [winner] at hfirst
    cases hfirst
    rw [split] at hstands
    exact ⟨_, rfl, rfl, rfl, (take_offers hstands hdistinct head take).2⟩
  | uncounted split head take =>
    rw [split] at hstands
    cases (take_offers hstands hdistinct head take).1

end Steps

section Reading

variable [DecidableEq κ] {offers : List (Offer κ α)} {read : List (Candidate κ α)}
  {s : Scan κ α σ}

theorem first?_of_short (comparator : Comparator κ α)
    (hshort : ∃ o ∈ offers, o.rows.length < o.count.toNat)
    (hleft : offers.find? (·.Spent read) = none) :
    ∃ c, first? comparator (offers.map (·.rest read)) = some c := by
  obtain ⟨o, ho, hcount⟩ := hshort
  cases hfirst : first? comparator (offers.map (·.rest read)) with
  | some c => exact ⟨c, rfl⟩
  | none =>
    have hnone := List.flatMap_eq_nil_iff.mp (candidates_of_first?_eq_none hfirst) _
      (List.mem_map_of_mem ho)
    have hlength : (o.queue.rows.drop (o.given read)).length = 0 := by
      rw [List.length_eq_zero_iff]
      exact List.map_eq_nil_iff.mp hnone
    have hunspent : ¬o.Spent read := by simpa using List.find?_eq_none.mp hleft o ho
    simp only [Offer.queue, List.length_drop, List.length_take] at hlength
    unfold Offer.Spent at hunspent
    omega

theorem exists_shortage (comparator : Comparator κ α)
    (hshort : ∃ o ∈ offers, o.rows.length < o.count.toNat) (read : List (Candidate κ α)) :
    ∃ more o, more <+: merge comparator (offers.map (·.rest read)) ∧
      offers.find? (·.Spent (read ++ more)) = some o ∧
      ∀ earlier, earlier <+: more → earlier ≠ more →
        offers.find? (·.Spent (read ++ earlier)) = none := by
  generalize hmerge : merge comparator (offers.map (·.rest read)) = left
  induction left generalizing read with
  | nil =>
    cases hfind : offers.find? (·.Spent read) with
    | none =>
      obtain ⟨c, hfirst⟩ := first?_of_short comparator hshort hfind
      rw [merge_of_some hfirst] at hmerge
      cases hmerge
    | some o => exact ⟨[], o, List.nil_prefix, by rwa [List.append_nil], by simp⟩
  | cons d left ih =>
    cases hfind : offers.find? (·.Spent read) with
    | none =>
      obtain ⟨c, hfirst⟩ := first?_of_short comparator hshort hfind
      rw [merge_of_some hfirst, Offer.pop_rest] at hmerge
      obtain ⟨rfl, hrest⟩ := List.cons.inj hmerge
      obtain ⟨more, o, hprefix, hspent, hunspent⟩ := ih (read ++ [c]) hrest
      rw [← List.append_cons] at hspent
      refine ⟨c :: more, o, List.cons_prefix_cons.mpr ⟨rfl, hprefix⟩, hspent, ?_⟩
      intro earlier hearlier hne
      cases earlier with
      | nil => rwa [List.append_nil]
      | cons d earlier =>
        obtain ⟨rfl, hlater⟩ := List.cons_prefix_cons.mp hearlier
        have h := hunspent earlier hlater fun heq => hne (by rw [heq])
        rwa [← List.append_cons] at h
    | some o => exact ⟨[], o, List.nil_prefix, by rwa [List.append_nil], by simp⟩

theorem run_unspent (h : List.Forall₂ (Offer.Stands read) s.sources offers)
    (hdistinct : (offers.map (·.tag)).Nodup) {more : List (Candidate κ α)}
    (hmore : more <+: merge s.comparator (offers.map (·.rest read)))
    (hunspent : ∀ earlier, earlier <+: more → earlier ≠ more →
      offers.find? (·.Spent (read ++ earlier)) = none) (w : σ) :
    ∃ t, s.run w (List.replicate more.length .next) = (more.map .returned, t, w) ∧
      List.Forall₂ (Offer.Stands (read ++ more)) t.sources offers := by
  induction more generalizing s read with
  | nil => exact ⟨s, rfl, by rwa [List.append_nil]⟩
  | cons c more ih =>
    have hleft := hunspent [] List.nil_prefix (by simp)
    rw [List.append_nil] at hleft
    cases hfirst : first? s.comparator (offers.map (·.rest read)) with
    | none =>
      rw [merge_of_none hfirst, List.prefix_nil] at hmore
      cases hmore
    | some d =>
      rw [merge_of_some hfirst, Offer.pop_rest] at hmore
      obtain ⟨rfl, hmore⟩ := List.cons_prefix_cons.mp hmore
      obtain ⟨t, hnext, hcurrent, hsame, hstands⟩ := next_unspent h hdistinct hleft hfirst w
      rw [← hsame] at hmore
      obtain ⟨t', hrun, hstands'⟩ := ih hstands hmore fun earlier hearlier hne => by
        have h := hunspent (c :: earlier) (List.cons_prefix_cons.mpr ⟨rfl, hearlier⟩) (by simpa)
        rwa [← List.append_cons]
      rw [← List.append_cons] at hstands'
      exact ⟨t', run_cons (use_of_returned hnext hcurrent) hrun, hstands'⟩

theorem run_spent (h : List.Forall₂ (Offer.Stands read) s.sources offers) {o : Offer κ α}
    (hspent : offers.find? (·.Spent read) = some o) (n : Nat) (w : σ) :
    ∃ t, s.run w (List.replicate n .next) = (List.replicate n (.failed o.shortage), t, w) ∧
      List.Forall₂ (Offer.Stands read) t.sources offers ∧ (n ≠ 0 → t.current = none) := by
  induction n generalizing s with
  | zero => exact ⟨s, rfl, h, fun hzero => absurd rfl hzero⟩
  | succ n ih =>
    obtain ⟨t, hnext, hcurrent, hstands⟩ := next_spent h hspent w
    obtain ⟨t', hrun, hstands', hcurrent'⟩ := ih hstands
    refine ⟨t', run_cons (use_of_failed hnext) hrun, hstands', fun _ => ?_⟩
    cases n with
    | zero =>
      cases hrun
      exact hcurrent
    | succ n => exact hcurrent' (Nat.succ_ne_zero n)

end Reading

def counters (s : Scan κ α σ) : List (κ × Nat × Nat) :=
  s.sources.map fun t => (t.tag, t.processed.toNat, t.remaining.toNat)

theorem counters_of_stands [DecidableEq κ] {s : Scan κ α σ} {offers : List (Offer κ α)}
    {read : List (Candidate κ α)} (h : List.Forall₂ (Offer.Stands read) s.sources offers) :
    s.counters = offers.map fun o => (o.tag, o.given read, o.count.toNat - o.given read) := by
  unfold counters
  generalize s.sources = sources at h
  induction h with
  | nil => rfl
  | @cons t o _ _ ht _ ih =>
    have hcounted := ht.counted
    have hprocessed := ht.processed
    have hremaining : t.remaining.toNat = o.count.toNat - o.given read := by omega
    rw [List.map_cons, List.map_cons, ih, ht.tag, hprocessed, hremaining]

/-- Where some source announces more rows than it has, a scan returns the merge of the rows that
there are up to the first moment at which a source is spent. Every later step fails with the first
such source and the number of its missing rows, returns no row and leaves all counters as they
are. -/
theorem shortage_reported [DecidableEq κ] (comparator : Comparator κ α) {batchSize : Nat}
    (hsize : 0 < batchSize) {offers : List (Offer κ α)} (hdistinct : (offers.map (·.tag)).Nodup)
    (hshort : ∃ o ∈ offers, o.rows.length < o.count.toNat) :
    ∃ (s : Scan κ α σ) (read : List (Candidate κ α)) (short : Offer κ α),
      ofSources comparator batchSize (offers.map (·.source)) = .ok s ∧
      read <+: merge comparator (offers.map (·.queue)) ∧
      offers.find? (·.Spent read) = some short ∧
      (∀ earlier, earlier <+: read → earlier ≠ read → ∀ o ∈ offers, ¬o.Spent earlier) ∧
      ∀ n w, ∃ t, s.run w (List.replicate (read.length + n) .next) =
          (read.map .returned ++ List.replicate n (.failed
            (.sourceExhausted short.tag (short.count.toNat - short.rows.length))), t, w) ∧
        t.counters = offers.map (fun o => (o.tag, o.given read, o.count.toNat - o.given read)) ∧
        (n ≠ 0 → t.get = .error .invalidState ∧ t.currentSource = .error .invalidState) := by
  have htags : ((offers.map (·.source)).map (fun s : Source κ α σ => s.tag)).Nodup := by
    rwa [List.map_map]
  have hstart : List.Forall₂ (Offer.Stands []) (offers.map (·.source) : List (Source κ α σ))
      offers := by
    rw [List.forall₂_map_left_iff, List.forall₂_same]
    exact fun o _ => o.stands_source
  obtain ⟨read, short, hread, hspent, hunspent⟩ := exists_shortage comparator hshort []
  refine ⟨_, read, short, ofSources_ok comparator hsize htags, hread, hspent, ?_, ?_⟩
  · intro earlier hearlier hne o ho
    simpa using List.find?_eq_none.mp (hunspent earlier hearlier hne) o ho
  · intro n w
    obtain ⟨t, hrun, ht⟩ := run_unspent (s := ⟨comparator, batchSize, hsize, _, none⟩) hstart
      hdistinct hread hunspent w
    obtain ⟨u, hfailing, hu, hcurrent⟩ := run_spent ht hspent n w
    refine ⟨u, ?_, counters_of_stands hu, fun hn => ?_⟩
    · rw [List.replicate_add]
      exact run_append hrun hfailing
    · simp only [get, currentSource, hcurrent hn, and_self]

namespace Sample

def offers : List (Offer Char Nat) := [⟨'a', [1, 4, 6], 3⟩, ⟨'b', [2, 3], 3⟩, ⟨'c', [3, 5], 4⟩]

def shortRead : List (Candidate Char Nat) := [⟨'a', 1⟩, ⟨'b', 2⟩, ⟨'b', 3⟩]

end Sample

/-- The third row read is the last of the second source, of which one more is expected. -/
theorem shortage_reported_letters :
    (∃ o ∈ Sample.offers, o.rows.length < o.count.toNat) ∧
      ∃ s : Scan Char Nat Nat, ofSources (fun c d => compare c.value d.value) 2
          (Sample.offers.map (·.source)) = .ok s ∧
        ∀ n, (s.run 0 (List.replicate (3 + n) .next)).1 =
          [.returned ⟨'a', 1⟩, .returned ⟨'b', 2⟩, .returned ⟨'b', 3⟩] ++
            List.replicate n (.failed (.sourceExhausted 'b' 1)) := by
  have hshort : ∃ o ∈ Sample.offers, o.rows.length < o.count.toNat := by decide
  obtain ⟨s, read, short, hs, hprefix, hspent, hunspent, hrun⟩ :=
    shortage_reported (σ := Nat) (fun c d => compare c.value d.value) (by decide : 0 < 2)
      (by decide : (Sample.offers.map (·.tag)).Nodup) hshort
  have hmerge : Sample.shortRead <+: merge (fun c d => compare c.value d.value)
      (Sample.offers.map (·.queue)) := by decide +kernel
  have hread : read = Sample.shortRead := by
    by_contra hne
    rcases List.prefix_or_prefix_of_prefix hprefix hmerge with hearlier | hlater
    · have hnone : ∀ earlier ∈ Sample.shortRead.inits, earlier ≠ Sample.shortRead →
          Sample.offers.find? (·.Spent earlier) = none := by decide
      rw [hnone read ((List.mem_inits _ _).mpr hearlier) hne] at hspent
      cases hspent
    · have hb : (⟨'b', [2, 3], 3⟩ : Offer Char Nat).Spent Sample.shortRead := by decide
      exact hunspent _ hlater (Ne.symm hne) _ (by simp [Sample.offers]) hb
  subst hread
  have hb : short = ⟨'b', [2, 3], 3⟩ := by
    have hfind : Sample.offers.find? (·.Spent Sample.shortRead) = some ⟨'b', [2, 3], 3⟩ := rfl
    rw [hfind] at hspent
    exact (Option.some.inj hspent).symm
  refine ⟨hshort, s, hs, fun n => ?_⟩
  obtain ⟨t, hevents, -⟩ := hrun n 0
  rw [hb] at hevents
  exact congrArg Prod.fst hevents

end SearchSync.Scan
