import SearchSync.Proofs.Scan.Moves
import SearchSync.Proofs.Scan.Shortage

/-!
# What a failed step leaves behind

A step that fails because of a page leaves every counter and every buffered row where it was, and
keeps the pages that other sources got before. There is a third way to fail: a source that was moved
to the last position that is a machine word cannot count the row it is to return. The row has been
taken out of the buffer by then, so it is lost.
-/
namespace SearchSync.Scan

variable {κ α σ : Type}

/-- The source is as before, or had nothing buffered and now has the page that was fetched at its
position. -/
inductive Source.Kept (limit : Nat) (requests : List (Request κ α)) (s : Source κ α σ) :
    Source κ α σ → Prop
  | same : Kept limit requests s s
  | fetched {page : List α} (empty : s.buffer = [])
      (asked : ⟨s.tag, s.processed.toNat, limit, .ok page⟩ ∈ requests) :
      Kept limit requests s { s with buffer := page }

section Sources

variable {limit : Nat} {sources sources' : List (Source κ α σ)} {requests : List (Request κ α)}
  {stop : Option (ScanError κ)}

theorem Refilling.kept (h : Refilling limit sources requests stop sources')
    {all : List (Request κ α)} (hall : ∀ r ∈ requests, r ∈ all) :
    List.Forall₂ (Source.Kept limit all) sources sources' := by
  have hsame (s : Source κ α σ) (rest : List (Source κ α σ)) :
      List.Forall₂ (Source.Kept limit all) (s :: rest) (s :: rest) := by
    rw [List.forall₂_same]
    exact fun _ _ => .same
  induction h with
  | done => exact .nil
  | ready _ _ ih => exact .cons .same (ih hall)
  | fetched _ empty _ _ ih =>
    obtain ⟨hfirst, hrest⟩ := List.forall_mem_cons.mp hall
    exact .cons (.fetched empty hfirst) (ih hrest)
  | failed => exact hsame _ _
  | exhausted => exact hsame _ _

theorem kept_counters (h : List.Forall₂ (Source.Kept limit requests) sources sources') :
    sources'.map (fun t => (t.tag, t.processed.toNat, t.remaining.toNat)) =
      sources.map fun t => (t.tag, t.processed.toNat, t.remaining.toNat) := by
  induction h with
  | nil => rfl
  | cons hs _ ih =>
    rw [List.map_cons, List.map_cons, ih]
    cases hs <;> rfl

theorem kept_buffers (h : List.Forall₂ (Source.Kept limit requests) sources sources') :
    List.Forall₂ (fun before after => before = [] ∨ after = before) (sources.map (·.buffer))
      (sources'.map (·.buffer)) := by
  induction h with
  | nil => exact .nil
  | cons hs _ ih =>
    refine .cons ?_ ih
    cases hs with
    | same => exact Or.inr rfl
    | fetched empty => exact Or.inl empty

end Sources

/-- The next position is no machine word only if this one is the last. -/
theorem Source.processed_of_drift {s t : Source κ α σ} {c : Candidate κ α}
    (hhead : s.head? = some c)
    (htake : s.take = (.error (.counterDrift s.tag .processed), t)) :
    s.processed.toNat + 1 = UInt64.size := by
  obtain ⟨-, -, rest, hbuffer⟩ := head?_eq_some hhead
  have hlt : s.processed.toNat < UInt64.size := s.processed.toNat_lt
  by_contra hne
  obtain ⟨processed, hprocessed, -⟩ :=
    Bounded.exists_uint64? (n := s.processed.toNat + 1) (by omega)
  have hsucc : Int.ofNat s.processed.toNat + 1 = ((s.processed.toNat + 1 : Nat) : Int) := rfl
  unfold take at htake
  rw [hbuffer] at htake
  simp only [advance, hsucc, hprocessed] at htake
  cases hremaining : Bounded.uint64? (Int.ofNat s.remaining.toNat - 1) with
  | none =>
    simp only [hremaining] at htake
    cases htake
  | some remaining =>
    simp only [hremaining] at htake
    cases htake

theorem Source.buffer_of_drift {s : Source κ α σ} {c : Candidate κ α} {rest : List α}
    (hhead : s.head? = some c)
    (htake : s.take = (.error (.counterDrift s.tag .processed), { s with buffer := rest })) :
    s.buffer = c.value :: rest := by
  rcases take_cases hhead with ⟨_, _, _, -, hok, -⟩ | ⟨later, hbuffer, hdrift⟩
  · rw [htake] at hok
    cases hok
  · rw [htake] at hdrift
    cases hdrift
    exact hbuffer

/-- In any session, however its pages are answered, a step that fails leaves all counters as they
were. If a page failed or was empty, every buffer is kept, but for the pages that were fetched into
empty ones just before. Otherwise a source stands at the last position that is a machine word, and
the row that it was to return next is lost. -/
theorem failed_next_keeps [DecidableEq κ] {comparator : Comparator κ α} {batchSize : Nat}
    {begun s t : Scan κ α (σ × List (Request κ α))} {w w' w'' : σ} {log log' : List (Request κ α)}
    {uses : List (Use κ α σ)} {events : List (Event κ α)} {e : ScanError κ}
    (hbegun : withBatchSize comparator batchSize = .ok begun)
    (hrun : begun.run (w, []) (uses.map Use.noted) = (events, s, w', log))
    (hnext : s.next (w', log) = (.error e, t, w'', log')) :
    t.current = none ∧ t.counters = s.counters ∧
      ∃ requests kept, log' = log ++ requests ∧
        List.Forall₂ (Source.Kept batchSize requests) s.sources kept ∧
        ((((∃ tag cause, e = .fetch tag cause) ∨ ∃ tag n, e = .sourceExhausted tag n) ∧
            t.sources = kept) ∨
          ∃ before x after v rest, kept = before ++ x :: after ∧ x.buffer = v :: rest ∧
            x.remaining ≠ 0 ∧ x.processed.toNat + 1 = UInt64.size ∧
            e = .counterDrift x.tag .processed ∧
            t.sources = before ++ { x with buffer := rest } :: after) := by
  obtain ⟨hnone, hsize⟩ := withBatchSize_ok hbegun
  have hfirst : begun.Observed := by
    constructor <;> simp [hnone]
  obtain ⟨-, -, hobserved, hsame, -⟩ := hfirst.run hrun
  rw [hsize] at hsame
  obtain ⟨stop, sources, hrefill, hend⟩ := next_turn hnext
  obtain ⟨requests, hlog, hrefilling⟩ := refillAll_noted hobserved.noted hrefill
  rw [List.map_id] at hlog
  have hkept := hrefilling.kept fun _ => id
  have hcounters := kept_counters hkept
  rw [hsame] at hkept
  cases stop with
  | some e' =>
    obtain ⟨he, rfl⟩ := hend
    obtain rfl := Except.error.inj he
    refine ⟨rfl, hcounters, requests, sources, hlog, hkept, Or.inl ⟨?_, rfl⟩⟩
    obtain ⟨x, -, hreason⟩ := refillAll_unfilled hrefill
    cases hreason with
    | fetch => exact Or.inl ⟨_, _, rfl⟩
    | exhausted => exact Or.inr ⟨_, _, rfl⟩
  | none =>
    obtain ⟨sources', current, hturn, rfl⟩ := hend
    cases hturn with
    | @uncounted before after x c rest split head take =>
      subst split
      refine ⟨rfl, ?_, requests, _, hlog, hkept, Or.inr ⟨before, x, after, c.value, rest, rfl,
        Source.buffer_of_drift head take, (Source.head?_eq_some head).1,
        Source.processed_of_drift head take, rfl, rfl⟩⟩
      rw [counters, counters, ← hcounters]
      simp only [List.map_append, List.map_cons]

namespace Sample

def edge : List (Use Char Nat Nat) :=
  [.add 'a' 2 (pages [5, 6]), .add 'b' 2 (pages [1, 2]), .next, .move 'b' 9223372036854775807,
    .move 'b' 9223372036854775807]

def cut : List (Use Char Nat Nat) :=
  [.add 'a' 2 (pages [5, 6]), .add 'b' 2 fun _ _ calls => (.error "down", calls + 1)]

end Sample

theorem failed_next_keeps_page :
    ∃ s t log log', Sample.watched.run (0, []) (Sample.cut.map Use.noted) =
        ([.added 'a' 2, .added 'b' 2], s, 0, log) ∧
      s.next (0, log) = (.error (.fetch 'b' "down"), t, 2, log') ∧
      t.sources.map (·.buffer) = [[5, 6], []] ∧ t.counters = s.counters ∧
      ∃ requests, List.Forall₂ (Source.Kept 2 requests) s.sources t.sources := by
  have hbegun : withBatchSize (fun c d : Candidate Char Nat => compare c.value d.value) 2 =
      .ok Sample.watched := rfl
  have hrun : Sample.watched.run (0, []) (Sample.cut.map Use.noted) =
    ([.added 'a' 2, .added 'b' 2], _, 0, []) := rfl
  refine ⟨_, _, _, _, hrun, rfl, rfl, ?_⟩
  obtain ⟨-, hcounters, requests, kept, -, hkept, hend⟩ := failed_next_keeps hbegun hrun rfl
  refine ⟨hcounters, requests, ?_⟩
  rcases hend with ⟨-, hsources⟩ | ⟨_, _, _, _, _, -, -, -, -, hdrift, -⟩
  · rw [hsources]
    exact hkept
  · cases hdrift

/-- The row after the one returned is buffered before the step that fails, and not afterwards. -/
theorem failed_next_loses_row :
    ∃ s t log, Sample.watched.run (0, []) (Sample.edge.map Use.noted) =
        ([.added 'a' 2, .added 'b' 2, .returned ⟨'b', 1⟩, .moved 'b' 9223372036854775807,
          .moved 'b' 9223372036854775807], s, 2, log) ∧
      s.next (2, log) = (.error (.counterDrift 'b' .processed), t, 2, log) ∧
      s.sources.map (·.buffer) = [[5, 6], [2]] ∧ t.sources.map (·.buffer) = [[5, 6], []] ∧
      ∀ requests, ¬List.Forall₂ (Source.Kept 2 requests) s.sources t.sources := by
  have hlost {sources sources' : List (Source Char Nat (Nat × List (Request Char Nat)))}
      (hbefore : sources.map (·.buffer) = [[5, 6], [2]])
      (hafter : sources'.map (·.buffer) = [[5, 6], []]) (requests : List (Request Char Nat)) :
      ¬List.Forall₂ (Source.Kept 2 requests) sources sources' := by
    intro h
    have hbuffers := kept_buffers h
    rw [hbefore, hafter] at hbuffers
    simp at hbuffers
  exact ⟨_, _, _, rfl, rfl, rfl, rfl, hlost rfl rfl⟩

end SearchSync.Scan
