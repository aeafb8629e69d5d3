import Mathlib.Data.List.Nodup
import SearchSync.Proofs.Scan.Step

/-!
# What is asked of the sources

Sources whose requests for pages are entered in a journal, which is kept beside the world that
answers them. Refilling adds the requests of the sources that need a page, in order and up to the
first that gets none, and what was fetched is what the journal says.
-/
namespace SearchSync.Scan

variable {κ α σ ε : Type}

structure Request (κ α : Type) where
  source : κ
  offset : Nat
  limit : Nat
  answer : Except String (List α)
  deriving DecidableEq

def noted (note : Request κ α → ε) (tag : κ)
    (fetchPage : Nat → Nat → σ → Except String (List α) × σ) (offset limit : Nat)
    (w : σ × List ε) : Except String (List α) × (σ × List ε) :=
  match fetchPage offset limit w.1 with
  | (answer, world) => (answer, world, w.2 ++ [note ⟨tag, offset, limit, answer⟩])

namespace Request

def page (r : Request κ α) : List α := r.answer.toOption.getD []

def Answered (r : Request κ α) : Prop := ∃ page, r.answer = .ok page

end Request

def fetchedFrom [DecidableEq κ] (tag : κ) (requests : List (Request κ α)) : List α :=
  (requests.filter fun r => r.source = tag).flatMap Request.page

section Fetched

variable [DecidableEq κ] {tag : κ} {requests : List (Request κ α)}

theorem fetchedFrom_append (tag : κ) (requests later : List (Request κ α)) :
    fetchedFrom tag (requests ++ later) = fetchedFrom tag requests ++ fetchedFrom tag later := by
  simp only [fetchedFrom, List.filter_append, List.flatMap_append]

theorem fetchedFrom_eq_nil (h : ∀ r ∈ requests, r.source ≠ tag) :
    fetchedFrom tag requests = [] := by
  have hnone : requests.filter (fun r => r.source = tag) = [] := by
    simpa [List.filter_eq_nil_iff] using h
  rw [fetchedFrom, hnone, List.flatMap_nil]

theorem fetchedFrom_cons (tag : κ) (r : Request κ α) (requests : List (Request κ α)) :
    fetchedFrom tag (r :: requests) =
      (if r.source = tag then r.page else []) ++ fetchedFrom tag requests := by
  by_cases h : r.source = tag
  · simp [fetchedFrom, h]
  · simp [fetchedFrom, h]

end Fetched

def Source.Noted (note : Request κ α → ε) (s : Source κ α (σ × List ε)) : Prop :=
  ∃ fetchPage, s.fetchPage = noted note s.tag fetchPage

theorem noted_of_origins {note : Request κ α → ε}
    {sources sources' : List (Source κ α (σ × List ε))}
    (hnoted : ∀ s ∈ sources, s.Noted note)
    (horigins : sources'.map Source.origin = sources.map Source.origin) :
    ∀ s ∈ sources', s.Noted note := by
  intro s hs
  have hmem : s.origin ∈ sources.map Source.origin := by
    rw [← horigins]
    exact List.mem_map_of_mem hs
  obtain ⟨t, ht, heq⟩ := List.mem_map.mp hmem
  obtain ⟨htag, hfetch⟩ := Prod.mk.inj heq
  obtain ⟨fetchPage, hnote⟩ := hnoted t ht
  refine ⟨fetchPage, ?_⟩
  rw [← hfetch, hnote, htag]

def Feed.noted (note : Request κ α → ε) (f : Feed κ α σ) : Feed κ α (σ × List ε) where
  tag := f.tag
  rows := f.rows
  count := f.count
  fetchPage := Scan.noted note f.tag f.fetchPage
  count_le := f.count_le
  page := by
    intro offset limit w page w' hoffset hlimit h
    obtain ⟨hpage, -⟩ := Prod.mk.inj h
    exact f.page hoffset hlimit (Prod.ext hpage rfl)

theorem Feed.noted_reliable {note : Request κ α → ε} {f : Feed κ α σ} (h : f.Reliable) :
    (f.noted note).Reliable := by
  intro offset limit w
  obtain ⟨page, w', hpage⟩ := h offset limit w.1
  refine ⟨page, (w', w.2 ++ [note ⟨f.tag, offset, limit, .ok page⟩]), ?_⟩
  simp only [noted, Scan.noted, hpage]

/-- Refilling sources in order: what is asked for, why it stops early if it does, and the sources
afterwards. -/
inductive Refilling (limit : Nat) : List (Source κ α σ) → List (Request κ α) →
    Option (ScanError κ) → List (Source κ α σ) → Prop
  | done : Refilling limit [] [] none []
  | ready {s : Source κ α σ} {sources sources' : List (Source κ α σ)}
      {requests : List (Request κ α)} {stop : Option (ScanError κ)} (ready : s.Ready)
      (rest : Refilling limit sources requests stop sources') :
      Refilling limit (s :: sources) requests stop (s :: sources')
  | fetched {s : Source κ α σ} {sources sources' : List (Source κ α σ)}
      {requests : List (Request κ α)} {stop : Option (ScanError κ)} {page : List α}
      (expected : s.remaining ≠ 0) (empty : s.buffer = []) (some : page ≠ [])
      (rest : Refilling limit sources requests stop sources') :
      Refilling limit (s :: sources) (⟨s.tag, s.processed.toNat, limit, .ok page⟩ :: requests) stop
        ({ s with buffer := page } :: sources')
  | failed {s : Source κ α σ} {sources : List (Source κ α σ)} {cause : String}
      (expected : s.remaining ≠ 0) (empty : s.buffer = []) :
      Refilling limit (s :: sources) [⟨s.tag, s.processed.toNat, limit, .error cause⟩]
        (some (.fetch s.tag cause)) (s :: sources)
  | exhausted {s : Source κ α σ} {sources : List (Source κ α σ)}
      (expected : s.remaining ≠ 0) (empty : s.buffer = []) :
      Refilling limit (s :: sources) [⟨s.tag, s.processed.toNat, limit, .ok []⟩]
        (some (.sourceExhausted s.tag s.remaining.toNat)) (s :: sources)

section Noted

variable {note : Request κ α → ε} {limit : Nat} {w w' : σ} {log log' : List ε}

theorem Source.refill_noted {s : Source κ α (σ × List ε)} (hnoted : s.Noted note)
    {r : Except (ScanError κ) (Source κ α (σ × List ε))}
    (h : s.refill limit (w, log) = (r, w', log')) :
    (s.Ready ∧ r = .ok s ∧ log' = log) ∨
      s.remaining ≠ 0 ∧ s.buffer = [] ∧ ∃ answer,
        log' = log ++ [note ⟨s.tag, s.processed.toNat, limit, answer⟩] ∧
          r = match answer with
            | .error cause => .error (.fetch s.tag cause)
            | .ok [] => .error (.sourceExhausted s.tag s.remaining.toNat)
            | .ok page => .ok { s with buffer := page } := by
  obtain ⟨fetchPage, hfetch⟩ := hnoted
  unfold refill at h
  by_cases hready : s.remaining = 0 ∨ s.buffer ≠ []
  · rw [if_pos hready] at h
    cases h
    exact Or.inl ⟨hready, rfl, rfl⟩
  · rw [if_neg hready] at h
    rw [not_or, not_not] at hready
    refine Or.inr ⟨hready.1, hready.2, ?_⟩
    obtain ⟨answer, world, hpage⟩ : ∃ answer world,
        s.fetchPage s.processed.toNat limit (w, log) =
          (answer, world, log ++ [note ⟨s.tag, s.processed.toNat, limit, answer⟩]) :=
      ⟨_, _, congrFun (congrFun (congrFun hfetch _) _) _⟩
    rw [hpage] at h
    refine ⟨answer, ?_⟩
    rcases answer with cause | _ | ⟨v, page⟩
    · cases h
      exact ⟨rfl, rfl⟩
    · cases h
      exact ⟨rfl, rfl⟩
    · cases h
      exact ⟨rfl, rfl⟩

theorem refillAll_noted {sources sources' : List (Source κ α (σ × List ε))}
    (hnoted : ∀ s ∈ sources, s.Noted note) {stop : Option (ScanError κ)}
    (h : refillAll limit sources (w, log) = (stop, sources', w', log')) :
    ∃ requests, log' = log ++ requests.map note ∧
      Refilling limit sources requests stop sources' := by
  induction sources generalizing w log sources' with
  | nil =>
    cases h
    exact ⟨[], (List.append_nil _).symm, .done⟩
  | cons s rest ih =>
    obtain ⟨hs, hrest⟩ := List.forall_mem_cons.mp hnoted
    unfold refillAll at h
    split at h
    · rename_i hrefill
      cases h
      rcases Source.refill_noted hs hrefill with ⟨-, hok, -⟩ |
        ⟨hexpected, hempty, answer, hlog, hanswer⟩
      · cases hok
      · split at hanswer
        · rename_i cause
          cases hanswer
          exact ⟨[⟨s.tag, s.processed.toNat, limit, .error cause⟩], hlog, .failed hexpected hempty⟩
        · cases hanswer
          exact ⟨[⟨s.tag, s.processed.toNat, limit, .ok []⟩], hlog, .exhausted hexpected hempty⟩
        · cases hanswer
    · rename_i world hrefill
      obtain ⟨w₁, log₁⟩ := world
      split at h
      rename_i hlater
      cases h
      obtain ⟨requests, hlog', hrefilling⟩ := ih hrest hlater
      rcases Source.refill_noted hs hrefill with ⟨hready, hok, hlog⟩ |
        ⟨hexpected, hempty, answer, hlog, hanswer⟩
      · cases hok
        subst hlog
        exact ⟨requests, hlog', .ready hready hrefilling⟩
      · split at hanswer
        · cases hanswer
        · cases hanswer
        · rename_i page hsome
          cases hanswer
          refine ⟨⟨s.tag, s.processed.toNat, limit, .ok page⟩ :: requests, ?_,
            .fetched hexpected hempty (fun hnil => hsome hnil) hrefilling⟩
          rw [hlog', hlog, List.append_assoc]
          rfl

end Noted

section Refilling

variable {limit : Nat} {sources sources' : List (Source κ α σ)} {requests : List (Request κ α)}
  {stop : Option (ScanError κ)}

theorem Refilling.mem (h : Refilling limit sources requests stop sources') {r : Request κ α}
    (hr : r ∈ requests) : ∃ s ∈ sources, r.source = s.tag ∧ r.offset = s.processed.toNat ∧
      r.limit = limit ∧ s.buffer = [] ∧ s.remaining ≠ 0 := by
  induction h with
  | done => cases hr
  | ready _ _ ih =>
    obtain ⟨s, hs, hrequest⟩ := ih hr
    exact ⟨s, List.mem_cons_of_mem _ hs, hrequest⟩
  | fetched expected empty _ _ ih =>
    rcases List.mem_cons.mp hr with rfl | hr
    · exact ⟨_, List.mem_cons_self, rfl, rfl, rfl, empty, expected⟩
    · obtain ⟨s, hs, hrequest⟩ := ih hr
      exact ⟨s, List.mem_cons_of_mem _ hs, hrequest⟩
  | failed expected empty | exhausted expected empty =>
    rw [List.mem_singleton.mp hr]
    exact ⟨_, List.mem_cons_self, rfl, rfl, rfl, empty, expected⟩

theorem Refilling.fetched_elsewhere [DecidableEq κ]
    (h : Refilling limit sources requests stop sources') {tag : κ}
    (hnew : tag ∉ sources.map (·.tag)) : fetchedFrom tag requests = [] := by
  apply fetchedFrom_eq_nil
  rintro r hr rfl
  obtain ⟨s, hs, htag, -⟩ := h.mem hr
  exact hnew (List.mem_map.mpr ⟨s, hs, htag.symm⟩)

/-- The source with the rows that were fetched from it put into its buffer. -/
def Source.supplied [DecidableEq κ] (requests : List (Request κ α)) (s : Source κ α σ) :
    Source κ α σ :=
  { s with buffer := s.buffer ++ fetchedFrom s.tag requests }

theorem Source.supplied_eq_self [DecidableEq κ] {s : Source κ α σ}
    (h : fetchedFrom s.tag requests = []) : s.supplied requests = s := by
  rw [supplied, h, List.append_nil]

theorem supplied_cons_of_new [DecidableEq κ] {r : Request κ α}
    (hnew : r.source ∉ sources.map (·.tag)) :
    sources.map (Source.supplied (r :: requests)) = sources.map (Source.supplied requests) := by
  apply List.map_congr_left
  intro t ht
  have hother : r.source ≠ t.tag := by
    intro heq
    exact hnew (List.mem_map.mpr ⟨t, ht, heq.symm⟩)
  rw [Source.supplied, fetchedFrom_cons, if_neg hother, List.nil_append, Source.supplied]

theorem supplied_of_no_page [DecidableEq κ] {r : Request κ α} (h : r.page = []) :
    sources.map (Source.supplied [r]) = sources := by
  have hnone (tag : κ) : fetchedFrom tag [r] = [] := by
    rw [fetchedFrom_cons, h, ite_self]
    rfl
  have hsame : (Source.supplied [r] : Source κ α σ → Source κ α σ) = id :=
    funext fun s => Source.supplied_eq_self (hnone s.tag)
  rw [hsame, List.map_id]

theorem Refilling.sources_eq [DecidableEq κ] (h : Refilling limit sources requests stop sources')
    (hdistinct : (sources.map (·.tag)).Nodup) :
    sources' = sources.map (Source.supplied requests) := by
  induction h with
  | done => rfl
  | ready _ rest ih =>
    obtain ⟨hnew, hdistinct⟩ := List.nodup_cons.mp hdistinct
    rw [List.map_cons, Source.supplied_eq_self (rest.fetched_elsewhere hnew), ← ih hdistinct]
  | @fetched s _ _ requests _ page _ empty _ rest ih =>
    obtain ⟨hnew, hdistinct⟩ := List.nodup_cons.mp hdistinct
    have hown : s.supplied (⟨s.tag, s.processed.toNat, limit, .ok page⟩ :: requests) =
        { s with buffer := page } := by
      rw [Source.supplied, fetchedFrom_cons, if_pos rfl, rest.fetched_elsewhere hnew, empty,
        List.nil_append, List.append_nil]
      rfl
    rw [List.map_cons, hown, supplied_cons_of_new hnew, ← ih hdistinct]
  | failed => exact (supplied_of_no_page rfl).symm
  | exhausted => exact (supplied_of_no_page rfl).symm

theorem Refilling.answered (h : Refilling limit sources requests none sources') :
    ∀ r ∈ requests, r.Answered := by
  generalize hstop : (none : Option (ScanError κ)) = stop at h
  induction h with
  | done => exact nofun
  | ready _ _ ih => exact ih hstop
  | fetched _ _ _ _ ih => exact List.forall_mem_cons.mpr ⟨⟨_, rfl⟩, ih hstop⟩
  | failed | exhausted => cases hstop

theorem Refilling.failed_last {tag : κ} {cause : String}
    (h : Refilling limit sources requests (some (.fetch tag cause)) sources') :
    ∃ earlier offset, requests = earlier ++ [⟨tag, offset, limit, .error cause⟩] ∧
      ∀ r ∈ earlier, r.Answered := by
  generalize hstop : some (ScanError.fetch tag cause) = stop at h
  induction h with
  | done => cases hstop
  | ready _ _ ih => exact ih hstop
  | fetched _ _ _ _ ih =>
    obtain ⟨earlier, offset, rfl, hearlier⟩ := ih hstop
    exact ⟨_ :: earlier, offset, rfl, List.forall_mem_cons.mpr ⟨⟨_, rfl⟩, hearlier⟩⟩
  | failed =>
    cases hstop
    exact ⟨[], _, rfl, nofun⟩
  | exhausted => cases hstop

end Refilling

end SearchSync.Scan
