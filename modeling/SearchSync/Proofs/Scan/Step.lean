import SearchSync.Proofs.Scan.Paging

/-!
# A step of a scan

A page may fail, be empty or hold any rows, and the position of the next page may have been moved.
What a step can do is told here for all of that, by how the step ends.
-/
namespace SearchSync.Scan

variable {κ α σ : Type}

namespace Source

def origin (s : Source κ α σ) : κ × (Nat → Nat → σ → Except String (List α) × σ) :=
  (s.tag, s.fetchPage)

def Ready (s : Source κ α σ) : Prop := s.remaining = 0 ∨ s.buffer ≠ []

/-- A page goes into an empty buffer, and nothing else of the source changes. -/
inductive Refills (limit : Nat) (s : Source κ α σ) : Source κ α σ → Prop
  | kept : Refills limit s s
  | fetched {page : List α} {w w' : σ} (expected : s.remaining ≠ 0) (empty : s.buffer = [])
      (answer : s.fetchPage s.processed.toNat limit w = (.ok page, w')) :
      Refills limit s { s with buffer := page }

inductive Unfilled (limit : Nat) (s : Source κ α σ) : ScanError κ → Prop
  | fetch {cause : String} {w w' : σ} (expected : s.remaining ≠ 0)
      (answer : s.fetchPage s.processed.toNat limit w = (.error cause, w')) :
      Unfilled limit s (.fetch s.tag cause)
  | exhausted {w w' : σ} (expected : s.remaining ≠ 0)
      (answer : s.fetchPage s.processed.toNat limit w = (.ok [], w')) :
      Unfilled limit s (.sourceExhausted s.tag s.remaining.toNat)

variable {limit : Nat} {s t : Source κ α σ} {w w' : σ}

theorem refill_ok (h : s.refill limit w = (.ok t, w')) : s.Refills limit t ∧ t.Ready := by
  unfold refill at h
  by_cases hready : s.remaining = 0 ∨ s.buffer ≠ []
  · rw [if_pos hready] at h
    cases h
    exact ⟨.kept, hready⟩
  · rw [if_neg hready] at h
    have hempty : s.buffer = [] := by
      by_contra hne
      exact hready (Or.inr hne)
    split at h
    · cases h
    · cases h
    · rename_i page _ hne hpage
      cases h
      exact ⟨.fetched (fun hzero => hready (Or.inl hzero)) hempty hpage, Or.inr hne⟩

theorem refill_error {e : ScanError κ} (h : s.refill limit w = (.error e, w')) :
    s.Unfilled limit e := by
  unfold refill at h
  by_cases hready : s.remaining = 0 ∨ s.buffer ≠ []
  · rw [if_pos hready] at h
    cases h
  · rw [if_neg hready] at h
    have hexpected : s.remaining ≠ 0 := fun hzero => hready (Or.inl hzero)
    split at h
    · rename_i hpage
      cases h
      exact .fetch hexpected hpage
    · rename_i hpage
      cases h
      exact .exhausted hexpected hpage
    · cases h

theorem head?_eq_some {c : Candidate κ α} (h : s.head? = some c) :
    s.remaining ≠ 0 ∧ c.source = s.tag ∧ ∃ rest, s.buffer = c.value :: rest := by
  unfold head? at h
  by_cases hzero : s.remaining = 0
  · rw [if_pos hzero] at h
    cases h
  · rw [if_neg hzero] at h
    obtain ⟨v, hv, rfl⟩ := Option.map_eq_some_iff.mp h
    exact ⟨hzero, rfl, List.head?_eq_some_iff.mp hv⟩

theorem head?_isSome (h : s.remaining ≠ 0) (hready : s.Ready) : ∃ c, s.head? = some c := by
  obtain ⟨v, rest, hbuffer⟩ := List.exists_cons_of_ne_nil (hready.resolve_left h)
  refine ⟨⟨s.tag, v⟩, ?_⟩
  rw [head?, if_neg h, hbuffer]
  rfl

theorem advance_cases (h : s.remaining ≠ 0) :
    (∃ processed remaining, s.advance = .ok { s with processed, remaining } ∧
      processed.toNat = s.processed.toNat + 1 ∧ remaining.toNat + 1 = s.remaining.toNat) ∨
    s.advance = .error (.counterDrift s.tag .processed) := by
  have hpos : s.remaining.toNat ≠ 0 := remaining_ne_zero h
  have hlt := s.remaining.toNat_lt
  obtain ⟨remaining, hremaining, hr⟩ :=
    Bounded.exists_uint64? (n := s.remaining.toNat - 1) (by simp only [UInt64.size]; omega)
  have hpred : Int.ofNat s.remaining.toNat - 1 = ((s.remaining.toNat - 1 : Nat) : Int) := by
    simp only [Int.ofNat_eq_natCast]
    omega
  unfold advance
  rw [hpred, hremaining]
  cases hp : Bounded.uint64? (Int.ofNat s.processed.toNat + 1) with
  | none => exact Or.inr rfl
  | some processed =>
    have hprocessed := Bounded.toNat_of_uint64? hp
    simp only [Int.ofNat_eq_natCast] at hprocessed
    exact Or.inl ⟨processed, remaining, rfl, by omega, by omega⟩

theorem take_cases {c : Candidate κ α} (h : s.head? = some c) :
    (∃ rest processed remaining, s.buffer = c.value :: rest ∧
      s.take = (.ok c.value, { s with processed, remaining, buffer := rest }) ∧
      processed.toNat = s.processed.toNat + 1 ∧ remaining.toNat + 1 = s.remaining.toNat) ∨
    ∃ rest, s.buffer = c.value :: rest ∧
      s.take = (.error (.counterDrift s.tag .processed), { s with buffer := rest }) := by
  obtain ⟨hexpected, -, rest, hbuffer⟩ := head?_eq_some h
  unfold take
  rw [hbuffer]
  rcases advance_cases (s := { s with buffer := rest }) hexpected with
    ⟨processed, remaining, hadvance, hp, hr⟩ | hdrift
  · simp only [hadvance]
    exact Or.inl ⟨rest, processed, remaining, rfl, rfl, hp, hr⟩
  · simp only [hdrift]
    exact Or.inr ⟨rest, rfl, rfl⟩

theorem move_cases (s : Source κ α σ) (delta : Int) :
    (∃ processed, s.move delta = .ok { s with processed } ∧
      (processed.toNat : Int) = s.processed.toNat + delta) ∨
    ((s.processed.toNat : Int) + delta < 0 ∧ s.move delta =
      .error (.negativePosition s.tag delta (s.processed.toNat + delta))) ∨
    ((UInt64.size : Int) ≤ s.processed.toNat + delta ∧
      s.move delta = .error (.counterDrift s.tag .processed)) := by
  unfold move
  simp only [Int.ofNat_eq_natCast]
  by_cases hnegative : (s.processed.toNat : Int) + delta < 0
  · exact Or.inr (Or.inl ⟨hnegative, if_pos hnegative⟩)
  · simp only [if_neg hnegative]
    cases hposition : Bounded.uint64? ((s.processed.toNat : Int) + delta) with
    | none =>
      refine Or.inr (Or.inr ⟨?_, rfl⟩)
      by_contra hsmall
      obtain ⟨n, hn⟩ := Int.eq_ofNat_of_zero_le (Int.not_lt.mp hnegative)
      obtain ⟨_, hword, -⟩ := Bounded.exists_uint64? (n := n) (by omega)
      rw [hn, hword] at hposition
      cases hposition
    | some processed => exact Or.inl ⟨processed, rfl, Bounded.toNat_of_uint64? hposition⟩

end Source

section Sources

theorem forall₂_split {β γ : Type} {R : β → γ → Prop} {before after : List β} {b : β}
    {cs : List γ} (h : List.Forall₂ R (before ++ b :: after) cs) :
    ∃ earlier c later, cs = earlier ++ c :: later ∧ List.Forall₂ R before earlier ∧ R b c ∧
      List.Forall₂ R after later := by
  induction before generalizing cs with
  | nil =>
    cases h with
    | cons hb hafter => exact ⟨[], _, _, rfl, .nil, hb, hafter⟩
  | cons d before ih =>
    cases h with
    | cons hd hrest =>
      obtain ⟨earlier, c, later, rfl, hbefore, hb, hafter⟩ := ih hrest
      exact ⟨_ :: earlier, c, later, rfl, .cons hd hbefore, hb, hafter⟩

theorem forall₂_mem_left {β γ : Type} {R : β → γ → Prop} {bs : List β} {cs : List γ}
    (h : List.Forall₂ R bs cs) {b : β} (hb : b ∈ bs) : ∃ c ∈ cs, R b c := by
  obtain ⟨before, after, rfl⟩ := List.append_of_mem hb
  obtain ⟨earlier, c, later, rfl, -, hbc, -⟩ := forall₂_split h
  exact ⟨c, List.mem_append_right earlier List.mem_cons_self, hbc⟩

variable {limit : Nat} {sources sources' : List (Source κ α σ)} {w w' : σ}

theorem refillAll_refills {e : Option (ScanError κ)}
    (h : refillAll limit sources w = (e, sources', w')) :
    List.Forall₂ (Source.Refills limit) sources sources' := by
  induction sources generalizing sources' w w' with
  | nil =>
    cases h
    exact .nil
  | cons s rest ih =>
    unfold refillAll at h
    split at h
    · cases h
      rw [List.forall₂_same]
      exact fun _ _ => .kept
    · rename_i hs
      split at h
      rename_i hrest
      cases h
      exact .cons (Source.refill_ok hs).1 (ih hrest)

theorem origins_refills (h : List.Forall₂ (Source.Refills limit) sources sources') :
    sources'.map Source.origin = sources.map Source.origin := by
  induction h with
  | nil => rfl
  | cons hs _ ih =>
    rw [List.map_cons, List.map_cons, ih]
    cases hs <;> rfl

theorem tags_eq_of_origins (h : sources'.map Source.origin = sources.map Source.origin) :
    sources'.map (·.tag) = sources.map (·.tag) := by
  have hfst := congrArg (List.map Prod.fst) h
  rwa [List.map_map, List.map_map] at hfst

theorem refillAll_ready (h : refillAll limit sources w = (none, sources', w')) :
    ∀ t ∈ sources', t.Ready := by
  induction sources generalizing sources' w w' with
  | nil =>
    cases h
    simp
  | cons s rest ih =>
    unfold refillAll at h
    split at h
    · cases h
    · rename_i hs
      split at h
      rename_i hrest
      cases h
      exact List.forall_mem_cons.mpr ⟨(Source.refill_ok hs).2, ih hrest⟩

theorem refillAll_unfilled {e : ScanError κ}
    (h : refillAll limit sources w = (some e, sources', w')) :
    ∃ s ∈ sources, s.Unfilled limit e := by
  induction sources generalizing sources' w w' with
  | nil => cases h
  | cons s rest ih =>
    unfold refillAll at h
    split at h
    · rename_i hs
      cases h
      exact ⟨s, List.mem_cons_self, Source.refill_error hs⟩
    · split at h
      rename_i hrest
      cases h
      obtain ⟨t, ht, hunfilled⟩ := ih hrest
      exact ⟨t, List.mem_cons_of_mem s ht, hunfilled⟩

theorem split_of_candidate {place i : Nat} {c : Candidate κ α}
    (h : (i, c) ∈ candidates place sources) :
    ∃ before s after, sources = before ++ s :: after ∧ i = place + before.length ∧
      s.head? = some c := by
  induction sources generalizing place with
  | nil => cases h
  | cons s rest ih =>
    have hlater (h : (i, c) ∈ candidates (place + 1) rest) : ∃ before t after,
        s :: rest = before ++ t :: after ∧ i = place + before.length ∧ t.head? = some c := by
      obtain ⟨before, t, after, rfl, rfl, ht⟩ := ih h
      refine ⟨s :: before, t, after, rfl, ?_, ht⟩
      rw [List.length_cons]
      omega
    unfold candidates at h
    split at h
    · rename_i d hd
      rcases List.mem_cons.mp h with heq | h
      · cases heq
        exact ⟨[], s, rest, rfl, rfl, hd⟩
      · exact hlater h
    · exact hlater h

theorem head?_of_candidates_eq_nil {place : Nat} (h : candidates place sources = []) :
    ∀ s ∈ sources, s.head? = none := by
  induction sources generalizing place with
  | nil => simp
  | cons s rest ih =>
    unfold candidates at h
    split at h
    · cases h
    · rename_i hs
      exact List.forall_mem_cons.mpr ⟨hs, ih h⟩

theorem winner?_eq_none (comparator : Comparator κ α) (h : ∀ s ∈ sources, s.remaining = 0) :
    winner? comparator sources = none := by
  have hcandidates : candidates 0 sources = [] := by
    rw [List.eq_nil_iff_forall_not_mem]
    rintro ⟨place, c⟩ hc
    obtain ⟨before, s, after, rfl, -, hhead⟩ := split_of_candidate hc
    exact (Source.head?_eq_some hhead).1 (h s (List.mem_append_right before List.mem_cons_self))
  rw [winner?, hcandidates]

theorem takeAt_length (before after : List (Source κ α σ)) (s : Source κ α σ) :
    takeAt before.length (before ++ s :: after) = (s.take.1, before ++ s.take.2 :: after) := by
  induction before with
  | nil => rfl
  | cons t before ih => simp only [List.length_cons, List.cons_append, takeAt, ih]

end Sources

/-- What a step does once all sources that need a page have one, by how it ends. -/
inductive Turn (comparator : Comparator κ α) (sources : List (Source κ α σ)) :
    Except (ScanError κ) Bool → List (Source κ α σ) → Option (Candidate κ α) → Prop
  | finished (nothing : ∀ t ∈ sources, t.remaining = 0) :
      Turn comparator sources (.ok false) sources none
  | returned {before after : List (Source κ α σ)} {t t' : Source κ α σ} {c : Candidate κ α}
      (split : sources = before ++ t :: after)
      (winner : winner? comparator sources = some (before.length, c)) (head : t.head? = some c)
      (take : t.take = (.ok c.value, t')) :
      Turn comparator sources (.ok true) (before ++ t' :: after) (some c)
  | uncounted {before after : List (Source κ α σ)} {t : Source κ α σ} {c : Candidate κ α}
      {rest : List α} (split : sources = before ++ t :: after) (head : t.head? = some c)
      (take : t.take = (.error (.counterDrift t.tag .processed), { t with buffer := rest })) :
      Turn comparator sources (.error (.counterDrift t.tag .processed))
        (before ++ { t with buffer := rest } :: after) none

section Turn

variable {comparator : Comparator κ α} {sources sources' : List (Source κ α σ)}
  {r : Except (ScanError κ) Bool} {current : Option (Candidate κ α)}

theorem Turn.cases_source (h : Turn comparator sources r sources' current) :
    (sources' = sources ∧ current = none) ∨
      ∃ before t after u, sources = before ++ t :: after ∧ sources' = before ++ u :: after ∧
        u.origin = t.origin ∧
        ((∃ v, current = some ⟨t.tag, v⟩ ∧ t.buffer = v :: u.buffer ∧
            (u.processed.toNat : Int) = t.processed.toNat + 1) ∨
          (r = .error (.counterDrift t.tag .processed) ∧ current = none ∧
            u.processed = t.processed)) := by
  cases h with
  | finished => exact Or.inl ⟨rfl, rfl⟩
  | @returned before after t _ c split _ head take =>
    obtain ⟨-, hsource, -⟩ := Source.head?_eq_some head
    rcases Source.take_cases head with ⟨rest, p, _, hbuffer, hok, hp, -⟩ | ⟨_, -, hdrift⟩
    · rw [take] at hok
      cases hok
      refine Or.inr ⟨before, t, after, _, split, rfl, rfl, Or.inl ⟨c.value, ?_, hbuffer, ?_⟩⟩
      · rw [← hsource]
      · dsimp only
        omega
    · rw [take] at hdrift
      cases hdrift
  | @uncounted before after t _ _ split =>
    exact Or.inr ⟨before, t, after, _, split, rfl, rfl, Or.inr ⟨rfl, rfl, rfl⟩⟩

theorem Turn.origins (h : Turn comparator sources r sources' current) :
    sources'.map Source.origin = sources.map Source.origin := by
  rcases h.cases_source with ⟨rfl, -⟩ | ⟨before, t, after, u, rfl, rfl, hsame, -⟩
  · rfl
  · rw [List.map_append, List.map_append, List.map_cons, List.map_cons, hsame]

end Turn

theorem next_turn {s t : Scan κ α σ} {w w' : σ} {r : Except (ScanError κ) Bool}
    (h : s.next w = (r, t, w')) :
    ∃ stop sources, refillAll s.batchSize s.sources w = (stop, sources, w') ∧
      match stop with
      | some e => r = .error e ∧ t = { s with sources, current := none }
      | none => ∃ sources' current, Turn s.comparator sources r sources' current ∧
          t = { s with sources := sources', current } := by
  unfold next at h
  split at h
  · rename_i e sources _ hrefill
    cases h
    exact ⟨some e, sources, hrefill, rfl, rfl⟩
  · rename_i sources _ hrefill
    have hready := refillAll_ready hrefill
    split at h
    · rename_i hwinner
      cases h
      refine ⟨none, sources, hrefill, sources, none, .finished ?_, rfl⟩
      intro u hu
      by_contra hexpected
      obtain ⟨c, hc⟩ := Source.head?_isSome hexpected (hready u hu)
      unfold winner? at hwinner
      split at hwinner
      · rename_i hnil
        rw [head?_of_candidates_eq_nil hnil u hu] at hc
        cases hc
      · cases hwinner
    · rename_i place c hwinner
      obtain ⟨before, u, after, rfl, rfl, hu⟩ := split_of_candidate (winner?_mem hwinner)
      rw [Nat.zero_add, takeAt_length] at h
      rw [Nat.zero_add] at hwinner
      rcases Source.take_cases hu with ⟨_, _, _, -, htake, -⟩ | ⟨rest, -, htake⟩
      · obtain ⟨-, htag, -⟩ := Source.head?_eq_some hu
        rw [htake] at h
        cases h
        exact ⟨none, _, hrefill, _, _, .returned rfl hwinner hu htake, rfl⟩
      · rw [htake] at h
        cases h
        exact ⟨none, _, hrefill, _, _, .uncounted rfl hu htake, rfl⟩

theorem next_origins {s t : Scan κ α σ} {w w' : σ} {r : Except (ScanError κ) Bool}
    (h : s.next w = (r, t, w')) : t.sources.map Source.origin = s.sources.map Source.origin := by
  obtain ⟨stop, sources, hrefill, hend⟩ := next_turn h
  have hrefills := origins_refills (refillAll_refills hrefill)
  cases stop with
  | some e =>
    obtain ⟨-, rfl⟩ := hend
    exact hrefills
  | none =>
    obtain ⟨sources', current, hturn, rfl⟩ := hend
    exact hturn.origins.trans hrefills

theorem next_batchSize {s t : Scan κ α σ} {w w' : σ} {r : Except (ScanError κ) Bool}
    (h : s.next w = (r, t, w')) : t.batchSize = s.batchSize := by
  obtain ⟨stop, sources, -, hend⟩ := next_turn h
  cases stop with
  | some e =>
    obtain ⟨-, rfl⟩ := hend
    rfl
  | none =>
    obtain ⟨_, _, -, rfl⟩ := hend
    rfl

/-- What one step does to a scan, by how it ends. -/
inductive Advance (s : Scan κ α σ) : Except (ScanError κ) Bool → Scan κ α σ → Prop
  | unfilled {sources : List (Source κ α σ)} {t : Source κ α σ} {e : ScanError κ}
      (refills : List.Forall₂ (Source.Refills s.batchSize) s.sources sources)
      (mem : t ∈ s.sources) (reason : t.Unfilled s.batchSize e) :
      Advance s (.error e) { s with sources, current := none }
  | finished (nothing : ∀ t ∈ s.sources, t.remaining = 0) :
      Advance s (.ok false) { s with current := none }
  | returned {before after : List (Source κ α σ)} {t t' : Source κ α σ} {c : Candidate κ α}
      (refills : List.Forall₂ (Source.Refills s.batchSize) s.sources (before ++ t :: after))
      (ready : ∀ u ∈ before ++ t :: after, u.Ready)
      (winner : winner? s.comparator (before ++ t :: after) = some (before.length, c))
      (head : t.head? = some c) (take : t.take = (.ok c.value, t')) :
      Advance s (.ok true) { s with sources := before ++ t' :: after, current := some c }
  | uncounted {before after : List (Source κ α σ)} {t : Source κ α σ} {c : Candidate κ α}
      {rest : List α}
      (refills : List.Forall₂ (Source.Refills s.batchSize) s.sources (before ++ t :: after))
      (ready : ∀ u ∈ before ++ t :: after, u.Ready) (head : t.head? = some c)
      (take : t.take = (.error (.counterDrift t.tag .processed), { t with buffer := rest })) :
      Advance s (.error (.counterDrift t.tag .processed))
        { s with sources := before ++ { t with buffer := rest } :: after, current := none }

theorem refills_eq_of_zero {limit : Nat} {sources sources' : List (Source κ α σ)}
    (h : List.Forall₂ (Source.Refills limit) sources sources')
    (hzero : ∀ t ∈ sources', t.remaining = 0) : sources' = sources := by
  induction h with
  | nil => rfl
  | cons hs _ ih =>
    obtain ⟨hnone, hrest⟩ := List.forall_mem_cons.mp hzero
    rw [ih hrest]
    cases hs with
    | kept => rfl
    | fetched expected => exact absurd hnone expected

theorem next_advance {s t : Scan κ α σ} {w w' : σ} {r : Except (ScanError κ) Bool}
    (h : s.next w = (r, t, w')) : s.Advance r t := by
  obtain ⟨stop, sources, hrefill, hend⟩ := next_turn h
  have hrefills := refillAll_refills hrefill
  cases stop with
  | some e =>
    obtain ⟨rfl, rfl⟩ := hend
    obtain ⟨u, hu, hreason⟩ := refillAll_unfilled hrefill
    exact .unfilled hrefills hu hreason
  | none =>
    obtain ⟨sources', current, hturn, rfl⟩ := hend
    have hready := refillAll_ready hrefill
    cases hturn with
    | finished nothing =>
      have hsame : sources = s.sources := refills_eq_of_zero hrefills nothing
      rw [hsame] at nothing ⊢
      exact .finished nothing
    | returned split winner head take =>
      rw [split] at hrefills hready winner
      exact .returned hrefills hready winner head take
    | uncounted split head take =>
      rw [split] at hrefills hready
      exact .uncounted hrefills hready head take

end SearchSync.Scan
