import Mathlib.Algebra.GroupWithZero.Nat
import Mathlib.Data.List.Nodup
import SearchSync.Proofs.Scan.Step

/-!
# Using a scan

A session is what a caller sees of a scan to which sources are added, which goes on to the next
row and whose pages are moved, in any order. The books of a scan say how many rows are left of each
source: an added source is entered, a returned row is taken off the entry of its source, and
nothing else changes them.
-/
namespace SearchSync.Scan

variable {κ α σ : Type}

inductive Use (κ α σ : Type)
  | add (tag : κ) (count : UInt64) (fetchPage : Nat → Nat → σ → Except String (List α) × σ)
  | next
  | move (tag : κ) (delta : Int)

inductive Event (κ α : Type)
  | added (tag : κ) (count : UInt64)
  | returned (row : Candidate κ α)
  | finished
  | moved (tag : κ) (delta : Int)
  | failed (e : ScanError κ)
  deriving DecidableEq, Repr

def row (s : Scan κ α σ) : Except (ScanError κ) (Candidate κ α) := do
  let source ← s.currentSource
  let value ← s.get
  return ⟨source, value⟩

/-- One call. A scan whose source was not added or not moved stays as it was. -/
def use [DecidableEq κ] (s : Scan κ α σ) (w : σ) : Use κ α σ → Event κ α × Scan κ α σ × σ
  | .add tag count fetchPage =>
    match s.add (.start tag count fetchPage) with
    | .ok t => (.added tag count, t, w)
    | .error e => (.failed e, s, w)
  | .next =>
    match s.next w with
    | (.error e, t, w) => (.failed e, t, w)
    | (.ok false, t, w) => (.finished, t, w)
    | (.ok true, t, w) =>
      match t.row with
      | .ok c => (.returned c, t, w)
      | .error e => (.failed e, t, w)
  | .move tag delta =>
    match s.move tag delta with
    | .ok t => (.moved tag delta, t, w)
    | .error e => (.failed e, s, w)

def run [DecidableEq κ] (s : Scan κ α σ) (w : σ) :
    List (Use κ α σ) → List (Event κ α) × Scan κ α σ × σ
  | [] => ([], s, w)
  | u :: uses =>
    match s.use w u with
    | (event, t, w) =>
      match run t w uses with
      | (events, t, w) => (event :: events, t, w)

theorem use_of_returned [DecidableEq κ] {s t : Scan κ α σ} {w w' : σ} {c : Candidate κ α}
    (h : s.next w = (.ok true, t, w')) (hcurrent : t.current = some c) :
    s.use w .next = (.returned c, t, w') := by
  have hrow : t.row = .ok c := by
    simp only [row, currentSource, get, hcurrent]
    rfl
  simp only [use, h, hrow]

theorem use_of_failed [DecidableEq κ] {s t : Scan κ α σ} {w w' : σ} {e : ScanError κ}
    (h : s.next w = (.error e, t, w')) : s.use w .next = (.failed e, t, w') := by
  simp only [use, h]

theorem run_cons [DecidableEq κ] {s t t' : Scan κ α σ} {w w' w'' : σ} {u : Use κ α σ}
    {uses : List (Use κ α σ)} {event : Event κ α} {events : List (Event κ α)}
    (h : s.use w u = (event, t, w')) (hrest : t.run w' uses = (events, t', w'')) :
    s.run w (u :: uses) = (event :: events, t', w'') := by
  simp only [run, h, hrest]

theorem run_append [DecidableEq κ] {s t t' : Scan κ α σ} {w w' w'' : σ}
    {uses later : List (Use κ α σ)} {events events' : List (Event κ α)}
    (h : s.run w uses = (events, t, w')) (hlater : t.run w' later = (events', t', w'')) :
    s.run w (uses ++ later) = (events ++ events', t', w'') := by
  induction uses generalizing s w events with
  | nil =>
    cases h
    exact hlater
  | cons u uses ih =>
    unfold run at h
    split at h
    rename_i huse
    split at h
    rename_i hrest
    cases h
    exact run_cons huse (ih hrest)

namespace Event

def row? : Event κ α → Option (Candidate κ α)
  | .returned c => some c
  | _ => none

def announced? : Event κ α → Option (κ × Nat)
  | .added tag count => some (tag, count.toNat)
  | _ => none

end Event

def rows (events : List (Event κ α)) : List (Candidate κ α) := events.filterMap Event.row?

def announced (events : List (Event κ α)) : List (κ × Nat) := events.filterMap Event.announced?

def returnedFrom [DecidableEq κ] (tag : κ) (events : List (Event κ α)) : Nat :=
  (rows events).countP fun c => c.source = tag

def books (sources : List (Source κ α σ)) : List (κ × Nat) :=
  sources.map fun t => (t.tag, t.remaining.toNat)

/-- Calling for the next row, or for the row returned, is never at fault, and rows that are
expected can be counted down. -/
structure Blameless (e : ScanError κ) : Prop where
  valid : e ≠ .invalidState
  counted : ∀ tag, e ≠ .counterDrift tag .remaining

inductive Entry : List (κ × Nat) → Event κ α → List (κ × Nat) → Prop
  | added {left : List (κ × Nat)} {tag : κ} {count : UInt64} (new : tag ∉ left.map Prod.fst) :
      Entry left (.added tag count) (left ++ [(tag, count.toNat)])
  | returned {before after : List (κ × Nat)} {c : Candidate κ α} {n : Nat} :
      Entry (before ++ (c.source, n + 1) :: after) (.returned c) (before ++ (c.source, n) :: after)
  | finished {left : List (κ × Nat)} : Entry left .finished left
  | moved {left : List (κ × Nat)} {tag : κ} {delta : Int} : Entry left (.moved tag delta) left
  | failed {left : List (κ × Nat)} {e : ScanError κ} (blameless : Blameless e) :
      Entry left (.failed e) left

section Books

variable {sources : List (Source κ α σ)}

theorem books_tags (sources : List (Source κ α σ)) :
    (books sources).map Prod.fst = sources.map (·.tag) := by
  rw [books, List.map_map]
  rfl

theorem books_append (before after : List (Source κ α σ)) (t : Source κ α σ) :
    books (before ++ t :: after) = books before ++ (t.tag, t.remaining.toNat) :: books after := by
  simp only [books, List.map_append, List.map_cons]

theorem books_refills {limit : Nat} {sources' : List (Source κ α σ)}
    (h : List.Forall₂ (Source.Refills limit) sources sources') :
    books sources' = books sources := by
  induction h with
  | nil => rfl
  | cons hs _ ih =>
    simp only [books, List.map_cons] at ih ⊢
    cases hs with
    | kept => rw [ih]
    | fetched => rw [ih]

theorem books_take {before after : List (Source κ α σ)} {t t' : Source κ α σ}
    {c : Candidate κ α} (hhead : t.head? = some c) (htake : t.take = (.ok c.value, t')) :
    Entry (books (before ++ t :: after)) (.returned c) (books (before ++ t' :: after)) := by
  obtain ⟨-, htag, -⟩ := Source.head?_eq_some hhead
  rcases Source.take_cases hhead with ⟨_, _, _, -, hok, -, hremaining⟩ | ⟨rest, -, hdrift⟩
  · rw [htake] at hok
    cases hok
    rw [books_append, books_append, ← hremaining, ← htag]
    exact .returned
  · rw [htake] at hdrift
    cases hdrift

theorem books_move [DecidableEq κ] {tag : κ} {found moved : Source κ α σ} {delta : Int}
    (hdistinct : (sources.map (·.tag)).Nodup)
    (hfound : sources.find? (fun t => t.tag = tag) = some found)
    (hmoved : found.move delta = .ok moved) :
    books (sources.map fun t => if t.tag = tag then moved else t) = books sources := by
  have hsame : moved.tag = found.tag ∧ moved.remaining = found.remaining := by
    rcases Source.move_cases found delta with ⟨processed, hok, -⟩ | ⟨-, herror⟩ | ⟨-, herror⟩
    · rw [hmoved] at hok
      cases hok
      exact ⟨rfl, rfl⟩
    · rw [hmoved] at herror
      cases herror
    · rw [hmoved] at herror
      cases herror
  have htag : found.tag = tag := by simpa using List.find?_some hfound
  unfold books
  rw [List.map_map]
  apply List.map_congr_left
  intro t ht
  by_cases heq : t.tag = tag
  · have hthe : t = found := by
      apply List.inj_on_of_nodup_map hdistinct ht (List.mem_of_find?_eq_some hfound)
      rw [heq, htag]
    rw [Function.comp_apply, if_pos heq, hthe, hsame.1, hsame.2]
  · rw [Function.comp_apply, if_neg heq]

end Books

theorem Source.Unfilled.blameless {limit : Nat} {s : Source κ α σ} {e : ScanError κ}
    (h : s.Unfilled limit e) : Blameless e := by
  cases h <;> exact ⟨nofun, nofun⟩

theorem Source.move_blameless {s : Source κ α σ} {delta : Int} {e : ScanError κ}
    (h : s.move delta = .error e) : Blameless e := by
  rcases Source.move_cases s delta with ⟨processed, hok, -⟩ | ⟨-, herror⟩ | ⟨-, herror⟩
  · rw [h] at hok
    cases hok
  · rw [h] at herror
    cases herror
    exact ⟨nofun, nofun⟩
  · rw [h] at herror
    cases herror
    exact ⟨nofun, nofun⟩

theorem Advance.blameless {s t : Scan κ α σ} {e : ScanError κ} (h : s.Advance (.error e) t) :
    Blameless e := by
  cases h with
  | unfilled _ _ reason => exact reason.blameless
  | uncounted => exact ⟨nofun, nofun⟩

section Use

variable [DecidableEq κ] {s t : Scan κ α σ} {w w' : σ} {event : Event κ α}

theorem use_next_entry (h : s.use w .next = (event, t, w')) :
    Entry (books s.sources) event (books t.sources) := by
  simp only [use] at h
  split at h <;> rename_i hnext
  · cases h
    have hadvance := next_advance hnext
    have hbooks : books t.sources = books s.sources := by
      cases hadvance with
      | unfilled refills => exact books_refills refills
      | uncounted refills =>
        rw [← books_refills refills, books_append, books_append]
    rw [hbooks]
    exact .failed hadvance.blameless
  · cases h
    cases next_advance hnext with
    | finished => exact .finished
  · cases next_advance hnext with
    | returned refills _ _ head take =>
      cases h
      rw [← books_refills refills]
      exact books_take head take

theorem use_entry {u : Use κ α σ} (hdistinct : ((books s.sources).map Prod.fst).Nodup)
    (h : s.use w u = (event, t, w')) : Entry (books s.sources) event (books t.sources) := by
  cases u with
  | add tag count fetchPage =>
    simp only [use, add] at h
    split at h
    · rename_i hadd
      split at hadd
      · cases hadd
      · rename_i hnew
        cases hadd
        cases h
        rw [← books_tags] at hnew
        have happend := books_append s.sources [] (.start tag count fetchPage)
        rw [happend]
        exact .added hnew
    · rename_i hadd
      split at hadd
      · cases hadd
        cases h
        exact .failed ⟨by simp, by simp⟩
      · cases hadd
  | next => exact use_next_entry h
  | move tag delta =>
    rw [books_tags] at hdistinct
    simp only [use, move, source?] at h
    cases hfound : s.sources.find? fun t => t.tag = tag with
    | none =>
      rw [hfound] at h
      cases h
      exact .failed ⟨by simp, by simp⟩
    | some found =>
      rw [hfound] at h
      cases hmoved : found.move delta with
      | error e =>
        simp only [hmoved] at h
        cases h
        exact .failed (Source.move_blameless hmoved)
      | ok moved =>
        simp only [hmoved] at h
        cases h
        rw [books_move hdistinct hfound hmoved]
        exact .moved

end Use

/-- The books after some events, where everything announced is accounted for. -/
structure Balanced [DecidableEq κ] (events : List (Event κ α)) (left : List (κ × Nat)) : Prop where
  distinct : (left.map Prod.fst).Nodup
  balance : announced events =
    left.map fun entry => (entry.1, returnedFrom entry.1 events + entry.2)
  known : ∀ c ∈ rows events, c.source ∈ left.map Prod.fst
  total : (rows events).length + (left.map Prod.snd).sum = ((announced events).map Prod.snd).sum
  blameless : ∀ e, .failed e ∈ events → Blameless e

section Balanced

variable [DecidableEq κ] {events : List (Event κ α)} {event : Event κ α}
  {left left' : List (κ × Nat)}

theorem balanced_nil : Balanced ([] : List (Event κ α)) [] where
  distinct := List.nodup_nil
  balance := rfl
  known := nofun
  total := rfl
  blameless := nofun

theorem Balanced.blameless_concat (h : Balanced events left)
    (hblameless : ∀ e, event = .failed e → Blameless e) :
    ∀ e, .failed e ∈ events ++ [event] → Blameless e := by
  intro e he
  rcases List.mem_append.mp he with he | he
  · exact h.blameless e he
  · exact hblameless e (List.mem_singleton.mp he).symm

theorem Balanced.silent (h : Balanced events left) (hrow : event.row? = none)
    (hannounced : event.announced? = none)
    (hblameless : ∀ e, event = .failed e → Blameless e) : Balanced (events ++ [event]) left := by
  have hrows : rows (events ++ [event]) = rows events := by
    simp only [rows, List.filterMap_append, List.filterMap_cons, hrow, List.filterMap_nil,
      List.append_nil]
  have hsame : announced (events ++ [event]) = announced events := by
    simp only [announced, List.filterMap_append, List.filterMap_cons, hannounced,
      List.filterMap_nil, List.append_nil]
  constructor
  · exact h.distinct
  · simp only [hsame, returnedFrom, hrows]
    exact h.balance
  · rw [hrows]
    exact h.known
  · rw [hrows, hsame]
    exact h.total
  · exact h.blameless_concat hblameless

theorem returnedFrom_eq_zero {tag : κ} (h : ∀ c ∈ rows events, c.source ≠ tag) :
    returnedFrom tag events = 0 := by
  rw [returnedFrom, List.countP_eq_zero]
  simpa using h

theorem Balanced.added (h : Balanced events left) {tag : κ} {count : UInt64}
    (new : tag ∉ left.map Prod.fst) :
    Balanced (events ++ [.added tag count]) (left ++ [(tag, count.toNat)]) := by
  have hrows : rows (events ++ [.added tag count]) = rows events := by
    simp [rows, Event.row?]
  have hannounced : announced (events ++ [.added tag count]) =
      announced events ++ [(tag, count.toNat)] := by
    simp [announced, Event.announced?]
  have hfresh : returnedFrom tag events = 0 := by
    apply returnedFrom_eq_zero
    rintro c hc rfl
    exact new (h.known c hc)
  constructor
  · rw [List.map_append, List.map_singleton, ← List.concat_eq_append]
    exact h.distinct.concat new
  · simp only [hannounced, List.map_append, List.map_singleton, returnedFrom, hrows]
    simp only [returnedFrom] at hfresh
    rw [hfresh, Nat.zero_add, h.balance]
    rfl
  · rw [hrows]
    intro c hc
    rw [List.map_append]
    exact List.mem_append_left _ (h.known c hc)
  · have htotal := h.total
    simp only [hrows, hannounced, List.map_append, List.sum_append, List.map_singleton,
      List.sum_singleton]
    omega
  · exact h.blameless_concat nofun

theorem Balanced.returned {before after : List (κ × Nat)} {c : Candidate κ α} {n : Nat}
    (h : Balanced events (before ++ (c.source, n + 1) :: after)) :
    Balanced (events ++ [.returned c]) (before ++ (c.source, n) :: after) := by
  have hrows : rows (events ++ [.returned c]) = rows events ++ [c] := by
    simp [rows, Event.row?]
  have hannounced : announced (events ++ [.returned c]) = announced events := by
    simp [announced, Event.announced?]
  have hcounted (tag : κ) : returnedFrom tag (events ++ [.returned c]) =
      returnedFrom tag events + if c.source = tag then 1 else 0 := by
    simp only [returnedFrom, hrows, List.countP_append, List.countP_singleton, decide_eq_true_eq]
  have htags : (before ++ (c.source, n) :: after).map Prod.fst =
      (before ++ (c.source, n + 1) :: after).map Prod.fst := by
    simp only [List.map_append, List.map_cons]
  -- the row is taken off one entry, and no other has its source
  have hothers : ∀ entry ∈ before ++ after, c.source ≠ entry.1 := by
    intro entry hmem heq
    have hperm : ((c.source, n + 1) :: (before ++ after)).map Prod.fst |>.Nodup :=
      (List.perm_middle.map Prod.fst).nodup_iff.mp h.distinct
    rw [List.map_cons, List.nodup_cons] at hperm
    exact hperm.1 (List.mem_map.mpr ⟨entry, hmem, heq.symm⟩)
  have hkept {entries : List (κ × Nat)} (hsub : ∀ entry ∈ entries, entry ∈ before ++ after) :
      entries.map (fun entry => (entry.1, returnedFrom entry.1 events + entry.2)) =
        entries.map (fun entry =>
          (entry.1, returnedFrom entry.1 (events ++ [.returned c]) + entry.2)) := by
    apply List.map_congr_left
    intro entry hentry
    rw [hcounted, if_neg (hothers entry (hsub entry hentry)), Nat.add_zero]
  constructor
  · rw [htags]
    exact h.distinct
  · have hone : returnedFrom c.source events + (n + 1) =
        returnedFrom c.source events + 1 + n := by omega
    rw [hannounced, h.balance, List.map_append, List.map_append, List.map_cons, List.map_cons,
      hkept fun entry => List.mem_append_left after,
      hkept fun entry => List.mem_append_right before, hcounted, if_pos rfl, hone]
  · rw [hrows, htags]
    intro d hd
    rcases List.mem_append.mp hd with hd | hd
    · exact h.known d hd
    · rw [List.mem_singleton.mp hd]
      simp
  · have htotal := h.total
    rw [hrows, hannounced, ← htotal]
    simp only [List.length_append, List.length_singleton, List.map_append, List.map_cons,
      List.sum_append, List.sum_cons]
    omega
  · exact h.blameless_concat nofun

theorem Balanced.entry (h : Balanced events left) (hentry : Entry left event left') :
    Balanced (events ++ [event]) left' := by
  cases hentry with
  | added new => exact h.added new
  | returned => exact h.returned
  | finished => exact h.silent rfl rfl nofun
  | moved => exact h.silent rfl rfl nofun
  | failed blameless =>
    refine h.silent rfl rfl ?_
    rintro e ⟨⟩
    exact blameless

theorem Balanced.run {s t : Scan κ α σ} {w w' : σ} {uses : List (Use κ α σ)}
    {later : List (Event κ α)} (h : Balanced events (books s.sources))
    (hrun : s.run w uses = (later, t, w')) : Balanced (events ++ later) (books t.sources) := by
  induction uses generalizing events s w later with
  | nil =>
    cases hrun
    rwa [List.append_nil]
  | cons u uses ih =>
    unfold Scan.run at hrun
    split at hrun
    rename_i huse
    split at hrun
    rename_i hrest
    cases hrun
    have hstep := ih (h.entry (use_entry h.distinct huse)) hrest
    rwa [List.append_assoc] at hstep

end Balanced

theorem candidate_at {sources : List (Source κ α σ)} {place : Nat} {c : Candidate κ α}
    (h : (place, c) ∈ candidates 0 sources) :
    ∃ t, sources[place]? = some t ∧ t.tag = c.source ∧ t.remaining ≠ 0 ∧
      t.buffer.head? = some c.value := by
  obtain ⟨before, t, after, rfl, rfl, hhead⟩ := split_of_candidate h
  obtain ⟨hexpected, htag, rest, hbuffer⟩ := Source.head?_eq_some hhead
  refine ⟨t, ?_, htag.symm, hexpected, ?_⟩
  · rw [Nat.zero_add, List.getElem?_append_right (Nat.le_refl _), Nat.sub_self]
    rfl
  · rw [hbuffer]
    rfl

theorem left_of_refills {limit : Nat} {sources sources' : List (Source κ α σ)}
    (h : List.Forall₂ (Source.Refills limit) sources sources')
    (hnothing : ∀ t ∈ sources, t.remaining = 0) : ∀ t ∈ sources', t.remaining = 0 := by
  intro t ht
  by_contra hexpected
  have hentry : (t.tag, t.remaining.toNat) ∈ books sources := by
    rw [← books_refills h]
    exact List.mem_map_of_mem ht
  obtain ⟨u, hu, heq⟩ := List.mem_map.mp hentry
  have hleft : u.remaining.toNat = t.remaining.toNat := congrArg Prod.snd heq
  rw [hnothing u hu] at hleft
  exact Source.remaining_ne_zero hexpected hleft.symm

theorem next_finished_iff (s : Scan κ α σ) (w : σ) :
    (s.next w).1 = .ok false ↔ ∀ t ∈ s.sources, t.remaining = 0 := by
  generalize hnext : s.next w = outcome
  obtain ⟨r, t, w'⟩ := outcome
  have hadvance := next_advance hnext
  constructor
  · rintro rfl
    cases hadvance with
    | finished nothing => exact nothing
  · intro hnothing
    have hshown {sources : List (Source κ α σ)} {u : Source κ α σ} {c : Candidate κ α}
        (hrefills : List.Forall₂ (Source.Refills s.batchSize) s.sources sources)
        (hu : u ∈ sources) (hhead : u.head? = some c) : False :=
      (Source.head?_eq_some hhead).1 (left_of_refills hrefills hnothing u hu)
    cases hadvance with
    | unfilled _ mem reason =>
      cases reason with
      | fetch expected => exact absurd (hnothing _ mem) expected
      | exhausted expected => exact absurd (hnothing _ mem) expected
    | finished => rfl
    | returned refills _ _ head =>
      exact (hshown refills (List.mem_append_right _ List.mem_cons_self) head).elim
    | uncounted refills _ head =>
      exact (hshown refills (List.mem_append_right _ List.mem_cons_self) head).elim

theorem next_blameless (s : Scan κ α σ) (w : σ) {e : ScanError κ} (h : (s.next w).1 = .error e) :
    Blameless e := by
  generalize hnext : s.next w = outcome at h
  obtain ⟨r, t, w'⟩ := outcome
  cases h
  exact (next_advance hnext).blameless

/-- Whatever a scan is used for and whatever the pages hold, its sources are the ones added, and
what each announced is what it has returned and what is left of it; so no more rows are returned
than were announced. The scan ends exactly when nothing is left, the rows it compares are at hand
in sources that expect them, and it never finds itself without a row or a row to count. -/
theorem rows_conserved [DecidableEq κ] {comparator : Comparator κ α} {batchSize : Nat}
    {begun s : Scan κ α σ} {w w' : σ} {uses : List (Use κ α σ)} {events : List (Event κ α)}
    (hbegun : withBatchSize comparator batchSize = .ok begun)
    (hrun : begun.run w uses = (events, s, w')) :
    ((s.sources.map (·.tag)).Nodup ∧
      announced events =
        s.sources.map (fun t => (t.tag, returnedFrom t.tag events + t.remaining.toNat)) ∧
      (∀ c ∈ rows events, c.source ∈ s.sources.map (·.tag)) ∧
      (rows events).length ≤ ((announced events).map Prod.snd).sum ∧
      ∀ e, .failed e ∈ events → Blameless e) ∧
    ∀ w, ((s.next w).1 = .ok false ↔ ∀ t ∈ s.sources, t.remaining = 0) ∧
      (∀ e, (s.next w).1 = .error e → Blameless e) ∧
      ∀ place c, (place, c) ∈ candidates 0 (refillAll s.batchSize s.sources w).2.1 →
        ∃ t, (refillAll s.batchSize s.sources w).2.1[place]? = some t ∧ t.tag = c.source ∧
          t.remaining ≠ 0 ∧ t.buffer.head? = some c.value := by
  have hempty : books begun.sources = [] := by
    unfold withBatchSize at hbegun
    split at hbegun
    · cases hbegun
      rfl
    · cases hbegun
  have hstart : Balanced ([] : List (Event κ α)) (books begun.sources) := by
    rw [hempty]
    exact balanced_nil
  have hbalanced := hstart.run hrun
  rw [List.nil_append] at hbalanced
  refine ⟨⟨?_, ?_, ?_, ?_, hbalanced.blameless⟩, ?_⟩
  · rw [← books_tags]
    exact hbalanced.distinct
  · rw [hbalanced.balance, books, List.map_map]
    rfl
  · rw [← books_tags]
    exact hbalanced.known
  · rw [← hbalanced.total]
    exact Nat.le_add_right _ _
  · exact fun w => ⟨next_finished_iff s w, fun _ => next_blameless s w, fun _ _ => candidate_at⟩

namespace Sample

def numbers : Scan Char Nat Nat := ⟨fun c d => compare c.value d.value, 2, Nat.two_pos, [], none⟩

def flaky (rows : List Nat) (offset _limit calls : Nat) : Except String (List Nat) × Nat :=
  (if calls % 3 = 1 then .error "down" else .ok (rows.drop offset), calls + 1)

def uses : List (Use Char Nat Nat) :=
  [.add 'a' 3 (flaky [2, 4]), .next, .next, .add 'b' 1 (flaky [1, 3]), .add 'a' 1 (flaky []),
    .next, .next, .move 'a' (-2), .next, .next, .next, .next]

end Sample

theorem rows_conserved_flaky :
    withBatchSize (fun c d : Candidate Char Nat => compare c.value d.value) 2 =
        .ok Sample.numbers ∧
      (Sample.numbers.run 0 Sample.uses).1 =
        [.added 'a' 3, .returned ⟨'a', 2⟩, .returned ⟨'a', 4⟩, .added 'b' 1,
          .failed (.duplicateSource 'a'), .failed (.fetch 'a' "down"),
          .failed (.sourceExhausted 'a' 1), .moved 'a' (-2), .failed (.fetch 'b' "down"),
          .returned ⟨'b', 1⟩, .returned ⟨'a', 2⟩, .finished] ∧
      announced (Sample.numbers.run 0 Sample.uses).1 =
        (Sample.numbers.run 0 Sample.uses).2.1.sources.map (fun t =>
          (t.tag, returnedFrom t.tag (Sample.numbers.run 0 Sample.uses).1 + t.remaining.toNat)) :=
  have hbegun : withBatchSize (fun c d : Candidate Char Nat => compare c.value d.value) 2 =
      .ok Sample.numbers := rfl
  ⟨hbegun, by decide +kernel, (rows_conserved hbegun rfl).1.2.1⟩

end SearchSync.Scan
