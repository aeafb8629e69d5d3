import SearchSync.Decimal

/-!
# Merged scans

Several paged sources walked in one order. Each step fetches the pages that are missing, compares
the first rows of all sources and returns the least; of equal rows that of the source added first.

The batch size is a natural number, although a page larger than the memory could not be fetched:
the size of the memory, and with it every count of things held there, is taken as out of reach.
-/

namespace SearchSync

inductive Scan.Counter
  | remaining
  | processed
  deriving DecidableEq, Repr

inductive ScanError (κ : Type)
  | invalidState
  | invalidBatchSize
  | unknownSource (source : κ)
  | duplicateSource (source : κ)
  | negativePosition (source : κ) (delta position : Int)
  /-- A page was empty although rows were still expected. -/
  | sourceExhausted (source : κ) (remaining : Nat)
  /-- A counter would leave the range of its word. -/
  | counterDrift (source : κ) (counter : Scan.Counter)
  | fetch (source : κ) (cause : String)
  deriving DecidableEq, Repr

namespace ScanError

def counterName : Scan.Counter → String
  | .remaining => "remaining"
  | .processed => "processed"

def message {κ : Type} (label : κ → String) : ScanError κ → String
  | .invalidState => "Either empty or next() has not been called"
  | .invalidBatchSize => "Batch size must be greater than 0"
  | .unknownSource s => "Unknown source: " ++ label s
  | .duplicateSource s => "Source added twice: " ++ label s
  | .negativePosition s delta position =>
    "Moving source " ++ label s ++ " by " ++ Decimal.intText delta ++
      " would set its next value position to " ++ Decimal.intText position ++
      ", which is less than 0"
  | .sourceExhausted s remaining =>
    "Source " ++ label s ++ " returned no rows but " ++ Decimal.natText remaining ++
      " were still expected"
  | .counterDrift s counter =>
    "The " ++ counterName counter ++ " count of source " ++ label s ++
      " did not change by exactly 1"
  | .fetch s cause => "Failed to fetch a page from source " ++ label s ++ ": " ++ cause

def causes {κ : Type} : ScanError κ → List String
  | .fetch _ cause => [cause]
  | _ => []

end ScanError

end SearchSync

namespace SearchSync.Scan

structure Candidate (κ α : Type) where
  source : κ
  value : α
  deriving DecidableEq, Repr

/-- A source with tags in `κ` and rows in `α`. Fetching a page may fail with a text and changes
the state `σ` of the world either way, so nothing is assumed of one page by another. -/
structure Source (κ α σ : Type) where
  tag : κ
  fetchPage : Nat → Nat → σ → Except String (List α) × σ
  remaining : UInt64
  processed : UInt64
  buffer : List α

namespace Source

variable {κ α σ : Type}

def start (tag : κ) (count : UInt64) (fetchPage : Nat → Nat → σ → Except String (List α) × σ) :
    Source κ α σ :=
  ⟨tag, fetchPage, count, 0, []⟩

def refill (limit : Nat) (s : Source κ α σ) (w : σ) :
    Except (ScanError κ) (Source κ α σ) × σ :=
  if s.remaining = 0 ∨ s.buffer ≠ [] then (.ok s, w)
  else
    match s.fetchPage s.processed.toNat limit w with
    | (.error cause, w) => (.error (.fetch s.tag cause), w)
    | (.ok [], w) => (.error (.sourceExhausted s.tag s.remaining.toNat), w)
    | (.ok page, w) => (.ok { s with buffer := page }, w)

def head? (s : Source κ α σ) : Option (Candidate κ α) :=
  if s.remaining = 0 then none else s.buffer.head?.map fun v => ⟨s.tag, v⟩

/-- Counts one returned row. Both counters move or neither does. -/
def advance (s : Source κ α σ) : Except (ScanError κ) (Source κ α σ) :=
  match Bounded.uint64? (Int.ofNat s.processed.toNat + 1),
      Bounded.uint64? (Int.ofNat s.remaining.toNat - 1) with
  | none, _ => .error (.counterDrift s.tag .processed)
  | some _, none => .error (.counterDrift s.tag .remaining)
  | some processed, some remaining => .ok { s with processed, remaining }

/-- Takes the first buffered row. The row is gone also when it cannot be counted. -/
def take (s : Source κ α σ) : Except (ScanError κ) α × Source κ α σ :=
  match s.buffer with
  | [] => (.error .invalidState, s)
  | v :: rest =>
    let popped := { s with buffer := rest }
    match popped.advance with
    | .ok counted => (.ok v, counted)
    | .error e => (.error e, popped)

def move (s : Source κ α σ) (delta : Int) : Except (ScanError κ) (Source κ α σ) :=
  let position := Int.ofNat s.processed.toNat + delta
  if position < 0 then .error (.negativePosition s.tag delta position)
  else
    match Bounded.uint64? position with
    | some processed => .ok { s with processed }
    | none => .error (.counterDrift s.tag .processed)

theorem remaining_refill {limit : Nat} {s t : Source κ α σ} {w w' : σ}
    (h : s.refill limit w = (.ok t, w')) : t.remaining = s.remaining := by
  rw [refill] at h
  by_cases c : s.remaining = 0 ∨ s.buffer ≠ []
  · rw [if_pos c] at h
    simp only [Prod.mk.injEq, Except.ok.injEq] at h
    rw [← h.1]
  · rw [if_neg c] at h
    split at h
    · exact nomatch h
    · exact nomatch h
    · simp only [Prod.mk.injEq, Except.ok.injEq] at h
      rw [← h.1]

theorem remaining_advance {s t : Source κ α σ} (h : s.advance = .ok t) :
    t.remaining.toNat + 1 = s.remaining.toNat := by
  rw [advance] at h
  split at h
  · exact nomatch h
  · exact nomatch h
  · rename_i hr
    have := Bounded.toNat_of_uint64? hr
    simp only [Except.ok.injEq] at h
    rw [← h]
    simp only [Int.ofNat_eq_natCast] at this ⊢
    omega

theorem remaining_take {s t : Source κ α σ} {v : α} (h : s.take = (.ok v, t)) :
    t.remaining.toNat + 1 = s.remaining.toNat := by
  rw [take] at h
  split at h
  · exact nomatch h
  · rename_i rest _
    generalize hp : { s with buffer := rest } = popped at h
    simp only at h
    split at h
    · rename_i ha
      simp only [Prod.mk.injEq, Except.ok.injEq] at h
      have := remaining_advance ha
      rw [← h.2, this, ← hp]
    · exact nomatch h

end Source

end SearchSync.Scan

namespace SearchSync

namespace Scan

/-- How two rows are ordered, given with their sources. It need not be an order. -/
abbrev Comparator (κ α : Type) := Candidate κ α → Candidate κ α → Ordering

end Scan

structure Scan (κ α σ : Type) where
  comparator : Scan.Comparator κ α
  batchSize : Nat
  batchSize_pos : 0 < batchSize
  sources : List (Scan.Source κ α σ)
  current : Option (Scan.Candidate κ α)

namespace Scan

variable {κ α σ : Type}

def start (comparator : Comparator κ α) : Scan κ α σ :=
  ⟨comparator, 1, Nat.one_pos, [], none⟩

def withBatchSize (comparator : Comparator κ α) (batchSize : Nat) :
    Except (ScanError κ) (Scan κ α σ) :=
  if h : 0 < batchSize then .ok ⟨comparator, batchSize, h, [], none⟩ else .error .invalidBatchSize

def add [DecidableEq κ] (s : Scan κ α σ) (source : Source κ α σ) :
    Except (ScanError κ) (Scan κ α σ) :=
  if source.tag ∈ s.sources.map (·.tag) then .error (.duplicateSource source.tag)
  else .ok { s with sources := s.sources ++ [source] }

def refillAll (limit : Nat) :
    List (Source κ α σ) → σ → Option (ScanError κ) × List (Source κ α σ) × σ
  | [], w => (none, [], w)
  | s :: rest, w =>
    match s.refill limit w with
    | (.error e, w) => (some e, s :: rest, w)
    | (.ok s, w) =>
      match refillAll limit rest w with
      | (e, rest, w) => (e, s :: rest, w)

def candidates (place : Nat) : List (Source κ α σ) → List (Nat × Candidate κ α)
  | [] => []
  | s :: rest =>
    match s.head? with
    | some c => (place, c) :: candidates (place + 1) rest
    | none => candidates (place + 1) rest

/-- The better of two candidates: the later one only when it is less. -/
def better (comparator : Comparator κ α) (best later : Nat × Candidate κ α) : Nat × Candidate κ α :=
  if comparator later.2 best.2 = .lt then later else best

def winner? (comparator : Comparator κ α) (sources : List (Source κ α σ)) :
    Option (Nat × Candidate κ α) :=
  match candidates 0 sources with
  | [] => none
  | c :: rest => some (rest.foldl (better comparator) c)

def takeAt : Nat → List (Source κ α σ) → Except (ScanError κ) α × List (Source κ α σ)
  | _, [] => (.error .invalidState, [])
  | 0, s :: rest => (s.take.1, s.take.2 :: rest)
  | i + 1, s :: rest => ((takeAt i rest).1, s :: (takeAt i rest).2)

def next (s : Scan κ α σ) (w : σ) : Except (ScanError κ) Bool × Scan κ α σ × σ :=
  match refillAll s.batchSize s.sources w with
  | (some e, sources, w) => (.error e, { s with sources, current := none }, w)
  | (none, sources, w) =>
    match winner? s.comparator sources with
    | none => (.ok false, { s with sources, current := none }, w)
    | some (place, c) =>
      match takeAt place sources with
      | (.error e, sources) => (.error e, { s with sources, current := none }, w)
      | (.ok value, sources) =>
        (.ok true, { s with sources, current := some ⟨c.source, value⟩ }, w)

def get (s : Scan κ α σ) : Except (ScanError κ) α :=
  match s.current with
  | some c => .ok c.value
  | none => .error .invalidState

def currentSource (s : Scan κ α σ) : Except (ScanError κ) κ :=
  match s.current with
  | some c => .ok c.source
  | none => .error .invalidState

def source? [DecidableEq κ] (s : Scan κ α σ) (tag : κ) : Option (Source κ α σ) :=
  s.sources.find? fun t => t.tag = tag

def move [DecidableEq κ] (s : Scan κ α σ) (tag : κ) (delta : Int) :
    Except (ScanError κ) (Scan κ α σ) := do
  let some found := s.source? tag | throw (.unknownSource tag)
  let moved ← found.move delta
  return { s with sources := s.sources.map fun t => if t.tag = tag then moved else t }

def pending : List (Source κ α σ) → Nat
  | [] => 0
  | s :: rest => s.remaining.toNat + pending rest

theorem pending_refillAll {limit : Nat} {sources sources' : List (Source κ α σ)} {w w' : σ}
    {e : Option (ScanError κ)} (h : refillAll limit sources w = (e, sources', w')) :
    pending sources' = pending sources := by
  induction sources generalizing sources' w w' with
  | nil => cases h; rfl
  | cons s rest ih =>
    unfold refillAll at h
    split at h
    · cases h; rfl
    · rename_i t _ ht
      split at h
      rename_i hrest
      cases h
      simp only [pending]
      rw [Source.remaining_refill ht, ih hrest]

theorem pending_takeAt {i : Nat} {sources sources' : List (Source κ α σ)} {v : α}
    (h : takeAt i sources = (.ok v, sources')) : pending sources' + 1 = pending sources := by
  induction sources generalizing i sources' with
  | nil => cases i <;> cases h
  | cons s rest ih =>
    cases i with
    | zero =>
      simp only [takeAt, Prod.mk.injEq] at h
      obtain ⟨hv, rfl⟩ := h
      have : s.take.2.remaining.toNat + 1 = s.remaining.toNat :=
        Source.remaining_take (by rw [← hv])
      simp only [pending]
      omega
    | succ i =>
      simp only [takeAt, Prod.mk.injEq] at h
      obtain ⟨hv, rfl⟩ := h
      have : pending (takeAt i rest).2 + 1 = pending rest := ih (by rw [← hv])
      simp only [pending]
      omega

/-- A returned row is one row fewer to come. -/
theorem pending_next {s t : Scan κ α σ} {w w' : σ} (h : s.next w = (.ok true, t, w')) :
    pending t.sources + 1 = pending s.sources := by
  unfold next at h
  split at h
  · cases h
  · rename_i hrefill
    split at h
    · cases h
    · split at h
      · cases h
      · rename_i htake
        cases h
        rw [← pending_refillAll hrefill]
        exact pending_takeAt htake

end Scan

end SearchSync
