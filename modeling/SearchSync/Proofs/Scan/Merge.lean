import Mathlib.Data.List.Basic
import SearchSync.Scan.Basic

/-!
# Merging without pages

What a scan is meant to return, said of lists: the rows of every source are at hand, and the best
of the first rows is taken until none is left. There are no pages, no counters and no failures.
-/
namespace SearchSync.Scan

structure Queue (κ α : Type) where
  source : κ
  rows : List α
  deriving DecidableEq

variable {κ α : Type}

namespace Queue

def head? (q : Queue κ α) : Option (Candidate κ α) :=
  q.rows.head?.map fun v => ⟨q.source, v⟩

def tail (q : Queue κ α) : Queue κ α := { q with rows := q.rows.tail }

def candidates (q : Queue κ α) : List (Candidate κ α) :=
  q.rows.map fun v => ⟨q.source, v⟩

theorem head?_eq_some {q : Queue κ α} {c : Candidate κ α} (h : q.head? = some c) :
    q = ⟨c.source, c.value :: q.tail.rows⟩ := by
  obtain ⟨source, rows⟩ := q
  cases rows with
  | nil => cases h
  | cons v rest =>
    cases h
    rfl

end Queue

def pop [DecidableEq κ] (source : κ) (queues : List (Queue κ α)) : List (Queue κ α) :=
  queues.map fun q => if q.source = source then q.tail else q

def lesser (comparator : Comparator κ α) (c d : Candidate κ α) : Candidate κ α :=
  if comparator d c = .lt then d else c

/-- The candidate that comes next: the first rows of the queues that have rows are looked at in
order, and the best so far gives way only to a row that is less. -/
def first? (comparator : Comparator κ α) (queues : List (Queue κ α)) :
    Option (Candidate κ α) :=
  match queues.filterMap Queue.head? with
  | [] => none
  | c :: later => some (later.foldl (lesser comparator) c)

def size : List (Queue κ α) → Nat
  | [] => 0
  | q :: queues => q.rows.length + size queues

theorem foldl_choice_mem {β : Type} {choice : β → β → β}
    (h : ∀ a b, choice a b = a ∨ choice a b = b) (a : β) (later : List β) :
    later.foldl choice a ∈ a :: later := by
  induction later generalizing a with
  | nil => exact List.mem_singleton_self a
  | cons b later ih =>
    rw [List.foldl_cons]
    rcases List.mem_cons.mp (ih (choice a b)) with heq | hmem
    · rw [heq]
      rcases h a b with ha | hb
      · rw [ha]
        exact List.mem_cons_self
      · rw [hb]
        exact List.mem_cons_of_mem a List.mem_cons_self
    · exact List.mem_cons_of_mem a (List.mem_cons_of_mem b hmem)

theorem lesser_eq_or (comparator : Comparator κ α) (c d : Candidate κ α) :
    lesser comparator c d = c ∨ lesser comparator c d = d := by
  unfold lesser
  split
  · exact Or.inr rfl
  · exact Or.inl rfl

theorem exists_of_first? {comparator : Comparator κ α} {queues : List (Queue κ α)}
    {c : Candidate κ α} (h : first? comparator queues = some c) :
    ∃ q ∈ queues, q.head? = some c := by
  unfold first? at h
  split at h
  · cases h
  · rename_i d later hheads
    have hmem : c ∈ queues.filterMap Queue.head? := by
      rw [hheads, ← Option.some.inj h]
      exact foldl_choice_mem (lesser_eq_or comparator) d later
    exact List.mem_filterMap.mp hmem

theorem candidates_of_first?_eq_none {comparator : Comparator κ α}
    {queues : List (Queue κ α)} (h : first? comparator queues = none) :
    queues.flatMap Queue.candidates = [] := by
  unfold first? at h
  split at h
  · rename_i hheads
    rw [List.flatMap_eq_nil_iff]
    intro q hq
    have hnone := List.filterMap_eq_nil_iff.mp hheads q hq
    obtain ⟨source, rows⟩ := q
    cases rows with
    | nil => rfl
    | cons v rest => cases hnone
  · cases h

section Pop

variable [DecidableEq κ]

theorem pop_cons (source : κ) (q : Queue κ α) (queues : List (Queue κ α)) :
    pop source (q :: queues) = (if q.source = source then q.tail else q) :: pop source queues :=
  rfl

theorem size_pop_le (source : κ) (queues : List (Queue κ α)) :
    size (pop source queues) ≤ size queues := by
  induction queues with
  | nil => exact Nat.le_refl 0
  | cons q queues ih =>
    have hq : (if q.source = source then q.tail else q).rows.length ≤ q.rows.length := by
      split
      · simp [Queue.tail]
      · exact Nat.le_refl _
    simp only [size, pop_cons] at ih ⊢
    omega

theorem size_pop_lt {c : Candidate κ α} {queues : List (Queue κ α)}
    (h : ∃ q ∈ queues, q.head? = some c) : size (pop c.source queues) < size queues := by
  induction queues with
  | nil => simp at h
  | cons q queues ih =>
    have hle := size_pop_le c.source queues
    by_cases hq : q.head? = some c
    · rw [Queue.head?_eq_some hq]
      simp only [size, pop_cons, Queue.tail, ↓reduceIte, List.tail_cons, List.length_cons] at hle ⊢
      omega
    · obtain ⟨q', hmem, hq'⟩ := h
      have hmem : q' ∈ queues := by
        rcases List.mem_cons.mp hmem with rfl | hmem
        · exact absurd hq' hq
        · exact hmem
      have hlt := ih ⟨q', hmem, hq'⟩
      have hlen : (if q.source = c.source then q.tail else q).rows.length ≤ q.rows.length := by
        split
        · simp [Queue.tail]
        · exact Nat.le_refl _
      simp only [size, pop_cons] at hlt ⊢
      omega

theorem map_source_pop (source : κ) (queues : List (Queue κ α)) :
    (pop source queues).map (·.source) = queues.map (·.source) := by
  rw [pop, List.map_map]
  apply List.map_congr_left
  intro q _
  simp only [Function.comp_apply]
  split <;> rfl

theorem pop_eq_self {source : κ} {queues : List (Queue κ α)}
    (h : ∀ q ∈ queues, q.source ≠ source) : pop source queues = queues := by
  have hsame : pop source queues = queues.map id :=
    List.map_congr_left fun q hq => if_neg (h q hq)
  rw [hsame, List.map_id]

theorem pop_middle {before after : List (Queue κ α)} {q : Queue κ α}
    (h : ((before ++ q :: after).map (·.source)).Nodup) :
    pop q.source (before ++ q :: after) = before ++ q.tail :: after := by
  rw [List.map_append, List.map_cons, List.nodup_append, List.nodup_cons] at h
  obtain ⟨-, ⟨hafter, -⟩, hbefore⟩ := h
  have hpop (l : List (Queue κ α)) : pop q.source (l ++ q :: after) =
      pop q.source l ++ q.tail :: pop q.source after := by
    rw [pop, List.map_append, List.map_cons, if_pos rfl]
    rfl
  rw [hpop, pop_eq_self, pop_eq_self]
  · intro q' hq' heq
    exact hafter (List.mem_map.mpr ⟨q', hq', heq⟩)
  · intro q' hq' heq
    exact hbefore _ (List.mem_map_of_mem hq') _ List.mem_cons_self heq

def merge (comparator : Comparator κ α) (queues : List (Queue κ α)) : List (Candidate κ α) :=
  match _h : first? comparator queues with
  | none => []
  | some c => c :: merge comparator (pop c.source queues)
  termination_by size queues
  decreasing_by exact size_pop_lt (exists_of_first? _h)

theorem merge_of_none {comparator : Comparator κ α} {queues : List (Queue κ α)}
    (h : first? comparator queues = none) : merge comparator queues = [] := by
  rw [merge]
  split
  · rfl
  · rename_i hfirst
    rw [h] at hfirst
    cases hfirst

theorem merge_of_some {comparator : Comparator κ α} {queues : List (Queue κ α)}
    {c : Candidate κ α} (h : first? comparator queues = some c) :
    merge comparator queues = c :: merge comparator (pop c.source queues) := by
  rw [merge]
  split
  · rename_i hfirst
    rw [h] at hfirst
    cases hfirst
  · rename_i hfirst
    rw [h] at hfirst
    cases hfirst
    rfl

end Pop

end SearchSync.Scan
