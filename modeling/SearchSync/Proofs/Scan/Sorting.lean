import Mathlib.Data.List.Nodup
import SearchSync.Proofs.Scan.Paging

/-!
# Merging sorts

Where the comparator is a total preorder and every source has its rows in order, the candidate that
comes next is the first least row of all that are left, in the order in which the sources were
added. A stable sort puts the first least row in front as well, and goes on with the others.
-/
namespace SearchSync.Scan

section Stable

variable {β : Type}

private theorem while_of_forall_not {p : β → Bool} {l : List β} (h : ∀ b ∈ l, p b = false) :
    l.takeWhile p = [] ∧ l.dropWhile p = l := by
  cases l with
  | nil => exact ⟨rfl, rfl⟩
  | cons b l =>
    have hb := h b List.mem_cons_self
    simp [hb]

variable {le : β → β → Bool} (trans : ∀ a b c, le a b → le b c → le a c)
  (total : ∀ a b, le a b || le b a)
include trans total

theorem mergeSort_cons_eq (a : β) (l : List β) :
    (a :: l).mergeSort le = ((l.mergeSort le).takeWhile fun b => !le a b) ++
      a :: (l.mergeSort le).dropWhile fun b => !le a b := by
  obtain ⟨l₁, l₂, hcons, hl, hbefore⟩ := List.mergeSort_cons trans total a l
  have hsorted := List.pairwise_mergeSort trans total (a :: l)
  rw [hcons, List.pairwise_append, List.pairwise_cons] at hsorted
  obtain ⟨-, ⟨hafter, -⟩, -⟩ := hsorted
  obtain ⟨htake, hdrop⟩ := while_of_forall_not (p := fun b => !le a b) (l := l₂) fun b hb => by
    rw [hafter b hb]
    rfl
  rw [hcons, hl, List.takeWhile_append_of_pos hbefore, List.dropWhile_append_of_pos hbefore,
    htake, hdrop, List.append_nil]

theorem mergeSort_middle {xs ys : List β} {c : β} (hbefore : ∀ x ∈ xs, ¬le x c)
    (hafter : ∀ y ∈ ys, le c y) :
    (xs ++ c :: ys).mergeSort le = c :: (xs ++ ys).mergeSort le := by
  induction xs with
  | nil =>
    obtain ⟨htake, hdrop⟩ := while_of_forall_not (p := fun b => !le c b) (l := ys.mergeSort le)
      fun b hb => by
        rw [hafter b (List.mem_mergeSort.mp hb)]
        rfl
    rw [List.nil_append, mergeSort_cons_eq trans total, htake, hdrop]
    rfl
  | cons x xs ih =>
    obtain ⟨hx, hxs⟩ := List.forall_mem_cons.mp hbefore
    have hpos : (fun b => !le x b) c = true := by simpa using hx
    have hsort := mergeSort_cons_eq trans total x (xs ++ c :: ys)
    rw [ih hxs, List.takeWhile_cons_of_pos (p := fun b => !le x b) hpos,
      List.dropWhile_cons_of_pos (p := fun b => !le x b) hpos] at hsort
    rw [List.cons_append, List.cons_append, hsort, mergeSort_cons_eq trans total x (xs ++ ys)]
    rfl

theorem filter_mergeSort {p : β → Bool} {l : List β} (h : (l.filter p).Pairwise fun a b => le a b) :
    (l.mergeSort le).filter p = l.filter p := by
  have hsub := (List.sublist_mergeSort trans total h List.filter_sublist).filter p
  rw [List.filter_filter] at hsub
  simp only [Bool.and_self] at hsub
  exact (hsub.eq_of_length ((List.mergeSort_perm l le).filter p).length_eq.symm).symm

end Stable

section Order

variable {κ α : Type} (comparator : Comparator κ α) [Std.TransCmp comparator]

def Queue.Sorted (comparator : Comparator κ α) (q : Queue κ α) : Prop :=
  q.candidates.Pairwise fun c d => (comparator c d).isLE

theorem total_isLE (c d : Candidate κ α) : (comparator c d).isLE || (comparator d c).isLE := by
  cases h : (comparator c d).isLE with
  | true => rfl
  | false =>
    have hlt : comparator d c = .lt := Std.OrientedCmp.lt_of_not_isLE (by simp [h])
    simp [hlt]

/-- The lesser of all is less than those before it and does not exceed those after it. -/
theorem foldl_lesser_split (c : Candidate κ α) (later : List (Candidate κ α)) :
    ∃ xs ys, c :: later = xs ++ later.foldl (lesser comparator) c :: ys ∧
      (∀ x ∈ xs, comparator (later.foldl (lesser comparator) c) x = .lt) ∧
      ∀ y ∈ ys, (comparator (later.foldl (lesser comparator) c) y).isLE := by
  induction later generalizing c with
  | nil => exact ⟨[], [], rfl, nofun, nofun⟩
  | cons d later ih =>
    obtain ⟨xs, ys, hsplit, hxs, hys⟩ := ih (lesser comparator c d)
    rw [List.foldl_cons]
    generalize later.foldl (lesser comparator) (lesser comparator c d) = best at hsplit hxs hys ⊢
    unfold lesser at hsplit
    by_cases hd : comparator d c = .lt
    · rw [if_pos hd] at hsplit
      have hbest : comparator best c = .lt := by
        cases xs with
        | nil =>
          rw [← (List.cons.inj hsplit).1]
          exact hd
        | cons x xs =>
          obtain ⟨rfl, -⟩ := List.cons.inj hsplit
          exact Std.TransCmp.lt_trans (hxs d List.mem_cons_self) hd
      exact ⟨c :: xs, ys, by rw [hsplit]; rfl, List.forall_mem_cons.mpr ⟨hbest, hxs⟩, hys⟩
    · rw [if_neg hd] at hsplit
      have hcd : (comparator c d).isLE := by
        by_contra hgt
        exact hd (Std.OrientedCmp.lt_of_not_isLE hgt)
      cases xs with
      | nil =>
        obtain ⟨rfl, rfl⟩ := List.cons.inj hsplit
        exact ⟨[], d :: later, rfl, nofun, List.forall_mem_cons.mpr ⟨hcd, hys⟩⟩
      | cons x xs =>
        obtain ⟨rfl, hlater⟩ := List.cons.inj hsplit
        obtain ⟨hbest, hxs⟩ := List.forall_mem_cons.mp hxs
        refine ⟨c :: d :: xs, ys, by rw [hlater]; rfl, ?_, hys⟩
        have hbd := Std.TransCmp.lt_of_lt_of_isLE hbest hcd
        exact List.forall_mem_cons.mpr ⟨hbest, List.forall_mem_cons.mpr ⟨hbd, hxs⟩⟩

variable {comparator}

theorem Queue.Sorted.exists_head {q : Queue κ α} (h : q.Sorted comparator) {x : Candidate κ α}
    (hx : x ∈ q.candidates) : ∃ d, q.head? = some d ∧ (comparator d x).isLE := by
  obtain ⟨source, rows⟩ := q
  cases rows with
  | nil => cases hx
  | cons v rest =>
    refine ⟨⟨source, v⟩, rfl, ?_⟩
    rcases List.mem_cons.mp hx with rfl | hx
    · exact Std.ReflCmp.isLE_rfl
    · exact (List.pairwise_cons.mp h).1 x hx

theorem first?_split {queues : List (Queue κ α)} {c : Candidate κ α}
    (hfirst : first? comparator queues = some c) (hsorted : ∀ q ∈ queues, q.Sorted comparator) :
    ∃ before rest after, queues = before ++ ⟨c.source, c.value :: rest⟩ :: after ∧
      (∀ x ∈ before.flatMap Queue.candidates, comparator c x = .lt) ∧
      ∀ y ∈ Queue.candidates ⟨c.source, rest⟩ ++ after.flatMap Queue.candidates,
        (comparator c y).isLE := by
  unfold first? at hfirst
  split at hfirst
  · cases hfirst
  · rename_i d later hheads
    obtain ⟨xs, ys, hsplit, hxs, hys⟩ := foldl_lesser_split comparator d later
    rw [Option.some.inj hfirst] at hsplit hxs hys
    rw [hsplit] at hheads
    obtain ⟨l₁, l₂, rfl, rfl, hl₂⟩ := List.filterMap_eq_append_iff.mp hheads
    obtain ⟨m₁, q, m₂, rfl, hm₁, hq, rfl⟩ := List.filterMap_eq_cons_iff.mp hl₂
    rw [Queue.head?_eq_some hq] at hsorted ⊢
    refine ⟨l₁ ++ m₁, q.tail.rows, m₂, by simp, ?_, ?_⟩
    · intro x hx
      obtain ⟨q', hq', hx⟩ := List.mem_flatMap.mp hx
      have hmem : q' ∈ l₁ ++ (m₁ ++ ⟨c.source, c.value :: q.tail.rows⟩ :: m₂) := by
        rw [← List.append_assoc]
        exact List.mem_append_left _ hq'
      obtain ⟨h, hhead, hle⟩ := (hsorted q' hmem).exists_head hx
      rcases List.mem_append.mp hq' with hq' | hq'
      · have hlt := hxs h (List.mem_filterMap.mpr ⟨q', hq', hhead⟩)
        exact Std.TransCmp.lt_of_lt_of_isLE hlt hle
      · rw [hm₁ q' hq'] at hhead
        cases hhead
    · intro y hy
      rcases List.mem_append.mp hy with hy | hy
      · have hself := hsorted ⟨c.source, c.value :: q.tail.rows⟩ (by simp)
        exact (List.pairwise_cons.mp hself).1 y hy
      · obtain ⟨q', hq', hy⟩ := List.mem_flatMap.mp hy
        obtain ⟨h, hhead, hle⟩ := (hsorted q' (by simp [hq'])).exists_head hy
        exact Std.TransCmp.isLE_trans (hys h (List.mem_filterMap.mpr ⟨q', hq', hhead⟩)) hle

theorem merge_eq_mergeSort [DecidableEq κ] {queues : List (Queue κ α)}
    (hsorted : ∀ q ∈ queues, q.Sorted comparator) (hdistinct : (queues.map (·.source)).Nodup) :
    merge comparator queues =
      (queues.flatMap Queue.candidates).mergeSort fun c d => (comparator c d).isLE := by
  fun_induction merge comparator queues with
  | case1 queues hfirst =>
    rw [candidates_of_first?_eq_none hfirst, List.mergeSort_nil]
  | case2 queues c hfirst ih =>
    have hrest := hdistinct
    rw [← map_source_pop c.source] at hrest
    obtain ⟨before, rest, after, rfl, hbefore, hafter⟩ := first?_split hfirst hsorted
    have hpop : pop c.source (before ++ ⟨c.source, c.value :: rest⟩ :: after) =
        before ++ ⟨c.source, rest⟩ :: after := pop_middle hdistinct
    rw [hpop] at ih hrest ⊢
    have hleft : ∀ q ∈ before ++ ⟨c.source, rest⟩ :: after, q.Sorted comparator := by
      intro q hq
      rcases List.mem_append.mp hq with hq | hq
      · exact hsorted q (List.mem_append_left _ hq)
      rcases List.mem_cons.mp hq with rfl | hq
      · have hself := hsorted ⟨c.source, c.value :: rest⟩ (by simp)
        exact (List.pairwise_cons.mp hself).2
      · exact hsorted q (List.mem_append_right _ (List.mem_cons_of_mem _ hq))
    have hsplit : (before ++ ⟨c.source, c.value :: rest⟩ :: after).flatMap Queue.candidates =
        before.flatMap Queue.candidates ++
          c :: (Queue.candidates ⟨c.source, rest⟩ ++ after.flatMap Queue.candidates) := by
      rw [List.flatMap_append, List.flatMap_cons]
      rfl
    rw [ih hleft hrest, hsplit, List.flatMap_append, List.flatMap_cons]
    refine (mergeSort_middle (fun _ _ _ => Std.TransCmp.isLE_trans) (total_isLE comparator)
      ?_ hafter).symm
    exact fun x hx => Std.OrientedCmp.not_isLE_of_lt (hbefore x hx)

end Order

theorem filter_source_flatMap {κ α : Type} [DecidableEq κ] {queues : List (Queue κ α)}
    (hdistinct : (queues.map (·.source)).Nodup) {q : Queue κ α} (hq : q ∈ queues) :
    (queues.flatMap Queue.candidates).filter (·.source = q.source) = q.candidates := by
  obtain ⟨before, after, rfl⟩ := List.append_of_mem hq
  rw [List.map_append, List.map_cons, List.nodup_append, List.nodup_cons] at hdistinct
  obtain ⟨-, ⟨hafter, -⟩, hbefore⟩ := hdistinct
  have hnone (l : List (Queue κ α)) (hl : ∀ q' ∈ l, q'.source ≠ q.source) :
      (l.flatMap Queue.candidates).filter (·.source = q.source) = [] := by
    rw [List.filter_eq_nil_iff]
    intro c hc
    obtain ⟨q', hq', hc⟩ := List.mem_flatMap.mp hc
    obtain ⟨v, -, rfl⟩ := List.mem_map.mp hc
    simpa using hl q' hq'
  have hall : q.candidates.filter (·.source = q.source) = q.candidates := by
    rw [List.filter_eq_self]
    intro c hc
    obtain ⟨v, -, rfl⟩ := List.mem_map.mp hc
    exact decide_eq_true rfl
  rw [List.flatMap_append, List.flatMap_cons, List.filter_append, List.filter_append, hall,
    hnone before, hnone after, List.append_nil, List.nil_append]
  · intro q' hq' heq
    exact hafter (List.mem_map.mpr ⟨q', hq', heq⟩)
  · intro q' hq' heq
    exact hbefore _ (List.mem_map_of_mem hq') _ List.mem_cons_self heq

variable {κ α σ : Type}

/-- Where the comparator is a total preorder under which every source announces its rows in order,
a scan that is read to its end returns the stable sort of all announced rows. So these come in
order, each as often as it is announced; those of one source come in their own order, and those
that are equal come in the order in which their sources were added. -/
theorem reads_stable_sort [DecidableEq κ] (comparator : Comparator κ α)
    [Std.TransCmp comparator] {batchSize : Nat} (hsize : 0 < batchSize)
    {feeds : List (Feed κ α σ)} (hreliable : ∀ f ∈ feeds, f.Reliable)
    (hdistinct : (feeds.map (·.tag)).Nodup)
    (hsorted : ∀ f ∈ feeds, f.queue.Sorted comparator) :
    let rows := (feeds.map (·.queue)).flatMap Queue.candidates
    let sorted := rows.mergeSort fun c d => (comparator c d).isLE
    (∃ s, ofSources comparator batchSize (feeds.map (·.source)) = .ok s ∧
      ∀ w, s.readAll w = .ok sorted) ∧
    sorted.Pairwise (fun c d => (comparator c d).isLE) ∧ sorted.Perm rows ∧
    (∀ f ∈ feeds, sorted.filter (·.source = f.tag) = f.queue.candidates) ∧
    ∀ c, sorted.filter (comparator c · = .eq) = rows.filter (comparator c · = .eq) := by
  intro rows sorted
  have htrans (c d e : Candidate κ α) :
      (comparator c d).isLE → (comparator d e).isLE → (comparator c e).isLE :=
    Std.TransCmp.isLE_trans
  have htotal := total_isLE comparator
  have hsources : ((feeds.map (·.queue)).map (·.source)).Nodup := by
    rwa [List.map_map]
  have hqueues : ∀ q ∈ feeds.map (·.queue), q.Sorted comparator := by
    intro q hq
    obtain ⟨f, hf, rfl⟩ := List.mem_map.mp hq
    exact hsorted f hf
  refine ⟨⟨_, ofSources_ok comparator hsize (by rwa [List.map_map]), fun w => ?_⟩, ?_, ?_, ?_, ?_⟩
  · rw [readAll_of_tracks (tracks_feeds hreliable) hsources, merge_eq_mergeSort hqueues hsources]
  · exact List.pairwise_mergeSort htrans htotal rows
  · exact List.mergeSort_perm rows _
  · intro f hf
    have hown : rows.filter (·.source = f.tag) = f.queue.candidates :=
      filter_source_flatMap hsources (List.mem_map_of_mem hf)
    rw [← hown]
    apply filter_mergeSort htrans htotal
    rw [hown]
    exact hsorted f hf
  · intro c
    apply filter_mergeSort htrans htotal
    rw [List.pairwise_filter]
    refine List.pairwise_of_forall fun d e hd he => ?_
    have hdc : comparator d c = .eq := Std.OrientedCmp.eq_symm (of_decide_eq_true hd)
    have hce : comparator c e = .eq := of_decide_eq_true he
    exact htrans d c e (by rw [hdc]; rfl) (by rw [hce]; rfl)

/-- Rows of the two sources that are equal, and a row of the first that is not announced. -/
theorem reads_stable_sort_tens :
    let feeds : List (Feed Char Nat Unit) :=
      [.plain 'b' [10, 11, 20, 30] 3 (by decide), .plain 'a' [12, 19, 21] 3 (by decide)]
    ∃ s, ofSources (compareOn fun c => c.value / 10) 2 (feeds.map (·.source)) = .ok s ∧
      ∀ w, s.readAll w =
        .ok [⟨'b', 10⟩, ⟨'b', 11⟩, ⟨'a', 12⟩, ⟨'a', 19⟩, ⟨'b', 20⟩, ⟨'a', 21⟩] := by
  intro feeds
  have hreliable : ∀ f ∈ feeds, f.Reliable := by
    simp only [feeds, List.forall_mem_cons]
    exact ⟨Feed.plain_reliable _ _ _ _, Feed.plain_reliable _ _ _ _, nofun⟩
  have hsorted : ∀ f ∈ feeds, f.queue.Sorted (compareOn fun c => c.value / 10) := by
    simp only [feeds, List.forall_mem_cons]
    refine ⟨?_, ?_, nofun⟩
    · unfold Queue.Sorted
      decide
    · unfold Queue.Sorted
      decide
  have hrows : ((feeds.map (·.queue)).flatMap Queue.candidates).mergeSort
      (fun c d => (compareOn (fun c => c.value / 10) c d).isLE) =
        [⟨'b', 10⟩, ⟨'b', 11⟩, ⟨'a', 12⟩, ⟨'a', 19⟩, ⟨'b', 20⟩, ⟨'a', 21⟩] := by
    rw [← merge_eq_mergeSort (List.forall_mem_map.mpr hsorted) (by decide)]
    decide +kernel
  rw [← hrows]
  exact (reads_stable_sort _ (by decide) hreliable (by decide) hsorted).1

end SearchSync.Scan
