import SearchSync.Proofs.Scan.Session

/-!
# Trying again

A page may fail to be fetched after other sources got theirs, so a failed step leaves a scan
somewhere in the middle. It still stands for the same queues as before: pages that were fetched are
kept and asked for no more, and a page that failed is asked for at the same row again. A caller that
just goes on therefore reads the rows of the merged queues, in their order and each once.
-/
namespace SearchSync.Scan

variable {κ α σ : Type}

/-- The source is to return the rows of the queue, though its pages may fail. -/
def Follows (s : Source κ α σ) (q : Queue κ α) : Prop := ∃ f : Feed κ α σ, f.Stands s q

section Source

variable {s t : Source κ α σ} {q : Queue κ α} {limit : Nat}

theorem Follows.refills (h : Follows s q) (hlimit : 0 < limit) (hrefills : s.Refills limit t) :
    Follows t q := by
  obtain ⟨f, hstands⟩ := h
  cases hrefills with
  | kept => exact ⟨f, hstands⟩
  | fetched expected _ answer => exact ⟨f, (hstands.fetch expected hlimit answer).2⟩

theorem Follows.unfilled (h : Follows s q) (hlimit : 0 < limit) {e : ScanError κ}
    (hunfilled : s.Unfilled limit e) : ∃ tag cause, e = .fetch tag cause := by
  obtain ⟨f, hstands⟩ := h
  cases hunfilled with
  | fetch => exact ⟨_, _, rfl⟩
  | exhausted expected answer => exact absurd rfl (hstands.fetch expected hlimit answer).1

theorem Follows.take (h : Follows s q) {c : Candidate κ α} {v : Except (ScanError κ) α}
    (hhead : s.head? = some c) (htake : s.take = (v, t)) : v = .ok c.value ∧ Follows t q.tail := by
  obtain ⟨f, hstands⟩ := h
  obtain ⟨u, hu, htail⟩ := hstands.take hhead
  rw [htake] at hu
  cases hu
  exact ⟨rfl, f, htail⟩

end Source

section Sources

variable {sources sources' : List (Source κ α σ)} {queues : List (Queue κ α)} {limit : Nat}

theorem follows_refills (h : List.Forall₂ Follows sources queues) (hlimit : 0 < limit)
    (hrefills : List.Forall₂ (Source.Refills limit) sources sources') :
    List.Forall₂ Follows sources' queues := by
  induction hrefills generalizing queues with
  | nil => exact h
  | cons hs _ ih =>
    cases h with
    | cons hfollows hrest => exact .cons (hfollows.refills hlimit hs) (ih hrest)

theorem follows_head? (h : List.Forall₂ Follows sources queues) (hready : ∀ t ∈ sources, t.Ready) :
    List.Forall₂ (fun s q => s.head? = q.head?) sources queues := by
  induction h with
  | nil => exact .nil
  | cons hs _ ih =>
    obtain ⟨f, hstands⟩ := hs
    obtain ⟨hnow, hlater⟩ := List.forall_mem_cons.mp hready
    exact .cons (hstands.head?_eq hnow) (ih hlater)

theorem follows_take [DecidableEq κ] {before after : List (Source κ α σ)} {s t : Source κ α σ}
    {c : Candidate κ α} {v : Except (ScanError κ) α}
    (h : List.Forall₂ Follows (before ++ s :: after) queues)
    (hdistinct : (queues.map (·.source)).Nodup) (hready : s.Ready) (hhead : s.head? = some c)
    (htake : s.take = (v, t)) :
    v = .ok c.value ∧ List.Forall₂ Follows (before ++ t :: after) (pop c.source queues) := by
  obtain ⟨earlier, q, later, rfl, hbefore, hs, hafter⟩ := forall₂_split h
  obtain ⟨hv, ht⟩ := hs.take hhead htake
  obtain ⟨f, hstands⟩ := hs
  have hq : q.head? = some c := (hstands.head?_eq hready).symm.trans hhead
  have hsource : q.source = c.source := congrArg Queue.source (Queue.head?_eq_some hq)
  refine ⟨hv, ?_⟩
  rw [← hsource, pop_middle hdistinct]
  exact List.rel_append hbefore (.cons ht hafter)

end Sources

section Run

variable [DecidableEq κ] {s t : Scan κ α σ} {w w' : σ} {left : List (Candidate κ α)}

def Awaits (s : Scan κ α σ) (left : List (Candidate κ α)) : Prop :=
  ∃ queues, List.Forall₂ Follows s.sources queues ∧ (queues.map (·.source)).Nodup ∧
    merge s.comparator queues = left

theorem Awaits.next (h : s.Awaits left) {r : Except (ScanError κ) Bool}
    (hnext : s.next w = (r, t, w')) :
    (∃ c rest, r = .ok true ∧ t.current = some c ∧ left = c :: rest ∧ t.Awaits rest) ∨
      (r = .ok false ∧ left = [] ∧ t.Awaits left) ∨
      ∃ tag cause, r = .error (.fetch tag cause) ∧ t.Awaits left := by
  obtain ⟨queues, hfollows, hdistinct, hleft⟩ := h
  cases next_advance hnext with
  | @unfilled _ u _ refills mem reason =>
    obtain ⟨before, after, hsplit⟩ := List.append_of_mem mem
    have hat := hfollows
    rw [hsplit] at hat
    obtain ⟨_, _, _, -, -, hu, -⟩ := forall₂_split hat
    obtain ⟨tag, cause, rfl⟩ := hu.unfilled s.batchSize_pos reason
    have hrefilled := follows_refills hfollows s.batchSize_pos refills
    exact Or.inr (Or.inr ⟨tag, cause, rfl, queues, hrefilled, hdistinct, hleft⟩)
  | finished nothing =>
    have hheads := follows_head? hfollows fun u hu => Or.inl (nothing u hu)
    have hfirst : first? s.comparator queues = none := by
      rw [← winner?_eq hheads, winner?_eq_none s.comparator nothing]
      rfl
    have hnone : left = [] := by rw [← hleft, merge_of_none hfirst]
    exact Or.inr (Or.inl ⟨rfl, hnone, queues, hfollows, hdistinct, hleft⟩)
  | @returned before after _ _ c refills ready winner head take =>
    have hfilled := follows_refills hfollows s.batchSize_pos refills
    have hready := ready _ (List.mem_append_right before List.mem_cons_self)
    have htaken := (follows_take hfilled hdistinct hready head take).2
    have hfirst : first? s.comparator queues = some c := by
      rw [← winner?_eq (follows_head? hfilled ready), winner]
      rfl
    refine Or.inl ⟨c, _, rfl, rfl, ?_, pop c.source queues, htaken, ?_, rfl⟩
    · rw [← hleft, merge_of_some hfirst]
    · rwa [map_source_pop]
  | @uncounted before _ _ _ _ refills ready head take =>
    have hfilled := follows_refills hfollows s.batchSize_pos refills
    have hready := ready _ (List.mem_append_right before List.mem_cons_self)
    cases (follows_take hfilled hdistinct hready head take).1

theorem Awaits.use (h : s.Awaits left) {event : Event κ α} (huse : s.use w .next = (event, t, w')) :
    (∃ c rest, event = .returned c ∧ left = c :: rest ∧ t.Awaits rest) ∨
      (event = .finished ∧ left = [] ∧ t.Awaits left) ∨
      ∃ tag cause, event = .failed (.fetch tag cause) ∧ t.Awaits left := by
  simp only [Scan.use] at huse
  split at huse <;> rename_i hnext
  · cases huse
    rcases h.next hnext with ⟨_, _, hr, -⟩ | ⟨hr, -⟩ | ⟨tag, cause, hr, ht⟩
    · cases hr
    · cases hr
    · cases hr
      exact Or.inr (Or.inr ⟨tag, cause, rfl, ht⟩)
  · cases huse
    rcases h.next hnext with ⟨_, _, hr, -⟩ | ⟨-, hleft, ht⟩ | ⟨_, _, hr, -⟩
    · cases hr
    · exact Or.inr (Or.inl ⟨rfl, hleft, ht⟩)
    · cases hr
  · rcases h.next hnext with ⟨c, rest, -, hcurrent, hleft, ht⟩ | ⟨hr, -⟩ | ⟨_, _, hr, -⟩
    · simp only [row, currentSource, get, hcurrent] at huse
      cases huse
      exact Or.inl ⟨c, rest, rfl, hleft, ht⟩
    · cases hr
    · cases hr

theorem Awaits.run (h : s.Awaits left) {n : Nat} {events : List (Event κ α)}
    (hrun : s.run w (List.replicate n .next) = (events, t, w')) :
    ∃ rest, left = rows events ++ rest ∧ t.Awaits rest ∧ (.finished ∈ events → rest = []) ∧
      ∀ e, .failed e ∈ events → ∃ tag cause, e = .fetch tag cause := by
  induction n generalizing s w left events with
  | zero =>
    cases hrun
    exact ⟨left, rfl, h, fun hmem => absurd hmem List.not_mem_nil,
      fun _ hmem => absurd hmem List.not_mem_nil⟩
  | succ n ih =>
    rw [List.replicate_succ, Scan.run] at hrun
    split at hrun
    rename_i huse
    split at hrun
    rename_i hlater
    cases hrun
    rcases h.use huse with ⟨c, rest, rfl, rfl, ht⟩ | ⟨rfl, rfl, ht⟩ | ⟨tag, cause, rfl, ht⟩
    · obtain ⟨rest, rfl, hawaits, hfinished, hfailed⟩ := ih ht hlater
      refine ⟨rest, rfl, hawaits, ?_, ?_⟩
      · intro hmem
        exact hfinished (List.mem_of_ne_of_mem (by simp) hmem)
      · intro e hmem
        exact hfailed e (List.mem_of_ne_of_mem (by simp) hmem)
    · obtain ⟨rest, hnone, hawaits, -, hfailed⟩ := ih ht hlater
      refine ⟨rest, hnone, hawaits, ?_, ?_⟩
      · intro _
        exact (List.append_eq_nil_iff.mp hnone.symm).2
      · intro e hmem
        exact hfailed e (List.mem_of_ne_of_mem (by simp) hmem)
    · obtain ⟨rest, hrest, hawaits, hfinished, hfailed⟩ := ih ht hlater
      refine ⟨rest, hrest, hawaits, ?_, ?_⟩
      · intro hmem
        exact hfinished (List.mem_of_ne_of_mem (by simp) hmem)
      · intro e hmem
        rcases List.mem_cons.mp hmem with heq | hmem
        · cases heq
          exact ⟨tag, cause, rfl⟩
        · exact hfailed e hmem

end Run

theorem awaits_feeds [DecidableEq κ] (comparator : Comparator κ α) {batchSize : Nat}
    (hsize : 0 < batchSize) {feeds : List (Feed κ α σ)} (hdistinct : (feeds.map (·.tag)).Nodup) :
    Awaits ⟨comparator, batchSize, hsize, feeds.map (·.source), none⟩
      (merge comparator (feeds.map (·.queue))) := by
  refine ⟨feeds.map (·.queue), ?_, ?_, rfl⟩
  · rw [List.forall₂_map_left_iff, List.forall₂_map_right_iff, List.forall₂_same]
    exact fun f _ => ⟨f, f.stands_source⟩
  · rwa [List.map_map]

/-- When no page fails, a scan reads the merge of the rows. A caller that goes on after failures
receives rows from its beginning, and is told that there are no more only after all of it. Only
pages fail, and after a failed step there is no row returned last. -/
theorem retries_lose_nothing [DecidableEq κ] (comparator : Comparator κ α) {batchSize : Nat}
    (hsize : 0 < batchSize) {feeds : List (Feed κ α σ)} (hdistinct : (feeds.map (·.tag)).Nodup) :
    let all := merge comparator (feeds.map (·.queue))
    ∃ s, ofSources comparator batchSize (feeds.map (·.source)) = .ok s ∧
      (∀ {τ : Type} (steady : List (Feed κ α τ)), (∀ f ∈ steady, f.Reliable) →
        steady.map (·.queue) = feeds.map (·.queue) →
        ∃ t, ofSources comparator batchSize (steady.map (·.source)) = .ok t ∧
          ∀ w, t.readAll w = .ok all) ∧
      ∀ n w events t w', s.run w (List.replicate n .next) = (events, t, w') →
        rows events <+: all ∧ (.finished ∈ events → rows events = all) ∧
          (∀ e, .failed e ∈ events → ∃ tag cause, e = .fetch tag cause) ∧
          ∀ e u w'', t.next w' = (.error e, u, w'') →
            u.get = .error .invalidState ∧ u.currentSource = .error .invalidState := by
  intro all
  refine ⟨⟨comparator, batchSize, hsize, feeds.map (·.source), none⟩, ?_, ?_, ?_⟩
  · apply ofSources_ok
    rwa [List.map_map]
  · intro τ steady hreliable hqueues
    have hsources : ((feeds.map (·.queue)).map (·.source)).Nodup := by rwa [List.map_map]
    have htags : ((steady.map (·.source)).map (·.tag)).Nodup := by
      rw [← hqueues, List.map_map] at hsources
      rwa [List.map_map]
    refine ⟨_, ofSources_ok comparator hsize htags, fun w => ?_⟩
    rw [show all = merge comparator (steady.map (·.queue)) by rw [hqueues]]
    apply readAll_of_tracks (tracks_feeds hreliable)
    rwa [hqueues]
  · intro n w events t w' hrun
    obtain ⟨rest, (hall : all = _), -, hfinished, hfailed⟩ :=
      (awaits_feeds comparator hsize hdistinct).run hrun
    refine ⟨⟨rest, hall.symm⟩, ?_, hfailed, ?_⟩
    · intro hmem
      rw [hall, hfinished hmem, List.append_nil]
    · intro e u w'' hnext
      have hcurrent : u.current = none := by
        cases next_advance hnext <;> rfl
      simp only [get, currentSource, hcurrent, and_self]

namespace Sample

def faltering (tag : Char) (rows : List Nat) (count : UInt64)
    (count_le : count.toNat ≤ rows.length) : Feed Char Nat Nat where
  tag := tag
  rows := rows
  count := count
  fetchPage offset limit calls :=
    (if calls % 2 = 0 then .error "down" else .ok ((rows.drop offset).take limit), calls + 1)
  count_le := count_le
  page := by
    intro offset limit calls page w' hoffset hlimit h
    obtain ⟨hanswer, -⟩ := Prod.mk.inj h
    split at hanswer
    · cases hanswer
    · cases hanswer
      refine ⟨?_, List.take_prefix _ _⟩
      rw [ne_eq, List.take_eq_nil_iff, List.drop_eq_nil_iff]
      omega

def falterers : List (Feed Char Nat Nat) :=
  [faltering 'a' [1, 3, 5] 3 (by decide), faltering 'b' [2, 4] 2 (by decide)]

def steady : List (Feed Char Nat Nat) :=
  [.plain 'a' [1, 3, 5] 3 (by decide), .plain 'b' [2, 4] 2 (by decide)]

end Sample

theorem retries_faltering :
    ∃ s t, ofSources (fun c d => compare c.value d.value) 2 (Sample.falterers.map (·.source)) =
        .ok s ∧
      ofSources (fun c d => compare c.value d.value) 2 (Sample.steady.map (·.source)) = .ok t ∧
      (s.run 0 (List.replicate 9 .next)).1 =
        [.failed (.fetch 'a' "down"), .failed (.fetch 'b' "down"), .returned ⟨'a', 1⟩,
          .returned ⟨'b', 2⟩, .returned ⟨'a', 3⟩, .failed (.fetch 'a' "down"),
          .returned ⟨'b', 4⟩, .returned ⟨'a', 5⟩, .finished] ∧
      t.readAll 0 = .ok (rows (s.run 0 (List.replicate 9 .next)).1) := by
  obtain ⟨s, hs, hsteady, hrun⟩ := retries_lose_nothing (fun c d => compare c.value d.value)
    (by decide : 0 < 2) (by decide : (Sample.falterers.map (·.tag)).Nodup)
  have hreliable : ∀ f ∈ Sample.steady, f.Reliable := by
    simp only [Sample.steady, List.forall_mem_cons]
    exact ⟨Feed.plain_reliable _ _ _ _, Feed.plain_reliable _ _ _ _, nofun⟩
  obtain ⟨t, ht, hall⟩ := hsteady Sample.steady hreliable (by decide +kernel)
  have hbuilt := ofSources_ok (fun c d : Candidate Char Nat => compare c.value d.value)
    (by decide : 0 < 2) (by decide : ((Sample.falterers.map (·.source)).map (·.tag)).Nodup)
  rw [hs] at hbuilt
  have hevents : (s.run 0 (List.replicate 9 .next)).1 =
      [.failed (.fetch 'a' "down"), .failed (.fetch 'b' "down"), .returned ⟨'a', 1⟩,
        .returned ⟨'b', 2⟩, .returned ⟨'a', 3⟩, .failed (.fetch 'a' "down"),
        .returned ⟨'b', 4⟩, .returned ⟨'a', 5⟩, .finished] := by
    cases hbuilt
    decide +kernel
  refine ⟨s, t, hs, ht, hevents, ?_⟩
  generalize hread : s.run 0 (List.replicate 9 .next) = outcome at hevents ⊢
  obtain ⟨events, u, w⟩ := outcome
  dsimp only at hevents
  have hfinished : .finished ∈ events := by
    rw [hevents]
    decide
  rw [hall 0, (hrun 9 0 events u w hread).2.1 hfinished]

end SearchSync.Scan
