import SearchSync.Proofs.Entity.Encoding
import SearchSync.Proofs.Text.Pieces
import SearchSync.Sync.Bulk

/-!
# The order of ids

Ids are compared by kind, then by value, by bytes or part by part. The comparison is that of a
linear order, which is also given by what comes before what.
-/

namespace SearchSync

namespace EntityId

@[elab_as_elim]
theorem pair_induction {motive : EntityId → EntityId → Prop}
    (other : ∀ a b, a.rank ≠ b.rank → motive a b) (int : ∀ m n, motive (.int m) (.int n))
    (uuid : ∀ u v, motive (.uuid u) (.uuid v)) (text : ∀ s t, motive (.text s) (.text t))
    (composite : ∀ ps qs, (∀ p ∈ ps, ∀ q, motive p q) → motive (.composite ps) (.composite qs))
    (a b : EntityId) : motive a b := by
  induction a using parts_induction generalizing b with
  | int m =>
    cases b with
    | int n => exact int m n
    | _ => exact other _ _ (by simp [rank])
  | uuid u =>
    cases b with
    | uuid v => exact uuid u v
    | _ => exact other _ _ (by simp [rank])
  | text s =>
    cases b with
    | text t => exact text s t
    | _ => exact other _ _ (by simp [rank])
  | composite ps ih =>
    cases b with
    | composite qs => exact composite ps qs ih
    | _ => exact other _ _ (by simp [rank])

variable {a b c : EntityId} {ps qs rs : List EntityId}

theorem cmp_of_rank_ne (h : a.rank ≠ b.rank) : a.cmp b = compare a.rank b.rank := by
  cases a <;> cases b <;> first | rfl | exact absurd rfl h

theorem cmpParts_cons (p q : EntityId) (ps qs : List EntityId) :
    cmpParts (p :: ps) (q :: qs) = (p.cmp q).then (cmpParts ps qs) := by
  rw [cmpParts]

theorem cmpParts_swap (h : ∀ p ∈ ps, ∀ q, p.cmp q = (q.cmp p).swap) :
    cmpParts ps qs = (cmpParts qs ps).swap := by
  induction ps generalizing qs with
  | nil => cases qs <;> rfl
  | cons p ps ih =>
    obtain ⟨hp, hps⟩ := List.forall_mem_cons.mp h
    cases qs with
    | nil => rfl
    | cons q qs => rw [cmpParts_cons, cmpParts_cons, Ordering.swap_then, hp q, ih hps]

theorem cmp_swap (a b : EntityId) : a.cmp b = (b.cmp a).swap := by
  induction a, b using pair_induction with
  | other a b hrank =>
    rw [cmp_of_rank_ne hrank, cmp_of_rank_ne hrank.symm]
    exact Std.OrientedOrd.eq_swap
  | int | uuid | text => exact Std.OrientedOrd.eq_swap
  | composite ps qs ih => exact cmpParts_swap ih

theorem cmpParts_eq_iff (h : ∀ p ∈ ps, ∀ q, p.cmp q = .eq ↔ p = q) :
    cmpParts ps qs = .eq ↔ ps = qs := by
  induction ps generalizing qs with
  | nil => cases qs <;> simp [cmpParts]
  | cons p ps ih =>
    obtain ⟨hp, hps⟩ := List.forall_mem_cons.mp h
    cases qs with
    | nil => simp [cmpParts]
    | cons q qs => rw [cmpParts_cons, Ordering.then_eq_eq, hp q, ih hps, List.cons.injEq]

theorem cmp_eq_iff (a b : EntityId) : a.cmp b = .eq ↔ a = b := by
  induction a, b using pair_induction with
  | other a b hrank =>
    rw [cmp_of_rank_ne hrank, Nat.compare_eq_eq]
    exact iff_of_false hrank fun heq => hrank (congrArg rank heq)
  | int m n => simp [cmp, Int64.toInt_inj]
  | uuid u v =>
    obtain ⟨m⟩ := u
    obtain ⟨n⟩ := v
    simp [cmp, BitVec.toNat_inj]
  | text s t => simp [cmp]
  | composite ps qs ih =>
    rw [composite.injEq]
    exact cmpParts_eq_iff ih

instance : Std.OrientedCmp cmp where
  eq_swap := cmp_swap _ _

instance : Std.LawfulEqCmp cmp where
  compare_self := (cmp_eq_iff _ _).mpr rfl
  eq_of_compare := (cmp_eq_iff _ _).mp

theorem rank_le_of_isLE (h : (a.cmp b).isLE) : a.rank ≤ b.rank := by
  by_cases hrank : a.rank = b.rank
  · exact Nat.le_of_eq hrank
  · rw [cmp_of_rank_ne hrank] at h
    exact Nat.isLE_compare.mp h

theorem cmpParts_isLE_trans
    (h : ∀ p ∈ ps, ∀ q r, (p.cmp q).isLE → (q.cmp r).isLE → (p.cmp r).isLE)
    (hpq : (cmpParts ps qs).isLE) (hqr : (cmpParts qs rs).isLE) : (cmpParts ps rs).isLE := by
  induction ps generalizing qs rs with
  | nil => cases rs <;> rfl
  | cons p ps ih =>
    obtain ⟨hp, hps⟩ := List.forall_mem_cons.mp h
    cases qs with
    | nil => cases hpq
    | cons q qs =>
      cases rs with
      | nil => cases hqr
      | cons r rs =>
        rw [cmpParts_cons, Ordering.isLE_then_iff_or] at hpq hqr ⊢
        rcases hpq with hpq | ⟨hpq, hps'⟩
        · refine Or.inl ?_
          have hqr : (q.cmp r).isLE := by
            rcases hqr with hqr | ⟨hqr, -⟩ <;> rw [hqr] <;> rfl
          rcases Ordering.isLE_iff_eq_lt_or_eq_eq.mp (hp q r (by rw [hpq]; rfl) hqr) with hpr | hpr
          · exact hpr
          · obtain rfl := (cmp_eq_iff p r).mp hpr
            rw [cmp_swap, hpq] at hqr
            cases hqr
        · obtain rfl := (cmp_eq_iff p q).mp hpq
          rcases hqr with hqr | ⟨hqr, hqs⟩
          · exact Or.inl hqr
          · exact Or.inr ⟨hqr, ih hps hps' hqs⟩

theorem cmp_isLE_trans (a b c : EntityId) (hab : (a.cmp b).isLE) (hbc : (b.cmp c).isLE) :
    (a.cmp c).isLE := by
  induction a, b using pair_induction generalizing c with
  | other a b hrank =>
    have hlt : a.rank < c.rank :=
      Nat.lt_of_lt_of_le (Nat.lt_of_le_of_ne (rank_le_of_isLE hab) hrank) (rank_le_of_isLE hbc)
    rw [cmp_of_rank_ne (Nat.ne_of_lt hlt)]
    exact Nat.isLE_compare.mpr (Nat.le_of_lt hlt)
  | int m n =>
    cases c with
    | int k => exact Std.TransOrd.isLE_trans hab hbc
    | _ => rfl
  | uuid u v =>
    cases c with
    | int k => cases hbc
    | uuid w => exact Std.TransOrd.isLE_trans hab hbc
    | _ => rfl
  | text s t =>
    cases c with
    | text r => exact Std.TransOrd.isLE_trans hab hbc
    | composite rs => rfl
    | _ => cases hbc
  | composite ps qs ih =>
    cases c with
    | composite rs => exact cmpParts_isLE_trans (fun p hp q r => ih p hp q r) hab hbc
    | _ => cases hbc

instance : Std.TransCmp cmp where
  isLE_trans := cmp_isLE_trans _ _ _

end EntityId

instance : Std.TransCmp Bulk.byId where
  eq_swap := EntityId.cmp_swap _ _
  isLE_trans := EntityId.cmp_isLE_trans _ _ _

def Uuid.bytes (u : Uuid) : List UInt8 := bigEndian 16 u.bits.toNat

namespace EntityId

inductive Precedes : EntityId → EntityId → Prop
  | int_first (m : Int64) {b : EntityId} (other : ∀ n, b ≠ .int n) : Precedes (.int m) b
  | uuid_text (u : Uuid) (s : String) : Precedes (.uuid u) (.text s)
  | composite_last {a : EntityId} (other : ∀ ps, a ≠ .composite ps) (qs : List EntityId) :
      Precedes a (.composite qs)
  | int {m n : Int64} (less : m.toInt < n.toInt) : Precedes (.int m) (.int n)
  | uuid {u v : Uuid} (less : u.bytes < v.bytes) : Precedes (.uuid u) (.uuid v)
  | text {s t : String} (less : Text.bytes s < Text.bytes t) : Precedes (.text s) (.text t)
  | shorter (common : List EntityId) (q : EntityId) (qs : List EntityId) :
      Precedes (.composite common) (.composite (common ++ q :: qs))
  | part (common : List EntityId) {p q : EntityId} (ps qs : List EntityId) (less : Precedes p q) :
      Precedes (.composite (common ++ p :: ps)) (.composite (common ++ q :: qs))

variable {a b : EntityId} {ps qs : List EntityId}

theorem cmpParts_eq_lt_iff : cmpParts ps qs = .lt ↔
    (∃ q rest, qs = ps ++ q :: rest) ∨
      ∃ common p q ps' qs', ps = common ++ p :: ps' ∧ qs = common ++ q :: qs' ∧ p.cmp q = .lt := by
  induction ps generalizing qs with
  | nil =>
    cases qs with
    | nil => simp [cmpParts]
    | cons q qs => simp [cmpParts]
  | cons p ps ih =>
    cases qs with
    | nil => simp [cmpParts]
    | cons q qs =>
      rw [cmpParts_cons, Ordering.then_eq_lt, ih]
      constructor
      · intro h
        rcases h with h | ⟨h, h'⟩
        · exact Or.inr ⟨[], p, q, ps, qs, rfl, rfl, h⟩
        · obtain rfl := (cmp_eq_iff p q).mp h
          rcases h' with ⟨q', rest, rfl⟩ | ⟨common, p', q', ps', qs', rfl, rfl, hless⟩
          · exact Or.inl ⟨q', rest, rfl⟩
          · exact Or.inr ⟨p :: common, p', q', ps', qs', rfl, rfl, hless⟩
      · intro h
        rcases h with ⟨q', rest, h⟩ | ⟨common, p', q', ps', qs', hps, hqs, hless⟩
        · obtain ⟨rfl, rfl⟩ := List.cons.inj h
          exact Or.inr ⟨(cmp_eq_iff q q).mpr rfl, Or.inl ⟨q', rest, rfl⟩⟩
        · cases common with
          | nil =>
            obtain ⟨rfl, rfl⟩ := List.cons.inj hps
            obtain ⟨rfl, rfl⟩ := List.cons.inj hqs
            exact Or.inl hless
          | cons r common =>
            obtain ⟨rfl, rfl⟩ := List.cons.inj hps
            obtain ⟨rfl, rfl⟩ := List.cons.inj hqs
            refine Or.inr ⟨(cmp_eq_iff _ _).mpr rfl, Or.inr ?_⟩
            exact ⟨common, p', q', ps', qs', rfl, rfl, hless⟩

theorem uuid_bytes_lt_iff {u v : Uuid} : u.bytes < v.bytes ↔ u.bits.toNat < v.bits.toNat :=
  bigEndian_lt_iff u.bits.isLt v.bits.isLt

theorem compare_text_eq_lt_iff {s t : String} :
    compare s t = .lt ↔ Text.bytes s < Text.bytes t := by
  rw [Text.bytes_lt_iff]
  exact compareOfLessAndEq_eq_lt

theorem precedes_of_rank_lt (h : a.rank < b.rank) : Precedes a b := by
  cases b with
  | int n => exact absurd h (Nat.not_lt_zero _)
  | composite qs =>
    refine .composite_last (fun ps ha => ?_) qs
    rw [ha] at h
    exact Nat.lt_irrefl _ h
  | uuid v =>
    cases a with
    | int m =>
      refine .int_first m fun n huuid => ?_
      cases huuid
    | _ => exact absurd h (by simp [rank])
  | text t =>
    cases a with
    | int m =>
      refine .int_first m fun n htext => ?_
      cases htext
    | uuid u => exact .uuid_text u t
    | _ => exact absurd h (by simp [rank])

theorem precedes_of_cmp (a b : EntityId) (h : a.cmp b = .lt) : Precedes a b := by
  induction a, b using pair_induction with
  | other a b hrank =>
    rw [cmp_of_rank_ne hrank] at h
    exact precedes_of_rank_lt (Nat.compare_eq_lt.mp h)
  | int m n => exact .int (Int.compare_eq_lt.mp h)
  | uuid u v => exact .uuid (uuid_bytes_lt_iff.mpr (Nat.compare_eq_lt.mp h))
  | text s t => exact .text (compare_text_eq_lt_iff.mp h)
  | composite ps qs ih =>
    rcases cmpParts_eq_lt_iff.mp h with ⟨q, rest, rfl⟩ | ⟨common, p, q, ps, qs, rfl, rfl, hless⟩
    · exact .shorter ps q rest
    · exact .part common ps qs (ih p (by simp) q hless)

theorem cmp_of_precedes (h : Precedes a b) : a.cmp b = .lt := by
  induction h with
  | @int_first m b other =>
    cases b with
    | int n => exact absurd rfl (other n)
    | _ => rfl
  | uuid_text => rfl
  | @composite_last a other =>
    cases a with
    | composite ps => exact absurd rfl (other ps)
    | _ => rfl
  | int less => exact Int.compare_eq_lt.mpr less
  | uuid less => exact Nat.compare_eq_lt.mpr (uuid_bytes_lt_iff.mp less)
  | text less => exact compare_text_eq_lt_iff.mpr less
  | shorter common q qs => exact cmpParts_eq_lt_iff.mpr (Or.inl ⟨q, qs, rfl⟩)
  | part common ps qs _ ih =>
    exact cmpParts_eq_lt_iff.mpr (Or.inr ⟨common, _, _, ps, qs, rfl, rfl, ih⟩)

theorem cmp_eq_lt_iff (a b : EntityId) : a.cmp b = .lt ↔ Precedes a b :=
  ⟨precedes_of_cmp a b, cmp_of_precedes⟩

end EntityId

/-- A comparison puts things in a linear order, in which nothing shares its place but with what is
the same. -/
structure LinearComparison {α : Type} (cmp : α → α → Ordering) (before same : α → α → Prop) :
    Prop where
  less : ∀ a b, cmp a b = .lt ↔ before a b
  equal : ∀ a b, cmp a b = .eq ↔ same a b
  greater : ∀ a b, cmp a b = .gt ↔ before b a
  antisymm : ∀ a b, (cmp a b).isLE → (cmp b a).isLE → same a b
  trans : ∀ a b c, (cmp a b).isLE → (cmp b c).isLE → (cmp a c).isLE
  total : ∀ a b, (cmp a b).isLE ∨ (cmp b a).isLE

theorem LinearComparison.on {α β : Type} {cmp : α → α → Ordering} {before same : α → α → Prop}
    (h : LinearComparison cmp before same) (f : β → α) :
    LinearComparison (fun x y => cmp (f x) (f y)) (fun x y => before (f x) (f y))
      fun x y => same (f x) (f y) where
  less x y := h.less (f x) (f y)
  equal x y := h.equal (f x) (f y)
  greater x y := h.greater (f x) (f y)
  antisymm x y := h.antisymm (f x) (f y)
  trans x y z := h.trans (f x) (f y) (f z)
  total x y := h.total (f x) (f y)

theorem EntityId.linear_cmp : LinearComparison cmp Precedes Eq where
  less := cmp_eq_lt_iff
  equal := cmp_eq_iff
  greater a b := by rw [cmp_swap a b, Ordering.swap_eq_gt, cmp_eq_lt_iff]
  antisymm a b hab hba := by
    rw [cmp_swap b a] at hba
    refine (cmp_eq_iff a b).mp ?_
    cases hcmp : a.cmp b with
    | eq => rfl
    | lt => rw [hcmp] at hba; cases hba
    | gt => rw [hcmp] at hab; cases hab
  trans := cmp_isLE_trans
  total a b := by
    rw [cmp_swap b a]
    cases a.cmp b <;> simp

/-- Ids are ordered linearly, by kind, value, bytes or the first parts that differ, and records by
their ids: no two records are the same to the comparison of a scan but those with the same id. -/
theorem ids_linearly_ordered :
    LinearComparison EntityId.cmp EntityId.Precedes Eq ∧
      LinearComparison Bulk.byId (fun x y => EntityId.Precedes x.value.id y.value.id)
        fun x y => x.value.id = y.value.id :=
  ⟨EntityId.linear_cmp,
    EntityId.linear_cmp.on fun x : Scan.Candidate EntityType Record => x.value.id⟩

end SearchSync
