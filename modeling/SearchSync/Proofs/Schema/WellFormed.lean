import Mathlib.Data.List.Nodup
import SearchSync.Schema.Basic

/-!
# Well-formed schemas

A list of root declarations is checked root by root and refused with its first violation. What
passes is well-formed: every type has a name, no type stands twice where types are told apart, and
there is a way to every contained type.
-/

namespace SearchSync

/-- The types of a root's documents are told apart, and each can be found in some way. -/
structure RootType.WellFormed (r : RootType) : Prop where
  named : ∀ c ∈ r.contained, c.entityType.name.isEmpty = false
  distinct : (r.contained.map (·.entityType)).Nodup
  located : ∀ c ∈ r.contained, (c.idFields.isEmpty && c.backReference.isNone) = false

namespace Schema

def rootTypes (s : Schema) : List EntityType := s.roots.map (·.entityType)

structure WellFormed (s : Schema) : Prop where
  named : ∀ r ∈ s.roots, r.entityType.name.isEmpty = false
  distinct : s.rootTypes.Nodup
  contained : ∀ r ∈ s.roots, r.WellFormed

private theorem unseen_cons {α : Type} (type : α → EntityType) (a : α) (rest : List α)
    (seen : List EntityType) :
    (((a :: rest).map type).Nodup ∧ ∀ x ∈ a :: rest, type x ∉ seen) ↔
      type a ∉ seen ∧ (rest.map type).Nodup ∧ ∀ x ∈ rest, type x ∉ type a :: seen := by
  rw [List.map_cons, List.nodup_cons, List.forall_mem_cons, List.mem_map]
  simp only [List.mem_cons, not_or]
  constructor
  · rintro ⟨⟨hnew, hrest⟩, ha, hseen⟩
    exact ⟨ha, hrest, fun x hx => ⟨fun heq => hnew ⟨x, hx, heq⟩, hseen x hx⟩⟩
  · rintro ⟨ha, hrest, hseen⟩
    refine ⟨⟨?_, hrest⟩, ha, fun x hx => (hseen x hx).2⟩
    rintro ⟨x, hx, heq⟩
    exact (hseen x hx).1 heq

theorem checkContained_ok_iff {root : EntityType} {seen : List EntityType}
    {cs : List ContainedType} :
    checkContained root seen cs = .ok () ↔
      (∀ c ∈ cs, c.entityType.name.isEmpty = false) ∧
        ((cs.map (·.entityType)).Nodup ∧ ∀ c ∈ cs, c.entityType ∉ seen) ∧
        ∀ c ∈ cs, (c.idFields.isEmpty && c.backReference.isNone) = false := by
  induction cs generalizing seen with
  | nil => simp [checkContained]
  | cons c cs ih =>
    rw [unseen_cons, List.forall_mem_cons, List.forall_mem_cons, checkContained]
    cases hname : c.entityType.name.isEmpty with
    | true => exact ⟨nofun, fun h => nomatch h.1.1⟩
    | false =>
      by_cases hseen : c.entityType ∈ seen
      · rw [if_neg nofun, if_pos (List.contains_iff_mem.mpr hseen)]
        exact ⟨nofun, fun h => absurd hseen h.2.1.1⟩
      cases hlocated : c.idFields.isEmpty && c.backReference.isNone with
      | true =>
        rw [if_neg nofun, if_neg (mt List.contains_iff_mem.mp hseen), if_pos rfl]
        exact ⟨nofun, fun h => nomatch h.2.2.1⟩
      | false =>
        rw [if_neg nofun, if_neg (mt List.contains_iff_mem.mp hseen), if_neg nofun, ih]
        constructor
        · rintro ⟨hnamed, hdistinct, hall⟩
          exact ⟨⟨rfl, hnamed⟩, ⟨hseen, hdistinct⟩, rfl, hall⟩
        · rintro ⟨⟨-, hnamed⟩, ⟨-, hdistinct⟩, -, hall⟩
          exact ⟨hnamed, hdistinct, hall⟩

theorem checkContained_iff_wellFormed (r : RootType) :
    checkContained r.entityType [] r.contained = .ok () ↔ r.WellFormed := by
  rw [checkContained_ok_iff]
  constructor
  · rintro ⟨hnamed, ⟨hdistinct, -⟩, hlocated⟩
    exact ⟨hnamed, hdistinct, hlocated⟩
  · rintro ⟨hnamed, hdistinct, hlocated⟩
    exact ⟨hnamed, ⟨hdistinct, fun _ _ => List.not_mem_nil⟩, hlocated⟩

theorem checkRoots_ok_iff {seen : List EntityType} {rs : List RootType} :
    checkRoots seen rs = .ok () ↔
      (∀ r ∈ rs, r.entityType.name.isEmpty = false) ∧
        ((rs.map (·.entityType)).Nodup ∧ ∀ r ∈ rs, r.entityType ∉ seen) ∧
        ∀ r ∈ rs, r.WellFormed := by
  induction rs generalizing seen with
  | nil => simp [checkRoots]
  | cons r rs ih =>
    rw [unseen_cons, List.forall_mem_cons, List.forall_mem_cons, checkRoots]
    cases hname : r.entityType.name.isEmpty with
    | true => exact ⟨nofun, fun h => nomatch h.1.1⟩
    | false =>
      by_cases hseen : r.entityType ∈ seen
      · rw [if_neg nofun, if_pos (List.contains_iff_mem.mpr hseen)]
        exact ⟨nofun, fun h => absurd hseen h.2.1.1⟩
      rw [if_neg nofun, if_neg (mt List.contains_iff_mem.mp hseen),
        ← checkContained_iff_wellFormed]
      cases hcheck : checkContained r.entityType [] r.contained with
      | error e => exact ⟨nofun, fun h => nomatch h.2.2.1⟩
      | ok =>
        change checkRoots (r.entityType :: seen) rs = .ok () ↔ _
        rw [ih]
        constructor
        · rintro ⟨hnamed, hdistinct, hall⟩
          exact ⟨⟨rfl, hnamed⟩, ⟨hseen, hdistinct⟩, rfl, hall⟩
        · rintro ⟨⟨-, hnamed⟩, ⟨-, hdistinct⟩, -, hall⟩
          exact ⟨hnamed, hdistinct, hall⟩

theorem wellFormed_of_ofRoots {roots : List RootType} {s : Schema} (h : ofRoots roots = .ok s) :
    s.roots = roots ∧ s.WellFormed := by
  unfold ofRoots at h
  cases hcheck : checkRoots [] roots with
  | error e =>
    rw [hcheck] at h
    cases h
  | ok =>
    rw [hcheck] at h
    cases h
    obtain ⟨hnamed, ⟨hdistinct, -⟩, hall⟩ := checkRoots_ok_iff.mp hcheck
    exact ⟨rfl, hnamed, hdistinct, hall⟩

end Schema

section Checks

variable {α σ ε : Type} {step : σ → α → Except ε Unit} {next : σ → α → σ}
  {check : σ → List α → Except ε Unit}

/-- A check that goes through a list, with a state that it takes along, fails at the first item at
which its step fails. -/
theorem check_error_iff (hnil : ∀ s, check s [] = .ok ())
    (hcons : ∀ s a as, check s (a :: as) = (step s a).bind fun _ => check (next s a) as)
    {s : σ} {as : List α} {e : ε} : check s as = .error e ↔ ∃ before a after,
      as = before ++ a :: after ∧ check s before = .ok () ∧
        step (before.foldl next s) a = .error e := by
  induction as generalizing s with
  | nil =>
    rw [hnil]
    refine iff_of_false nofun ?_
    intro ⟨before, a, after, hsplit, _⟩
    simp at hsplit
  | cons a as ih =>
    rw [hcons]
    cases hstep : step s a with
    | error e' =>
      constructor
      · intro h
        cases h
        exact ⟨[], a, as, rfl, hnil s, hstep⟩
      · intro ⟨before, a', after, hsplit, hok, herror⟩
        cases before with
        | nil =>
          obtain ⟨rfl, rfl⟩ := List.cons.inj hsplit
          exact hstep.symm.trans herror
        | cons b before =>
          obtain ⟨rfl, rfl⟩ := List.cons.inj hsplit
          rw [hcons, hstep] at hok
          cases hok
    | ok =>
      have htail : check (next s a) as = .error e ↔ _ := ih
      refine htail.trans ?_
      constructor
      · intro ⟨before, a', after, hsplit, hok, herror⟩
        refine ⟨a :: before, a', after, congrArg (a :: ·) hsplit, ?_, herror⟩
        rw [hcons, hstep]
        exact hok
      · intro ⟨before, a', after, hsplit, hok, herror⟩
        cases before with
        | nil =>
          obtain ⟨rfl, rfl⟩ := List.cons.inj hsplit
          rw [List.foldl_nil, hstep] at herror
          cases herror
        | cons b before =>
          obtain ⟨rfl, rfl⟩ := List.cons.inj hsplit
          rw [hcons, hstep] at hok
          exact ⟨before, a', after, rfl, hok, herror⟩

theorem foldl_seen (type : α → EntityType) (as : List α) (seen : List EntityType) :
    as.foldl (fun seen a => type a :: seen) seen = (as.map type).reverse ++ seen := by
  induction as generalizing seen with
  | nil => rfl
  | cons a as ih => simp [ih]

end Checks

inductive ContainedType.Violates (root : EntityType) (seen : List EntityType) (c : ContainedType) :
    SchemaError → Prop
  | unnamed (unnamed : c.entityType.name = "") : Violates root seen c .emptyName
  | repeated (named : c.entityType.name ≠ "") (again : c.entityType ∈ seen) :
      Violates root seen c (.duplicateContained root c.entityType)
  | unlocated (named : c.entityType.name ≠ "") (new : c.entityType ∉ seen)
      (noFields : c.idFields = []) (noReference : c.backReference = none) :
      Violates root seen c (.unresolvableContained root c.entityType)

/-- What is wrong with a root behind those of the types `seen`. Of its contained types the first
that violates a rule counts. -/
inductive RootType.Violates (seen : List EntityType) (r : RootType) : SchemaError → Prop
  | unnamed (unnamed : r.entityType.name = "") : Violates seen r .emptyName
  | repeated (named : r.entityType.name ≠ "") (again : r.entityType ∈ seen) :
      Violates seen r (.duplicateRoot r.entityType)
  | contained {before after : List ContainedType} {c : ContainedType} {e : SchemaError}
      (named : r.entityType.name ≠ "") (new : r.entityType ∉ seen)
      (split : r.contained = before ++ c :: after)
      (earlier : RootType.WellFormed { r with contained := before })
      (violates : c.Violates r.entityType (before.map (·.entityType)) e) : Violates seen r e

namespace Schema

variable {root : EntityType} {seen : List EntityType} {e : SchemaError}

def FirstViolation (roots : List RootType) (e : SchemaError) : Prop :=
  ∃ before r after, roots = before ++ r :: after ∧ WellFormed ⟨before⟩ ∧
    r.Violates (before.map (·.entityType)) e

theorem checkContained_cons (root : EntityType) (seen : List EntityType) (c : ContainedType)
    (cs : List ContainedType) : checkContained root seen (c :: cs) =
      (checkContained root seen [c]).bind fun _ =>
        checkContained root (c.entityType :: seen) cs := by
  rw [checkContained, checkContained]
  split_ifs <;> rfl

theorem checkContained_head_error_iff {c : ContainedType} :
    checkContained root seen [c] = .error e ↔ c.Violates root seen e := by
  rw [checkContained, checkContained]
  by_cases hname : c.entityType.name = ""
  · rw [if_pos (by simp [hname])]
    constructor
    · intro h
      cases h
      exact .unnamed hname
    · intro h
      cases h with
      | unnamed => rfl
      | repeated named | unlocated named => exact absurd hname named
  rw [if_neg (by simpa using hname)]
  by_cases hseen : c.entityType ∈ seen
  · rw [if_pos (List.contains_iff_mem.mpr hseen)]
    constructor
    · intro h
      cases h
      exact .repeated hname hseen
    · intro h
      cases h with
      | unnamed unnamed => exact absurd unnamed hname
      | repeated => rfl
      | unlocated _ new => exact absurd hseen new
  rw [if_neg (mt List.contains_iff_mem.mp hseen)]
  by_cases hlocated : c.idFields = [] ∧ c.backReference = none
  · rw [if_pos (by simp [hlocated])]
    constructor
    · intro h
      cases h
      exact .unlocated hname hseen hlocated.1 hlocated.2
    · intro h
      cases h with
      | unnamed unnamed => exact absurd unnamed hname
      | repeated _ again => exact absurd again hseen
      | unlocated => rfl
  · rw [if_neg (by simpa using hlocated)]
    constructor
    · intro h
      cases h
    · intro h
      cases h with
      | unnamed unnamed => exact absurd unnamed hname
      | repeated _ again => exact absurd again hseen
      | unlocated _ _ noFields noReference => exact absurd ⟨noFields, noReference⟩ hlocated

theorem violates_reverse_iff {c : ContainedType} {types : List EntityType} :
    c.Violates root (types.reverse ++ []) e ↔ c.Violates root types e := by
  constructor <;> intro h <;>
    cases h with
    | unnamed unnamed => exact .unnamed unnamed
    | repeated named again => exact .repeated named (by simpa using again)
    | unlocated named new noFields noReference =>
      exact .unlocated named (by simpa using new) noFields noReference

theorem checkContained_error_iff {r : RootType} :
    checkContained r.entityType [] r.contained = .error e ↔ ∃ before c after,
      r.contained = before ++ c :: after ∧ RootType.WellFormed { r with contained := before } ∧
        c.Violates r.entityType (before.map (·.entityType)) e := by
  have hfirst : checkContained r.entityType [] r.contained = .error e ↔ _ :=
    check_error_iff (fun _ => rfl) (checkContained_cons r.entityType)
  simp only [foldl_seen, checkContained_head_error_iff, violates_reverse_iff] at hfirst
  refine hfirst.trans ?_
  simp only [← checkContained_iff_wellFormed]

theorem checkRoots_cons (seen : List EntityType) (r : RootType) (rs : List RootType) :
    checkRoots seen (r :: rs) =
      (checkRoots seen [r]).bind fun _ => checkRoots (r.entityType :: seen) rs := by
  rw [checkRoots, checkRoots]
  split_ifs
  · rfl
  · rfl
  · cases checkContained r.entityType [] r.contained <;> rfl

theorem checkRoots_head_error_iff {r : RootType} :
    checkRoots seen [r] = .error e ↔ r.Violates seen e := by
  rw [checkRoots]
  by_cases hname : r.entityType.name = ""
  · rw [if_pos (by simp [hname])]
    constructor
    · intro h
      cases h
      exact .unnamed hname
    · intro h
      cases h with
      | unnamed => rfl
      | repeated named | contained named => exact absurd hname named
  rw [if_neg (by simpa using hname)]
  by_cases hseen : r.entityType ∈ seen
  · rw [if_pos (List.contains_iff_mem.mpr hseen)]
    constructor
    · intro h
      cases h
      exact .repeated hname hseen
    · intro h
      cases h with
      | unnamed unnamed => exact absurd unnamed hname
      | repeated => rfl
      | contained _ new => exact absurd hseen new
  rw [if_neg (mt List.contains_iff_mem.mp hseen)]
  have hcontained : (do
      checkContained r.entityType [] r.contained
      checkRoots (r.entityType :: seen) []) = .error e ↔
        checkContained r.entityType [] r.contained = .error e := by
    cases checkContained r.entityType [] r.contained with
    | error e' => exact Iff.rfl
    | ok => constructor <;> intro h <;> cases h
  rw [hcontained, checkContained_error_iff]
  constructor
  · intro h
    obtain ⟨before, c, after, hsplit, hearlier, hviolates⟩ := h
    exact .contained hname hseen hsplit hearlier hviolates
  · intro h
    cases h with
    | unnamed unnamed => exact absurd unnamed hname
    | repeated _ again => exact absurd again hseen
    | contained _ _ split earlier violates => exact ⟨_, _, _, split, earlier, violates⟩

end Schema

theorem RootType.violates_reverse_iff {types : List EntityType} {r : RootType} {e : SchemaError} :
    r.Violates (types.reverse ++ []) e ↔ r.Violates types e := by
  constructor <;> intro h <;>
    cases h with
    | unnamed unnamed => exact .unnamed unnamed
    | repeated named again => exact .repeated named (by simpa using again)
    | contained named new split earlier violates =>
      exact .contained named (by simpa using new) split earlier violates

namespace Schema

variable {roots : List RootType} {e : SchemaError}

theorem checkRoots_iff_wellFormed : checkRoots [] roots = .ok () ↔ WellFormed ⟨roots⟩ := by
  rw [checkRoots_ok_iff]
  constructor
  · intro ⟨hnamed, ⟨hdistinct, _⟩, hcontained⟩
    exact ⟨hnamed, hdistinct, hcontained⟩
  · intro h
    exact ⟨h.named, ⟨h.distinct, fun _ _ => List.not_mem_nil⟩, h.contained⟩

theorem wellFormed_iff : WellFormed ⟨roots⟩ ↔
    (∀ r ∈ roots, r.entityType.name ≠ "") ∧ (roots.map (·.entityType)).Nodup ∧
      ∀ r ∈ roots, (∀ c ∈ r.contained, c.entityType.name ≠ "") ∧
        (r.contained.map (·.entityType)).Nodup ∧
          ∀ c ∈ r.contained, c.idFields ≠ [] ∨ ∃ property, c.backReference = some property := by
  have hname (t : EntityType) : t.name.isEmpty = false ↔ t.name ≠ "" := by simp
  have hlocated (c : ContainedType) : (c.idFields.isEmpty && c.backReference.isNone) = false ↔
      c.idFields ≠ [] ∨ ∃ property, c.backReference = some property := by
    rw [Bool.and_eq_false_iff, List.isEmpty_eq_false_iff, Option.isNone_eq_false_iff,
      Option.isSome_iff_exists]
  constructor
  · intro ⟨hnamed, hdistinct, hcontained⟩
    refine ⟨fun r hr => (hname _).mp (hnamed r hr), hdistinct, fun r hr => ?_⟩
    obtain ⟨hnamed, hdistinct, hall⟩ := hcontained r hr
    exact ⟨fun c hc => (hname _).mp (hnamed c hc), hdistinct,
      fun c hc => (hlocated c).mp (hall c hc)⟩
  · intro ⟨hnamed, hdistinct, hcontained⟩
    refine ⟨fun r hr => (hname _).mpr (hnamed r hr), hdistinct, fun r hr => ?_⟩
    obtain ⟨hnamed, hdistinct, hall⟩ := hcontained r hr
    exact ⟨fun c hc => (hname _).mpr (hnamed c hc), hdistinct,
      fun c hc => (hlocated c).mpr (hall c hc)⟩

theorem ofRoots_ok_iff {s : Schema} : ofRoots roots = .ok s ↔ s.roots = roots ∧ s.WellFormed := by
  rw [ofRoots]
  constructor
  · intro h
    exact wellFormed_of_ofRoots h
  · intro ⟨hroots, h⟩
    subst hroots
    rw [checkRoots_iff_wellFormed.mpr h]
    rfl

theorem ofRoots_error_iff : ofRoots roots = .error e ↔ FirstViolation roots e := by
  have herror : ofRoots roots = .error e ↔ checkRoots [] roots = .error e := by
    rw [ofRoots]
    cases checkRoots [] roots <;> simp [Except.map]
  have hfirst : checkRoots [] roots = .error e ↔ _ :=
    check_error_iff (fun _ => rfl) checkRoots_cons
  simp only [foldl_seen, checkRoots_head_error_iff, RootType.violates_reverse_iff] at hfirst
  rw [herror, hfirst]
  simp only [checkRoots_iff_wellFormed, FirstViolation]

end Schema

end SearchSync
