import SearchSync.Proofs.Schema.WellFormed
import SearchSync.Schema.Basic

/-!
# The views of a schema

Containment, embeddings and relevant types are computed from the declarations by loops of their own.
In a well-formed schema they describe one relation between roots and types.
-/

namespace SearchSync

theorem mem_of_lookup {α β : Type} [BEq α] [LawfulBEq α] {entries : List (α × β)} {a : α} {b : β}
    (h : entries.lookup a = some b) : (a, b) ∈ entries := by
  obtain ⟨before, after, rfl, -⟩ := List.lookup_eq_some_iff.mp h
  exact List.mem_append_right before List.mem_cons_self

def RootType.Contains (r : RootType) (type : EntityType) : Prop :=
  type ∈ r.contained.map (·.entityType)

instance (r : RootType) (type : EntityType) : Decidable (r.Contains type) :=
  inferInstanceAs (Decidable (type ∈ r.contained.map (·.entityType)))

namespace Containment

def noted (root : EntityType) (roots : List EntityType) : List EntityType :=
  if root ∈ roots then roots else roots ++ [root]

theorem noted_ne_nil (root : EntityType) (roots : List EntityType) : noted root roots ≠ [] := by
  unfold noted
  split
  · rename_i h
    exact List.ne_nil_of_mem h
  · simp

theorem noted_noted (root : EntityType) (roots : List EntityType) :
    noted root (noted root roots) = noted root roots := by
  by_cases h : root ∈ roots <;> simp [noted, h]

theorem lookup_add (type root t : EntityType) (entries : List (EntityType × List EntityType)) :
    (add type root entries).lookup t =
      if t = type then some (noted root ((entries.lookup t).getD [])) else entries.lookup t := by
  induction entries with
  | nil =>
    by_cases ht : t = type
    · simp [add, noted, ht]
    · simp [add, List.lookup_cons, beq_false_of_ne ht, ht]
  | cons entry entries ih =>
    obtain ⟨t', roots⟩ := entry
    unfold add
    by_cases ht' : t' = type
    · subst t'
      rw [if_pos rfl]
      by_cases ht : t = type
      · simp [noted, ht]
      · simp [List.lookup_cons, beq_false_of_ne ht, ht]
    · rw [if_neg ht', List.lookup_cons, List.lookup_cons, ih]
      by_cases htt' : t = t'
      · simp [htt', ht']
      · simp [beq_false_of_ne htt']

theorem lookup_foldl_own (rs : List RootType) (t : EntityType)
    {entries : List (EntityType × List EntityType)}
    (h : entries.lookup t = none ∨ entries.lookup t = some [t]) :
    (rs.foldl (fun acc r => add r.entityType r.entityType acc) entries).lookup t =
      if t ∈ rs.map (·.entityType) then some [t] else entries.lookup t := by
  induction rs generalizing entries with
  | nil => rfl
  | cons r rs ih =>
    have hadd := lookup_add r.entityType r.entityType t entries
    rw [List.foldl_cons, List.map_cons]
    by_cases ht : t = r.entityType
    · subst t
      have hown : (add r.entityType r.entityType entries).lookup r.entityType =
          some [r.entityType] := by
        rw [hadd, if_pos rfl]
        rcases h with h | h <;> simp [h, noted]
      rw [ih (Or.inr hown), hown, if_pos List.mem_cons_self, ite_self]
    · rw [if_neg ht] at hadd
      rw [ih (by rwa [hadd]), hadd]
      simp [ht]

theorem lookup_foldl_contained (root t : EntityType) (cs : List ContainedType)
    (entries : List (EntityType × List EntityType)) :
    (cs.foldl (fun acc c => add c.entityType root acc) entries).lookup t =
      if t ∈ cs.map (·.entityType) then some (noted root ((entries.lookup t).getD []))
      else entries.lookup t := by
  induction cs generalizing entries with
  | nil => rfl
  | cons c cs ih =>
    rw [List.foldl_cons, ih, lookup_add, List.map_cons]
    by_cases ht : t = c.entityType
    · subst t
      simp [noted_noted]
    · simp [ht]

theorem lookup_foldl_roots {rs : List RootType} (hrs : (rs.map (·.entityType)).Nodup)
    (t : EntityType) {entries : List (EntityType × List EntityType)} {roots : List EntityType}
    (h : entries.lookup t = if roots = [] then none else some roots) :
    (rs.foldl (fun acc r => r.contained.foldl (fun acc c => add c.entityType r.entityType acc) acc)
      entries).lookup t =
      let all := roots ++
        (rs.filter fun r => r.Contains t ∧ r.entityType ∉ roots).map (·.entityType)
      if all = [] then none else some all := by
  induction rs generalizing entries roots with
  | nil => simpa using h
  | cons r rs ih =>
    obtain ⟨hnew, hrest⟩ := List.nodup_cons.mp hrs
    have hroots : (entries.lookup t).getD [] = roots := by
      rw [h]
      by_cases hnil : roots = [] <;> simp [hnil]
    have hstep : (r.contained.foldl (fun acc c => add c.entityType r.entityType acc)
        entries).lookup t =
        if r.Contains t then some (noted r.entityType roots) else entries.lookup t := by
      rw [← hroots]
      exact lookup_foldl_contained r.entityType t r.contained entries
    rw [List.foldl_cons]
    by_cases hc : r.Contains t
    · rw [if_pos hc] at hstep
      rw [ih hrest (hstep.trans (if_neg (noted_ne_nil _ _)).symm)]
      by_cases hmem : r.entityType ∈ roots
      · simp [noted, hmem, hc]
      · -- The root is new, and no later one has its type.
        have hsame : (rs.filter fun r' => r'.Contains t ∧ r'.entityType ∉ roots ++ [r.entityType]) =
            rs.filter fun r' => r'.Contains t ∧ r'.entityType ∉ roots := by
          apply List.filter_congr
          intro r' hr'
          have hne : r'.entityType ≠ r.entityType :=
            fun heq => hnew (List.mem_map.mpr ⟨r', hr', heq⟩)
          simp [hne]
        simp only [noted, if_neg hmem, hsame]
        simp [hmem, hc]
    · rw [if_neg hc, h] at hstep
      rw [ih hrest hstep]
      simp [hc]

end Containment

namespace Schema

/-- The roots whose documents hold a type, as they are declared. -/
def holders (s : Schema) (type : EntityType) : List EntityType :=
  (if type ∈ s.rootTypes then [type] else []) ++
    (s.roots.filter fun r => r.Contains type ∧ r.entityType ≠ type).map (·.entityType)

variable {s : Schema}

theorem WellFormed.rootsFor_eq (h : s.WellFormed) (type : EntityType) :
    s.containment.rootsFor type =
      if s.holders type = [] then none else some (s.holders type) := by
  have hown := Containment.lookup_foldl_own s.roots type (Or.inl (List.lookup_nil))
  have hstart : (s.roots.foldl (fun acc r => Containment.add r.entityType r.entityType acc)
      []).lookup type =
      let own := if type ∈ s.rootTypes then [type] else []
      if own = [] then none else some own := by
    rw [hown]
    by_cases ht : type ∈ s.rootTypes
    · simp [ht, show type ∈ s.roots.map (·.entityType) from ht]
    · simp [ht, show type ∉ s.roots.map (·.entityType) from ht]
  refine (Containment.lookup_foldl_roots h.distinct type hstart).trans ?_
  have hothers : (s.roots.filter fun r => r.Contains type ∧
      r.entityType ∉ if type ∈ s.rootTypes then [type] else []) =
      s.roots.filter fun r => r.Contains type ∧ r.entityType ≠ type := by
    apply List.filter_congr
    intro r hr
    by_cases ht : type ∈ s.rootTypes
    · simp [ht]
    · have hne : r.entityType ≠ type := fun heq => ht (List.mem_map.mpr ⟨r, hr, heq⟩)
      simp [ht, hne]
  rw [hothers]
  rfl

theorem mem_holders {root type : EntityType} :
    root ∈ s.holders type ↔
      ∃ r ∈ s.roots, r.entityType = root ∧ (root = type ∨ r.Contains type) := by
  unfold holders
  rw [List.mem_append, List.mem_ite_nil_right, List.mem_singleton, List.mem_map]
  constructor
  · rintro (⟨hmem, rfl⟩ | ⟨r, hr, rfl⟩)
    · obtain ⟨r, hr, hroot⟩ := List.mem_map.mp hmem
      exact ⟨r, hr, hroot, Or.inl rfl⟩
    · obtain ⟨hr, hc⟩ := List.mem_filter.mp hr
      exact ⟨r, hr, rfl, Or.inr (of_decide_eq_true hc).1⟩
  · rintro ⟨r, hr, rfl, hor⟩
    by_cases ht : r.entityType = type
    · exact Or.inl ⟨ht ▸ List.mem_map_of_mem hr, ht⟩
    · refine Or.inr ⟨r, List.mem_filter.mpr ⟨hr, ?_⟩, rfl⟩
      exact decide_eq_true ⟨hor.resolve_left ht, ht⟩

theorem holders_subset (s : Schema) (type : EntityType) : s.holders type ⊆ s.rootTypes := by
  intro root hroot
  obtain ⟨r, hr, rfl, -⟩ := mem_holders.mp hroot
  exact List.mem_map_of_mem hr

theorem WellFormed.holders_nodup (h : s.WellFormed) (type : EntityType) :
    (s.holders type).Nodup := by
  have hothers : ((s.roots.filter fun r => r.Contains type ∧ r.entityType ≠ type).map
      (·.entityType)).Nodup := h.distinct.sublist (List.filter_sublist.map _)
  unfold holders
  by_cases ht : type ∈ s.rootTypes
  · rw [if_pos ht, List.singleton_append, List.nodup_cons, List.mem_map]
    refine ⟨?_, hothers⟩
    rintro ⟨r, hr, heq⟩
    exact (of_decide_eq_true (List.mem_filter.mp hr).2).2 heq
  · rw [if_neg ht, List.nil_append]
    exact hothers

theorem WellFormed.lookup_embeddings (h : s.WellFormed) {r : RootType} (hr : r ∈ s.roots) :
    s.embeddings.lookup r.entityType = some (.ofRoot r) := by
  have hdistinct := h.distinct
  unfold embeddings
  unfold rootTypes at hdistinct
  generalize s.roots = rs at hr hdistinct ⊢
  induction rs with
  | nil => cases hr
  | cons r' rest ih =>
    obtain ⟨hnew, hrest⟩ := List.nodup_cons.mp hdistinct
    rw [List.map_cons, List.lookup_cons]
    rcases List.mem_cons.mp hr with rfl | hr
    · simp
    · have hne : r.entityType ≠ r'.entityType :=
        fun heq => hnew (List.mem_map.mpr ⟨r, hr, heq⟩)
      rw [beq_false_of_ne hne]
      exact ih hr hrest

theorem isSome_lookup_embeddings {root : EntityType} :
    (s.embeddings.lookup root).isSome ↔ root ∈ s.rootTypes := by
  rw [List.lookup_isSome_iff, embeddings, rootTypes, List.mem_map]
  constructor
  · rintro ⟨entry, hentry, heq⟩
    obtain ⟨r, hr, rfl⟩ := List.mem_map.mp hentry
    exact ⟨r, hr, (eq_of_beq heq).symm⟩
  · rintro ⟨r, hr, rfl⟩
    exact ⟨_, List.mem_map_of_mem hr, beq_self_eq_true _⟩

theorem root_of_lookup_embeddings {root : EntityType} {e : Embedding}
    (h : s.embeddings.lookup root = some e) :
    ∃ r ∈ s.roots, r.entityType = root ∧ e = .ofRoot r := by
  obtain ⟨r, hr, heq⟩ := List.mem_map.mp (mem_of_lookup h)
  obtain ⟨htype, hembedding⟩ := Prod.mk.inj heq
  exact ⟨r, hr, htype, hembedding.symm⟩

end Schema

namespace Embedding

variable {r : RootType} {type : EntityType}

theorem exists_of_backReference? {property : String}
    (h : (ofRoot r).backReference? type = some property) :
    ∃ t ∈ r.contained, t.entityType = type ∧ t.backReference = some property := by
  obtain ⟨t, ht, hentry⟩ := List.mem_filterMap.mp (mem_of_lookup h)
  obtain ⟨_, hreference, heq⟩ := Option.map_eq_some_iff.mp hentry
  obtain ⟨rfl, rfl⟩ := Prod.mk.inj heq
  exact ⟨t, ht, rfl, hreference⟩

theorem unreferred_of_backReference? (h : (ofRoot r).backReference? type = none) :
    ∀ t ∈ r.contained, t.entityType = type → t.backReference = none := by
  rintro t ht rfl
  by_contra hreference
  obtain ⟨property, hproperty⟩ := Option.ne_none_iff_exists'.mp hreference
  have hentry : (t.entityType, property) ∈ (ofRoot r).backReferenceByType := by
    refine List.mem_filterMap.mpr ⟨t, ht, ?_⟩
    rw [hproperty]
    rfl
  exact bne_iff_ne.mp (List.lookup_eq_none_iff.mp h _ hentry) rfl

theorem exists_of_idFields {field : String} {fields : List String}
    (h : (ofRoot r).idFields type = field :: fields) :
    ∃ t ∈ r.contained, t.entityType = type ∧ t.idFields = field :: fields := by
  unfold idFields at h
  cases hlookup : (ofRoot r).idFieldsByType.lookup type with
  | none =>
    rw [hlookup] at h
    cases h
  | some found =>
    rw [hlookup] at h
    obtain ⟨t, ht, hentry⟩ := List.mem_map.mp (mem_of_lookup hlookup)
    obtain ⟨rfl, rfl⟩ := Prod.mk.inj hentry
    exact ⟨t, (List.mem_filter.mp ht).1, rfl, h⟩

end Embedding

theorem RootType.WellFormed.embeds_iff {r : RootType} (h : r.WellFormed) (type : EntityType) :
    (Embedding.ofRoot r).embeds type = true ↔ r.Contains type := by
  unfold Embedding.embeds Embedding.ofRoot RootType.Contains
  rw [Bool.or_eq_true, List.lookup_isSome_iff, List.lookup_isSome_iff, List.mem_map]
  constructor
  · rintro (⟨entry, hentry, heq⟩ | ⟨entry, hentry, heq⟩)
    · obtain ⟨c, hc, rfl⟩ := List.mem_map.mp hentry
      exact ⟨c, (List.mem_filter.mp hc).1, (eq_of_beq heq).symm⟩
    · obtain ⟨c, hc, hreference⟩ := List.mem_filterMap.mp hentry
      obtain ⟨b, -, rfl⟩ := Option.map_eq_some_iff.mp hreference
      exact ⟨c, hc, (eq_of_beq heq).symm⟩
  · rintro ⟨c, hc, rfl⟩
    cases hfields : c.idFields.isEmpty with
    | false =>
      left
      refine ⟨_, List.mem_map_of_mem (List.mem_filter.mpr ⟨hc, ?_⟩), beq_self_eq_true _⟩
      rw [hfields]
      rfl
    | true =>
      right
      have hlocated := h.located c hc
      rw [hfields, Bool.true_and] at hlocated
      cases hb : c.backReference with
      | none =>
        rw [hb] at hlocated
        cases hlocated
      | some b =>
        refine ⟨(c.entityType, b), List.mem_filterMap.mpr ⟨c, hc, ?_⟩, beq_self_eq_true _⟩
        rw [hb]
        rfl

namespace Schema

variable {s : Schema} {type : EntityType}

theorem mem_insertType {t : EntityType} {types : List EntityType} :
    t ∈ insertType type types ↔ t = type ∨ t ∈ types := by
  induction types with
  | nil => simp [insertType]
  | cons u types ih =>
    unfold insertType
    split
    · simp
    · split
      · rename_i heq
        subst u
        simp
      · simp [ih]
        tauto

theorem mem_foldl_insertType {t : EntityType} (types acc : List EntityType) :
    t ∈ types.foldl (fun acc t => insertType t acc) acc ↔ t ∈ types ∨ t ∈ acc := by
  induction types generalizing acc with
  | nil => simp
  | cons u types ih =>
    rw [List.foldl_cons, ih, mem_insertType, List.mem_cons]
    tauto

theorem mem_relevantTypes :
    type ∈ s.relevantTypes ↔ ∃ r ∈ s.roots, type = r.entityType ∨ r.Contains type := by
  unfold relevantTypes mentionedTypes
  simp [mem_foldl_insertType, RootType.Contains, List.mem_flatMap]

theorem holders_ne_nil_iff : s.holders type ≠ [] ↔ type ∈ s.relevantTypes := by
  rw [mem_relevantTypes]
  constructor
  · intro hne
    obtain ⟨root, hroot⟩ := List.exists_mem_of_ne_nil _ hne
    obtain ⟨r, hr, rfl, htype⟩ := mem_holders.mp hroot
    exact ⟨r, hr, htype.imp_left Eq.symm⟩
  · rintro ⟨r, hr, htype⟩
    exact List.ne_nil_of_mem (mem_holders.mpr ⟨r, hr, rfl, htype.imp_left Eq.symm⟩)

theorem WellFormed.rootsFor_eq_none_iff (h : s.WellFormed) :
    s.containment.rootsFor type = none ↔ type ∉ s.relevantTypes := by
  rw [h.rootsFor_eq, ← holders_ne_nil_iff]
  by_cases hnil : s.holders type = [] <;> simp [hnil]

end Schema

section Ways

variable {β : Type} {r : RootType} {t : ContainedType}

theorem lookup_filterMap_contained {cs : List ContainedType} (f : ContainedType → Option β)
    (hdistinct : (cs.map (·.entityType)).Nodup) (ht : t ∈ cs) :
    (cs.filterMap fun c => (f c).map fun b => (c.entityType, b)).lookup t.entityType = f t := by
  induction cs with
  | nil => cases ht
  | cons c cs ih =>
    rw [List.map_cons, List.nodup_cons] at hdistinct
    obtain ⟨hnew, hdistinct⟩ := hdistinct
    rcases List.mem_cons.mp ht with rfl | ht
    · cases hf : f t with
      | some b => simp [hf]
      | none =>
        -- No later type has the name, so nothing is listed under it.
        rw [List.filterMap_cons_none (by simp [hf]), List.lookup_eq_none_iff]
        intro entry hentry
        obtain ⟨c, hc, hlisted⟩ := List.mem_filterMap.mp hentry
        obtain ⟨b, -, rfl⟩ := Option.map_eq_some_iff.mp hlisted
        rw [bne_iff_ne]
        intro hsame
        exact hnew (hsame ▸ List.mem_map_of_mem hc)
    · have hne : t.entityType ≠ c.entityType := by
        intro hsame
        exact hnew (hsame ▸ List.mem_map_of_mem ht)
      cases hf : f c with
      | none => simpa [hf] using ih hdistinct ht
      | some b => simpa [hf, List.lookup_cons, beq_false_of_ne hne] using ih hdistinct ht

def ContainedType.idFields? (t : ContainedType) : Option (List String) :=
  if t.idFields.isEmpty then none else some t.idFields

theorem idFieldsByType_ofRoot (r : RootType) :
    (Embedding.ofRoot r).idFieldsByType =
      r.contained.filterMap fun c => c.idFields?.map fun fs => (c.entityType, fs) := by
  unfold Embedding.ofRoot ContainedType.idFields?
  induction r.contained with
  | nil => rfl
  | cons c cs ih => cases hempty : c.idFields.isEmpty <;> simp_all

theorem RootType.WellFormed.backReference?_eq (h : r.WellFormed) (ht : t ∈ r.contained) :
    (Embedding.ofRoot r).backReference? t.entityType = t.backReference :=
  lookup_filterMap_contained ContainedType.backReference h.distinct ht

theorem RootType.WellFormed.idFields_eq (h : r.WellFormed) (ht : t ∈ r.contained) :
    (Embedding.ofRoot r).idFields t.entityType = t.idFields := by
  unfold Embedding.idFields
  rw [idFieldsByType_ofRoot, lookup_filterMap_contained ContainedType.idFields? h.distinct ht]
  unfold ContainedType.idFields?
  cases t.idFields <;> rfl

theorem RootType.WellFormed.findable (h : r.WellFormed) (ht : t ∈ r.contained) :
    t.idFields ≠ [] ∨ t.backReference.isSome := by
  have hlocated := h.located t ht
  cases hfields : t.idFields with
  | cons field fields => exact Or.inl (List.cons_ne_nil field fields)
  | nil =>
    right
    cases hreference : t.backReference with
    | some property => rfl
    | none => simp [hfields, hreference] at hlocated

end Ways

namespace Schema

/-- The views of a schema describe one relation. -/
structure ViewsAgree (s : Schema) : Prop where
  held_iff_relevant : ∀ type, (s.containment.rootsFor type).isSome ↔ type ∈ s.relevantTypes
  holder_iff_embeds : ∀ root e, s.embeddings.lookup root = some e → ∀ type,
    root ∈ (s.containment.rootsFor type).getD [] ↔ type = root ∨ e.embeds type = true
  keys : s.embeddings.map Prod.fst = s.rootTypes ∧ s.rootTypes.Nodup
  root_eq_key : ∀ entry ∈ s.embeddings, entry.2.root = entry.1
  /-- The type itself stands first if it is a root, and then the others as they are declared. -/
  ordered : ∀ type holders, s.containment.rootsFor type = some holders → holders.Nodup ∧
    ∃ others, others.Sublist s.rootTypes ∧
      holders = if type ∈ s.rootTypes then type :: others else others
  declared : ∀ r ∈ s.roots, ∀ e, s.embeddings.lookup r.entityType = some e →
    (∀ type, e.embeds type = true ↔ r.Contains type) ∧
      ∀ t ∈ r.contained, e.idFields t.entityType = t.idFields ∧
        e.backReference? t.entityType = t.backReference ∧
          (e.idFields t.entityType ≠ [] ∨ (e.backReference? t.entityType).isSome)

variable {s : Schema}

theorem WellFormed.embeds_iff (h : s.WellFormed) {root type : EntityType} {e : Embedding}
    (he : s.embeddings.lookup root = some e) :
    e.embeds type = true ↔ ∃ r ∈ s.roots, r.entityType = root ∧ r.Contains type := by
  obtain ⟨r, hr, rfl, rfl⟩ := root_of_lookup_embeddings he
  rw [(h.contained r hr).embeds_iff]
  constructor
  · intro hcontains
    exact ⟨r, hr, rfl, hcontains⟩
  · rintro ⟨r', hr', hsame, hcontains⟩
    obtain rfl : r' = r := List.inj_on_of_nodup_map h.distinct hr' hr hsame
    exact hcontains

theorem WellFormed.mem_holders_iff (h : s.WellFormed) {root type : EntityType} {e : Embedding}
    (he : s.embeddings.lookup root = some e) :
    root ∈ s.holders type ↔ type = root ∨ e.embeds type = true := by
  rw [mem_holders, h.embeds_iff he]
  constructor
  · rintro ⟨r, hr, rfl, rfl | hcontains⟩
    · exact Or.inl rfl
    · exact Or.inr ⟨r, hr, rfl, hcontains⟩
  · rintro (rfl | ⟨r, hr, rfl, hcontains⟩)
    · obtain ⟨r, hr, htype, -⟩ := root_of_lookup_embeddings he
      exact ⟨r, hr, htype, Or.inl rfl⟩
    · exact ⟨r, hr, rfl, Or.inr hcontains⟩

theorem WellFormed.viewsAgree (h : s.WellFormed) : s.ViewsAgree where
  held_iff_relevant type := by
    rw [Option.isSome_iff_ne_none, ne_eq, h.rootsFor_eq_none_iff, not_not]
  holder_iff_embeds root e he type := by
    rw [← h.mem_holders_iff he, h.rootsFor_eq]
    by_cases hnil : s.holders type = [] <;> simp [hnil]
  keys := by
    constructor
    · simp [embeddings, rootTypes, Function.comp_def]
    · exact h.distinct
  root_eq_key entry hentry := by
    obtain ⟨r, -, rfl⟩ := List.mem_map.mp hentry
    rfl
  ordered type holders hholders := by
    have heq : s.holders type = holders := by
      rw [h.rootsFor_eq] at hholders
      by_cases hnil : s.holders type = [] <;> simp_all
    subst heq
    refine ⟨h.holders_nodup type, (s.roots.filter fun r => r.Contains type ∧
      r.entityType ≠ type).map (·.entityType), List.filter_sublist.map _, ?_⟩
    unfold holders
    split <;> rfl
  declared r hr e he := by
    rw [h.lookup_embeddings hr] at he
    cases he
    have hr := h.contained r hr
    refine ⟨hr.embeds_iff, fun t ht => ?_⟩
    rw [hr.idFields_eq ht, hr.backReference?_eq ht]
    exact ⟨rfl, rfl, hr.findable ht⟩

end Schema

end SearchSync
