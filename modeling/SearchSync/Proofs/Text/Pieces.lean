import Mathlib.Algebra.Group.Nat.Defs
import Mathlib.Data.List.Basic
import Mathlib.Data.List.DropRight
import Mathlib.Data.List.TakeWhile
import Mathlib.Data.Nat.Basic
import Mathlib.Tactic.SplitIfs
import SearchSync.Text

/-!
# Texts cut into pieces

A text is trimmed of white space at its ends, or cut at every occurrence of a separator, from the
left. Joined pieces come back if none of them makes an occurrence with what follows it. Texts are
ordered by code points, which is the order of their bytes in UTF-8.
-/

namespace SearchSync

section Cuts

variable {α : Type} {p : α → Bool} {a : α} {before after : List α}

theorem drop_length_takeWhile (xs : List α) : xs.drop (xs.takeWhile p).length = xs.dropWhile p := by
  have h : (xs.takeWhile p ++ xs.dropWhile p).drop (xs.takeWhile p).length = xs.dropWhile p :=
    List.drop_left
  rwa [List.takeWhile_append_dropWhile] at h

theorem takeWhile_append_cons (h : p a = false) :
    (before ++ a :: after).takeWhile p = before.takeWhile p := by
  induction before with
  | nil => simp [h]
  | cons b before ih => simp only [List.cons_append, List.takeWhile_cons, ih]

theorem dropWhile_append_cons (h : p a = false) :
    (before ++ a :: after).dropWhile p = before.dropWhile p ++ a :: after := by
  induction before with
  | nil => simp [h]
  | cons b before ih =>
    simp only [List.cons_append, List.dropWhile_cons, ih]
    split <;> rfl

theorem rdropWhile_append_cons (h : p a = false) :
    (before ++ a :: after).rdropWhile p = before ++ a :: after.rdropWhile p := by
  simp only [List.rdropWhile, List.reverse_append, List.reverse_cons, List.append_assoc,
    List.singleton_append, dropWhile_append_cons h, List.reverse_reverse]

variable [DecidableEq α]

theorem takeWhile_ne (h : a ∉ before) : (before ++ a :: after).takeWhile (· ≠ a) = before := by
  rw [takeWhile_append_cons (by simp), List.takeWhile_eq_self_iff]
  intro b hb
  exact decide_eq_true fun heq => h (heq ▸ hb)

theorem dropWhile_ne (h : a ∉ before) : (before ++ a :: after).dropWhile (· ≠ a) = a :: after := by
  rw [dropWhile_append_cons (by simp), List.dropWhile_eq_nil_iff.mpr, List.nil_append]
  intro b hb
  exact decide_eq_true fun heq => h (heq ▸ hb)

end Cuts

namespace Text

variable {cs core : List Char}

theorem trim_append_append {before after : List Char} (h : ∀ c ∈ before ++ after, isBlank c)
    (hcore : ∀ c ∈ core, isBlank c = false) (hne : core ≠ []) :
    trim (before ++ core ++ after) = core := by
  obtain ⟨hbefore, hafter⟩ := List.forall_mem_append.mp h
  have hfront : (core ++ after).dropWhile isBlank = core ++ after := by
    obtain ⟨c, rest, rfl⟩ := List.exists_cons_of_ne_nil hne
    have hc := hcore c List.mem_cons_self
    rw [List.cons_append, List.dropWhile_cons_of_neg (by simp [hc])]
  have hback : (core ++ after).rdropWhile isBlank = core := by
    obtain rfl | ⟨rest, c, rfl⟩ := core.eq_nil_or_concat'
    · exact absurd rfl hne
    · have hc := hcore c (by simp)
      rw [List.append_assoc, List.singleton_append, rdropWhile_append_cons hc,
        List.rdropWhile_eq_nil_iff.mpr hafter]
  change ((before ++ core ++ after).dropWhile isBlank).rdropWhile isBlank = core
  rw [List.append_assoc, List.dropWhile_append_of_pos hbefore, hfront, hback]

theorem trim_eq_iff (hcore : ∀ c ∈ core, isBlank c = false) (hne : core ≠ []) : trim cs = core ↔
    ∃ before after, (∀ c ∈ before ++ after, isBlank c) ∧ cs = before ++ core ++ after := by
  constructor
  · rintro rfl
    refine ⟨cs.takeWhile isBlank, (cs.dropWhile isBlank).rtakeWhile isBlank, ?_, ?_⟩
    · refine List.forall_mem_append.mpr ⟨fun c hc => ?_, fun c hc => ?_⟩
      · exact List.mem_takeWhile_imp hc
      · exact List.mem_rtakeWhile_imp hc
    · have hback : trim cs ++ (cs.dropWhile isBlank).rtakeWhile isBlank = cs.dropWhile isBlank :=
        List.rdropWhile_append_rtakeWhile
      rw [List.append_assoc, hback, List.takeWhile_append_dropWhile]
  · rintro ⟨before, after, h, rfl⟩
    exact trim_append_append h hcore hne

end Text

end SearchSync

namespace SearchSync.Text

/-- The pieces of a text between the occurrences of a separator, from the left, where the first
`skip` characters belong to an occurrence before. -/
def piecesFrom (sep : List Char) : Nat → List Char → List (List Char)
  | _, [] => [[]]
  | skip + 1, _ :: text => piecesFrom sep skip text
  | 0, c :: text =>
    if sep.isPrefixOf (c :: text) then [] :: piecesFrom sep (sep.length - 1) text
    else (piecesFrom sep 0 text).modifyHead (c :: ·)

def pieces (sep text : String) : List String :=
  (piecesFrom sep.toList 0 text.toList).map String.ofList

/-- No occurrence of the separator begins inside a text, even if the separator follows it. -/
def Uncut (sep piece : List Char) : Prop := ¬sep <:+: piece ++ sep.dropLast

section Pieces

variable {sep piece text : List Char}

theorem Uncut.tail {c : Char} (h : Uncut sep (c :: piece)) : Uncut sep piece :=
  fun hin => h (hin.trans (List.suffix_cons c _).isInfix)

theorem uncut_pair {a b : Char} (ha : a ∉ piece) : Uncut [a, b] piece := by
  rintro ⟨before, after, h⟩
  have hlength := congrArg List.length h
  have hat := congrArg (·[before.length]?) h
  simp only [List.dropLast_cons_cons, List.dropLast_singleton, List.length_append, List.length_cons,
    List.length_nil] at hlength
  have hinside : before.length < piece.length := by omega
  simp only [List.dropLast_cons_cons, List.dropLast_singleton, List.append_assoc,
    List.getElem?_append_left hinside, List.getElem?_append_right (Nat.le_refl _)] at hat
  exact ha (List.mem_of_getElem? (hat.symm.trans (by simp)))

theorem not_prefix_of_uncut {c : Char} (h : Uncut sep (c :: piece)) (hsep : sep ≠ [])
    (htext : text = [] ∨ ∃ more, text = sep ++ more) : ¬sep <+: c :: piece ++ text := by
  intro hstart
  apply h
  rcases htext with rfl | ⟨more, rfl⟩
  · rw [List.append_nil] at hstart
    exact (hstart.trans (List.prefix_append _ _)).isInfix
  · have hshort : (c :: piece ++ sep.dropLast) <+: c :: piece ++ (sep ++ more) := by
      rw [List.prefix_append_right_inj]
      exact (List.dropLast_prefix sep).trans (List.prefix_append sep more)
    refine (List.prefix_of_prefix_length_le hstart hshort ?_).isInfix
    simp only [List.length_append, List.length_cons, List.length_dropLast]
    have := List.length_pos_iff.mpr hsep
    omega

theorem piecesFrom_uncut (h : Uncut sep piece) (hsep : sep ≠ [])
    (htext : text = [] ∨ ∃ more, text = sep ++ more) :
    piecesFrom sep 0 (piece ++ text) = (piecesFrom sep 0 text).modifyHead (piece ++ ·) := by
  induction piece with
  | nil => cases hrest : piecesFrom sep 0 text <;> simp [hrest]
  | cons c piece ih =>
    have hnone := not_prefix_of_uncut h hsep htext
    rw [← List.isPrefixOf_iff_prefix, List.cons_append] at hnone
    rw [List.cons_append, piecesFrom, if_neg hnone, ih h.tail, List.modifyHead_modifyHead]
    rfl

theorem piecesFrom_skip (passed : List Char) :
    piecesFrom sep passed.length (passed ++ text) = piecesFrom sep 0 text := by
  induction passed with
  | nil => rfl
  | cons c passed ih => exact ih

theorem piecesFrom_sep (hsep : sep ≠ []) :
    piecesFrom sep 0 (sep ++ text) = [] :: piecesFrom sep 0 text := by
  obtain ⟨c, rest, rfl⟩ := List.exists_cons_of_ne_nil hsep
  rw [List.cons_append, piecesFrom, if_pos]
  · exact congrArg _ (piecesFrom_skip rest)
  · rw [List.isPrefixOf_iff_prefix, ← List.cons_append]
    exact List.prefix_append _ _

theorem piecesFrom_intercalate (hsep : sep ≠ []) {parts : List (List Char)} (hne : parts ≠ [])
    (h : ∀ p ∈ parts, Uncut sep p) : piecesFrom sep 0 (sep.intercalate parts) = parts := by
  induction parts with
  | nil => exact absurd rfl hne
  | cons p parts ih =>
    obtain ⟨hp, hparts⟩ := List.forall_mem_cons.mp h
    cases parts with
    | nil =>
      have hlast := piecesFrom_uncut hp hsep (Or.inl (Eq.refl []))
      rw [List.append_nil] at hlast
      rw [List.intercalate_singleton, hlast, piecesFrom, List.modifyHead_cons, List.append_nil]
    | cons q parts =>
      rw [List.intercalate_cons_cons, List.append_assoc,
        piecesFrom_uncut hp hsep (Or.inr ⟨_, rfl⟩), piecesFrom_sep hsep, ih nofun hparts,
        List.modifyHead_cons, List.append_nil]

end Pieces

theorem pieces_intercalate {sep : String} (hsep : sep.toList ≠ []) {parts : List String}
    (hne : parts ≠ []) (h : ∀ p ∈ parts, Uncut sep.toList p.toList) :
    pieces sep (sep.intercalate parts) = parts := by
  rw [pieces, String.toList_intercalate, piecesFrom_intercalate hsep (by simpa using hne)
    (by simpa using h), List.map_map]
  simp [Function.comp_def]

end SearchSync.Text

namespace SearchSync

section Words

def bigEndian : Nat → Nat → List UInt8
  | 0, _ => []
  | width + 1, n => UInt8.ofNat (n / 256 ^ width) :: bigEndian width (n % 256 ^ width)

theorem ofNat_lt_ofNat {m n : Nat} (hm : m < 256) (hn : n < 256) :
    UInt8.ofNat m < UInt8.ofNat n ↔ m < n := by
  rw [UInt8.lt_iff_toNat_lt, UInt8.toNat_ofNat_of_lt' hm, UInt8.toNat_ofNat_of_lt' hn]

theorem ofNat_eq_ofNat {m n : Nat} (hm : m < 256) (hn : n < 256) :
    UInt8.ofNat m = UInt8.ofNat n ↔ m = n := by
  rw [← UInt8.toNat_inj, UInt8.toNat_ofNat_of_lt' hm, UInt8.toNat_ofNat_of_lt' hn]

theorem lt_iff_div_mod {k : Nat} (m n : Nat) :
    m < n ↔ m / k < n / k ∨ m / k = n / k ∧ m % k < n % k := by
  have hm := Nat.div_add_mod m k
  have hn := Nat.div_add_mod n k
  constructor
  · intro h
    rcases Nat.lt_or_eq_of_le (Nat.div_le_div_right (Nat.le_of_lt h) : m / k ≤ n / k) with h' | h'
    · exact Or.inl h'
    · rw [h'] at hm
      exact Or.inr ⟨h', by omega⟩
  · intro h
    rcases h with h | ⟨h, h'⟩
    · exact Nat.lt_of_div_lt_div h
    · rw [h] at hm
      omega

theorem bigEndian_lt_iff {width m n : Nat} (hm : m < 256 ^ width) (hn : n < 256 ^ width) :
    bigEndian width m < bigEndian width n ↔ m < n := by
  induction width generalizing m n with
  | zero =>
    have hm : m < 1 := hm
    have hn : n < 1 := hn
    simp only [bigEndian, List.not_lt_nil, false_iff]
    omega
  | succ width ih =>
    have hpos : 0 < 256 ^ width := Nat.pow_pos (by omega)
    have hdiv {k : Nat} (hk : k < 256 ^ (width + 1)) : k / 256 ^ width < 256 := by
      rw [Nat.div_lt_iff_lt_mul hpos, Nat.mul_comm]
      exact hk
    rw [bigEndian, bigEndian, List.cons_lt_cons_iff, ofNat_lt_ofNat (hdiv hm) (hdiv hn),
      ofNat_eq_ofNat (hdiv hm) (hdiv hn), ih (Nat.mod_lt m hpos) (Nat.mod_lt n hpos)]
    exact (lt_iff_div_mod m n).symm

end Words

namespace Text

def bytes (s : String) : List UInt8 := s.toUTF8.data.toList

theorem bytes_ofList (cs : List Char) :
    bytes (String.ofList cs) = cs.flatMap String.utf8EncodeChar := by
  simp [bytes, List.utf8Encode]

/-- The order of numbers by their last three digits to the base 64 and what is before these. -/
theorem lt_iff_digits (m n : Nat) : m < n ↔ m / 262144 < n / 262144 ∨
    m / 262144 = n / 262144 ∧ (m / 4096 % 64 < n / 4096 % 64 ∨
      m / 4096 % 64 = n / 4096 % 64 ∧ (m / 64 % 64 < n / 64 % 64 ∨
        m / 64 % 64 = n / 64 % 64 ∧ m % 64 < n % 64)) := by
  have hhigh (k : Nat) : k % 262144 / 4096 = k / 4096 % 64 := by omega
  have hmiddle (k : Nat) : k % 262144 % 4096 / 64 = k / 64 % 64 := by omega
  have hlow (k : Nat) : k % 262144 % 4096 % 64 = k % 64 := by omega
  rw [lt_iff_div_mod (k := 262144) m n, lt_iff_div_mod (k := 4096) (m % 262144),
    lt_iff_div_mod (k := 64) (m % 262144 % 4096)]
  simp only [hhigh, hmiddle, hlow]

theorem utf8EncodeChar_lt {c d : Char} (h : c < d) (xs ys : List UInt8) :
    String.utf8EncodeChar c ++ xs < String.utf8EncodeChar d ++ ys := by
  have hlt : c.val.toNat < d.val.toNat := h
  have hd : d.val.toNat < 0x110000 := by
    have hvalid := d.valid
    simp only [UInt32.isValidChar, Nat.isValidChar] at hvalid
    omega
  have hdigits := (lt_iff_digits _ _).mp hlt
  -- An encoding of more bytes begins with a greater one.
  simp only [String.utf8EncodeChar]
  split_ifs <;>
    first
    | omega
    | simp (disch := omega) only [List.cons_append, List.nil_append, List.cons_lt_cons_iff,
        ofNat_lt_ofNat, ofNat_eq_ofNat, Nat.mod_eq_of_lt]
      omega

theorem flatMap_utf8EncodeChar_lt {cs ds : List Char} (h : cs < ds) :
    cs.flatMap String.utf8EncodeChar < ds.flatMap String.utf8EncodeChar := by
  induction h with
  | nil =>
    rw [List.flatMap_nil, List.flatMap_cons]
    obtain ⟨b, bs, hbytes⟩ := List.exists_cons_of_ne_nil String.utf8EncodeChar_ne_nil
    rw [hbytes, List.cons_append]
    exact List.nil_lt_cons b _
  | rel h =>
    rw [List.flatMap_cons, List.flatMap_cons]
    exact utf8EncodeChar_lt h _ _
  | cons _ ih =>
    rw [List.flatMap_cons, List.flatMap_cons]
    exact List.append_left_lt ih

theorem bytes_lt_iff {s t : String} : bytes s < bytes t ↔ s < t := by
  have hlt {s t : String} (h : s < t) : bytes s < bytes t := by
    rw [← s.ofList_toList, ← t.ofList_toList, bytes_ofList, bytes_ofList]
    exact flatMap_utf8EncodeChar_lt h
  refine ⟨fun h => ?_, hlt⟩
  by_contra hnot
  rcases Std.lt_trichotomy s t with hst | rfl | hts
  · exact hnot hst
  · exact List.lt_irrefl _ h
  · exact List.lt_asymm h (hlt hts)

end Text

end SearchSync
