import Mathlib.Algebra.Ring.Nat
import Mathlib.Data.List.Induction
import Mathlib.Data.Nat.Digits.Defs
import Mathlib.Tactic.Ring
import Mathlib.Tactic.SplitIfs
import SearchSync.Decimal
import SearchSync.Entity.Basic
import SearchSync.Text

/-!
# Numerals and spellings of UUIDs

The texts that are read as an integer or as a UUID, told without the reader: digits that denote the
number, behind a sign or cut into groups by hyphens.
-/

namespace SearchSync.Decimal

structure DigitsOf (n : Nat) (cs : List Char) : Prop where
  nonempty : cs ≠ []
  digits : ∀ c ∈ cs, c.isDigit
  value : n = Nat.ofDigits 10 (cs.reverse.map fun c => c.toNat - '0'.toNat)

inductive Numeral : Int → List Char → Prop
  | unsigned {n : Nat} {cs : List Char} (hdigits : DigitsOf n cs) : Numeral n cs
  | plus {n : Nat} {cs : List Char} (hdigits : DigitsOf n cs) : Numeral n ('+' :: cs)
  | minus {n : Nat} {cs : List Char} (hdigits : DigitsOf n cs) : Numeral (-n) ('-' :: cs)

section Digits

variable {c : Char} {d n acc : Nat} {cs : List Char}

theorem digitValue?_eq_some_iff :
    digitValue? c = some d ↔ c.isDigit ∧ d = c.toNat - '0'.toNat := by
  have hdigit : ('0' ≤ c && c ≤ '9') = c.isDigit := rfl
  rw [digitValue?, hdigit, Option.ite_none_right_eq_some, Option.some.injEq, eq_comm (a := d)]

theorem valueFrom?_eq_some_iff : valueFrom? acc cs = some n ↔ (∀ c ∈ cs, c.isDigit) ∧
    n = acc * 10 ^ cs.length + Nat.ofDigits 10 (cs.reverse.map fun c => c.toNat - '0'.toNat) := by
  induction cs generalizing acc with
  | nil =>
    rw [valueFrom?, Option.some.injEq, eq_comm]
    simp
  | cons c cs ih =>
    simp only [valueFrom?, Option.bind_eq_some_iff, digitValue?_eq_some_iff, ih,
      List.forall_mem_cons, List.reverse_cons, List.map_append, List.map_singleton,
      Nat.ofDigits_append, Nat.ofDigits_singleton, List.length_map, List.length_reverse,
      List.length_cons, Nat.pow_succ]
    constructor
    · rintro ⟨d, ⟨hc, rfl⟩, hcs, rfl⟩
      exact ⟨⟨hc, hcs⟩, by ring⟩
    · rintro ⟨⟨hc, hcs⟩, rfl⟩
      exact ⟨_, ⟨hc, rfl⟩, hcs, by ring⟩

theorem value?_eq_some_iff : value? cs = some n ↔ DigitsOf n cs := by
  cases cs with
  | nil =>
    constructor
    · intro h
      cases h
    · intro h
      exact absurd rfl h.nonempty
  | cons c cs =>
    rw [value?, valueFrom?_eq_some_iff, Nat.zero_mul, Nat.zero_add]
    · constructor
      · rintro ⟨hdigits, hvalue⟩
        exact ⟨nofun, hdigits, hvalue⟩
      · intro h
        exact ⟨h.digits, h.value⟩
    · exact nofun

theorem digitsOf_digits (n : Nat) : DigitsOf n (digits n) := by
  have hlow : ∀ d < 10, (digitChar d).isDigit ∧ (digitChar d).toNat - '0'.toNat = d := by decide
  induction n using digits.induct with
  | case1 n hsmall =>
    rw [digits, if_pos hsmall]
    obtain ⟨hdigit, hvalue⟩ := hlow n hsmall
    exact ⟨nofun, List.forall_mem_singleton.mpr hdigit, by simpa using hvalue.symm⟩
  | case2 n hlarge ih =>
    obtain ⟨hdigit, hvalue⟩ := hlow (n % 10) (Nat.mod_lt n (by decide))
    rw [digits, if_neg hlarge]
    refine ⟨by simp, ?_, ?_⟩
    · exact List.forall_mem_append.mpr ⟨ih.digits, List.forall_mem_singleton.mpr hdigit⟩
    rw [List.reverse_append, List.reverse_singleton, List.singleton_append, List.map_cons,
      Nat.ofDigits_cons, hvalue, ← ih.value]
    exact (Nat.mod_add_div n 10).symm

end Digits

section Signs

variable {n : Int} {m : Nat} {c : Char} {cs : List Char}

/-- A digit is no sign, so digits alone are not taken for a text behind a sign. -/
theorem DigitsOf.signedValue?_eq (h : DigitsOf m cs) : signedValue? cs = some (m : Int) := by
  have hsign {c : Char} (hc : c ∈ cs) : c ≠ '+' ∧ c ≠ '-' := by
    have hdigit := h.digits c hc
    constructor <;> rintro rfl <;> cases hdigit
  have hvalue := value?_eq_some_iff.mpr h
  unfold signedValue?
  split
  · exact absurd rfl (hsign List.mem_cons_self).1
  · exact absurd rfl (hsign List.mem_cons_self).2
  · rw [hvalue]
    rfl

theorem signedValue?_eq_some_iff : signedValue? cs = some n ↔ Numeral n cs := by
  constructor
  · intro h
    unfold signedValue? at h
    split at h <;> obtain ⟨m, hm, rfl⟩ := Option.map_eq_some_iff.mp h
    · exact .plus (value?_eq_some_iff.mp hm)
    · exact .minus (value?_eq_some_iff.mp hm)
    · exact .unsigned (value?_eq_some_iff.mp hm)
  · intro h
    cases h with
    | unsigned hdigits => exact hdigits.signedValue?_eq
    | plus hdigits =>
      rw [signedValue?, value?_eq_some_iff.mpr hdigits]
      rfl
    | minus hdigits =>
      rw [signedValue?, value?_eq_some_iff.mpr hdigits]
      rfl

theorem numeral_intText (n : Int) : Numeral n (intText n).toList := by
  have hdigits := digitsOf_digits n.natAbs
  rw [intText, String.toList_ofList]
  split
  · have hminus := Numeral.minus hdigits
    rwa [show -(n.natAbs : Int) = n by omega] at hminus
  · have hunsigned := Numeral.unsigned hdigits
    rwa [show (n.natAbs : Int) = n by omega] at hunsigned

theorem Numeral.nonempty (h : Numeral n cs) : cs ≠ [] := by
  cases h with
  | unsigned hdigits => exact hdigits.nonempty
  | plus => exact nofun
  | minus => exact nofun

theorem Numeral.isBlank_eq_false (h : Numeral n cs) : ∀ c ∈ cs, Text.isBlank c = false := by
  have hdigit {c : Char} (hc : c.isDigit) : Text.isBlank c = false := by
    have hall : ∀ n < 58, (Char.ofNat n).isDigit → Text.isBlank (Char.ofNat n) = false := by decide
    have hlast : c.toNat ≤ 57 := of_decide_eq_true (Bool.and_eq_true_iff.mp hc).2
    have hblank := hall c.toNat (by omega)
    rw [Char.ofNat_toNat] at hblank
    exact hblank hc
  cases h with
  | unsigned hdigits => exact fun c hc => hdigit (hdigits.digits c hc)
  | plus hdigits =>
    exact List.forall_mem_cons.mpr ⟨rfl, fun c hc => hdigit (hdigits.digits c hc)⟩
  | minus hdigits =>
    exact List.forall_mem_cons.mpr ⟨rfl, fun c hc => hdigit (hdigits.digits c hc)⟩

end Signs

end SearchSync.Decimal

namespace SearchSync.Uuid

def DigitsOf (u : Uuid) (cs : List Char) : Prop :=
  cs.map Char.toLower = hexText 32 u.bits.toNat

/-- The text is a spelling of the UUID. -/
inductive Spelling (u : Uuid) : List Char → Prop
  | plain {ds : List Char} (hdigits : u.DigitsOf ds) : Spelling u ds
  | hyphenated {ds : List Char} (hdigits : u.DigitsOf ds) : Spelling u (hyphenate groups ds)
  | braced {ds : List Char} (hdigits : u.DigitsOf ds) :
    Spelling u ('\x7b' :: (hyphenate groups ds ++ ['\x7d']))
  | urn {scheme ds : List Char} (hscheme : scheme.map Char.toLower = urnScheme)
    (hdigits : u.DigitsOf ds) : Spelling u (scheme ++ hyphenate groups ds)

def IsSpelling (s : String) : Prop := ∃ u : Uuid, u.Spelling s.toList

section Digits

variable {c : Char} {d n : Nat} {cs : List Char} {u : Uuid}

theorem hexDigit?_hexChar (h : d < 16) : Text.hexDigit? (hexChar d) = some d := by
  have hall : ∀ d < 16, Text.hexDigit? (hexChar d) = some d := by decide
  exact hall d h

theorem toNat_lt_of_hexDigit? (h : Text.hexDigit? c = some d) : c.toNat < 128 := by
  have hto {a : Char} (hc : c ≤ a) : c.toNat ≤ a.toNat := hc
  unfold Text.hexDigit? at h
  simp only [Bool.and_eq_true, decide_eq_true_eq] at h
  split_ifs at h with hdigit hlower hupper
  · exact Nat.lt_of_le_of_lt (hto hdigit.2) (by decide)
  · exact Nat.lt_of_le_of_lt (hto hlower.2) (by decide)
  · exact Nat.lt_of_le_of_lt (hto hupper.2) (by decide)

theorem toLower_of_large (h : 128 ≤ c.toNat) : c.toLower = c := by
  unfold Char.toLower
  rw [dif_neg]
  rintro ⟨-, hlast⟩
  have hlast : c.toNat ≤ 90 := hlast
  omega

theorem hexDigit?_eq_some_iff :
    Text.hexDigit? c = some d ↔ d < 16 ∧ c.toLower = hexChar d := by
  constructor
  · intro h
    have hall : ∀ n < 128, ∀ d ∈ Text.hexDigit? (Char.ofNat n),
        d < 16 ∧ (Char.ofNat n).toLower = hexChar d := by decide
    have hc := hall c.toNat (toNat_lt_of_hexDigit? h) d
    rw [Char.ofNat_toNat] at hc
    exact hc h
  · rintro ⟨hd, hc⟩
    have hsmall : c.toNat < 128 := by
      by_contra hlarge
      have hsmall : ∀ d < 16, (hexChar d).toNat < 128 := by decide
      have hd := hsmall d hd
      rw [toLower_of_large (by omega)] at hc
      rw [← hc] at hd
      exact hlarge hd
    have hall : ∀ n < 128,
        Text.hexDigit? (Char.ofNat n).toLower = Text.hexDigit? (Char.ofNat n) := by
      decide
    have hlower := hall c.toNat hsmall
    rw [Char.ofNat_toNat, hc, hexDigit?_hexChar hd] at hlower
    exact hlower.symm

theorem length_hexText (width n : Nat) : (hexText width n).length = width := by
  induction width generalizing n with
  | zero => rfl
  | succ width ih => simp [hexText, ih]

theorem hexFrom?_concat {acc : Nat} : hexFrom? acc (cs ++ [c]) = some n ↔
    ∃ m d, hexFrom? acc cs = some m ∧ Text.hexDigit? c = some d ∧ 16 * m + d = n := by
  induction cs generalizing acc with
  | nil => simp [hexFrom?, Option.bind_eq_some_iff]
  | cons b cs ih =>
    simp only [List.cons_append, hexFrom?, Option.bind_eq_some_iff, ih]
    constructor
    · rintro ⟨e, he, m, d, hm, hd, heq⟩
      exact ⟨m, d, ⟨e, he, hm⟩, hd, heq⟩
    · rintro ⟨m, d, ⟨e, he, hm⟩, hd, heq⟩
      exact ⟨e, he, m, d, hm, hd, heq⟩

theorem hexFrom?_eq_some_iff : hexFrom? 0 cs = some n ↔
    n < 16 ^ cs.length ∧ cs.map Char.toLower = hexText cs.length n := by
  induction cs using List.reverseRecOn generalizing n with
  | nil => simp [hexFrom?, hexText, eq_comm]
  | append_singleton cs c ih =>
    rw [hexFrom?_concat, List.map_append, List.length_append, List.length_singleton, hexText,
      Nat.pow_succ]
    constructor
    · rintro ⟨m, d, hm, hd, rfl⟩
      obtain ⟨hbound, hfront⟩ := ih.mp hm
      obtain ⟨hd, hlast⟩ := hexDigit?_eq_some_iff.mp hd
      have hm : (16 * m + d) / 16 = m := by omega
      have hd : (16 * m + d) % 16 = d := by omega
      rw [hm, hd, hfront, List.map_singleton, hlast]
      exact ⟨by omega, rfl⟩
    · rintro ⟨hbound, heq⟩
      obtain ⟨hfront, hlast⟩ := List.append_inj' heq rfl
      refine ⟨n / 16, n % 16, ih.mpr ⟨by omega, hfront⟩, hexDigit?_eq_some_iff.mpr ?_,
        Nat.div_add_mod n 16⟩
      exact ⟨Nat.mod_lt n (by decide), List.singleton_inj.mp hlast⟩

theorem DigitsOf.length (h : u.DigitsOf cs) : cs.length = 32 := by
  rw [← List.length_map Char.toLower, h, length_hexText]

theorem ofHex?_eq_some_iff : ofHex? cs = some u ↔ u.DigitsOf cs := by
  have hbits : u.bits.toNat < 16 ^ 32 := u.bits.isLt
  unfold ofHex?
  constructor
  · intro h
    split_ifs at h with hlength
    obtain ⟨n, hn, rfl⟩ := Option.map_eq_some_iff.mp h
    obtain ⟨hbound, hdigits⟩ := hexFrom?_eq_some_iff.mp hn
    rw [hlength] at hbound hdigits
    have hbound : n < 2 ^ 128 := hbound
    rw [DigitsOf, BitVec.toNat_ofNat, Nat.mod_eq_of_lt hbound, hdigits]
  · intro h
    have hread : hexFrom? 0 cs = some u.bits.toNat := by
      rw [hexFrom?_eq_some_iff, h.length]
      exact ⟨hbits, h⟩
    rw [if_pos h.length, hread, Option.map_some, BitVec.ofNat_toNat, BitVec.setWidth_eq]

theorem map_toLower_hexText (width n : Nat) :
    (hexText width n).map Char.toLower = hexText width n := by
  induction width generalizing n with
  | zero => rfl
  | succ width ih =>
    have hlast := hexDigit?_hexChar (Nat.mod_lt n (by decide : 0 < 16))
    rw [hexText, List.map_append, ih, List.map_singleton, (hexDigit?_eq_some_iff.mp hlast).2]

end Digits

section Hyphens

variable {lengths : List Nat} {cs ds : List Char} {u : Uuid}

theorem joinGroups?_hyphenate (h : ds.length = lengths.sum) :
    joinGroups? lengths (hyphenate lengths ds) = some ds := by
  induction lengths, ds using hyphenate.induct with
  | case1 ds =>
    obtain rfl : ds = [] := by simpa using h
    rfl
  | case2 n ds =>
    obtain rfl : ds.length = n := by simpa using h
    simp [hyphenate, joinGroups?]
  | case3 n rest ds hrest ih =>
    rw [List.sum_cons] at h
    have hfront : (ds.take n).length = n := by
      rw [List.length_take]
      omega
    have hback : (ds.drop n).length = rest.sum := by
      rw [List.length_drop]
      omega
    have hcut : (ds.take n ++ '-' :: hyphenate rest (ds.drop n)).drop n =
        '-' :: hyphenate rest (ds.drop n) := by
      rw [List.drop_left' hfront]
    rw [hyphenate, joinGroups?, hcut]
    · simp only [ih hback, Option.map_some]
      rw [List.take_left' hfront, List.take_append_drop]
    · exact hrest
    · exact hrest

theorem hyphenate_of_joinGroups? (h : joinGroups? lengths cs = some ds) :
    hyphenate lengths ds = cs := by
  induction lengths, cs using joinGroups?.induct generalizing ds with
  | case1 cs hempty =>
    rw [List.isEmpty_iff] at hempty
    exact hempty.symm
  | case2 cs hempty =>
    rw [joinGroups?, if_neg hempty] at h
    cases h
  | case3 cs =>
    rw [joinGroups?, if_pos rfl] at h
    obtain rfl := Option.some.inj h
    rw [hyphenate, List.take_length]
  | case4 n cs hlength =>
    rw [joinGroups?, if_neg hlength] at h
    cases h
  | case5 n rest cs hrest cs' hcut ih =>
    rw [joinGroups?, hcut] at h
    · obtain ⟨ds', hds', rfl⟩ := Option.map_eq_some_iff.mp h
      have hfront : (cs.take n).length = n := by
        have hleft := congrArg List.length hcut
        rw [List.length_drop, List.length_cons] at hleft
        rw [List.length_take]
        omega
      rw [hyphenate]
      · rw [List.take_left' hfront, List.drop_left' hfront, ih hds', ← hcut,
          List.take_append_drop]
      · exact hrest
    · exact hrest
  | case6 n rest cs hrest hcut =>
    rw [joinGroups?] at h
    · split at h
      · rename_i hyphen
        exact absurd hyphen (hcut _)
      · cases h
    · exact hrest

theorem length_hyphenate (hlengths : lengths ≠ []) (h : ds.length = lengths.sum) :
    (hyphenate lengths ds).length + 1 = lengths.sum + lengths.length := by
  induction lengths, ds using hyphenate.induct with
  | case1 ds => exact absurd rfl hlengths
  | case2 n ds =>
    obtain rfl : ds.length = n := by simpa using h
    simp [hyphenate]
  | case3 n rest ds hrest ih =>
    rw [List.sum_cons] at h
    have hback : (ds.drop n).length = rest.sum := by
      rw [List.length_drop]
      omega
    have hlength := ih hrest hback
    rw [hyphenate]
    · simp only [List.length_append, List.length_take, List.length_cons, List.sum_cons]
      omega
    · exact hrest

theorem DigitsOf.length_hyphenate (h : u.DigitsOf ds) : (hyphenate groups ds).length = 36 := by
  have hsum : ds.length = groups.sum := h.length
  have hlength : (hyphenate groups ds).length + 1 = 32 + 5 := Uuid.length_hyphenate (by decide) hsum
  omega

theorem ofHyphenated?_eq_some_iff :
    ofHyphenated? cs = some u ↔ ∃ ds, u.DigitsOf ds ∧ hyphenate groups ds = cs := by
  rw [ofHyphenated?, Option.bind_eq_some_iff]
  constructor
  · rintro ⟨ds, hds, hread⟩
    exact ⟨ds, ofHex?_eq_some_iff.mp hread, hyphenate_of_joinGroups? hds⟩
  · rintro ⟨ds, hdigits, rfl⟩
    exact ⟨ds, joinGroups?_hyphenate hdigits.length, ofHex?_eq_some_iff.mpr hdigits⟩

end Hyphens

section Frames

variable {cs inner : List Char}

theorem inBraces?_eq_some_iff :
    inBraces? cs = some inner ↔ '\x7b' :: (inner ++ ['\x7d']) = cs := by
  unfold inBraces?
  split
  · rename_i rest
    rw [Option.ite_none_right_eq_some, Option.some.injEq, List.cons.injEq,
      List.getLast?_eq_some_iff]
    constructor
    · rintro ⟨⟨ys, rfl⟩, rfl⟩
      simp
    · rintro ⟨-, rfl⟩
      simp
  · rename_i hbrace
    simp only [reduceCtorEq, false_iff]
    intro h
    exact hbrace _ h.symm

theorem inUrn?_eq_some_iff : inUrn? cs = some inner ↔
    ∃ scheme, scheme.map Char.toLower = urnScheme ∧ scheme ++ inner = cs := by
  rw [inUrn?, Option.ite_none_right_eq_some, Option.some.injEq]
  constructor
  · rintro ⟨hscheme, rfl⟩
    exact ⟨_, hscheme, List.take_append_drop _ _⟩
  · rintro ⟨scheme, hscheme, rfl⟩
    have hlength : scheme.length = urnScheme.length := by
      rw [← hscheme, List.length_map]
    rw [List.take_left' hlength, List.drop_left' hlength]
    exact ⟨hscheme, rfl⟩

end Frames

section Readings

variable {cs : List Char} {u : Uuid}

theorem length_of_ofHex? (h : ofHex? cs = some u) : cs.length = 32 :=
  (ofHex?_eq_some_iff.mp h).length

theorem length_of_ofHyphenated? (h : ofHyphenated? cs = some u) : cs.length = 36 := by
  obtain ⟨ds, hdigits, rfl⟩ := ofHyphenated?_eq_some_iff.mp h
  exact hdigits.length_hyphenate

theorem length_of_inBraces? (h : (inBraces? cs).bind ofHyphenated? = some u) :
    cs.length = 38 := by
  obtain ⟨inner, hinner, hread⟩ := Option.bind_eq_some_iff.mp h
  obtain rfl := inBraces?_eq_some_iff.mp hinner
  simp [length_of_ofHyphenated? hread]

theorem read?_eq_some_iff {s : String} : read? s = some u ↔ u.Spelling s.toList := by
  -- The four forms differ in length, so a text of one form is not read in the form before it.
  have hnone {o : Option Uuid} {n : Nat} (ho : ∀ v, o = some v → s.toList.length = n)
      (hlength : s.toList.length ≠ n) : o = none :=
    Option.eq_none_iff_forall_ne_some.mpr fun v hv => hlength (ho v hv)
  simp only [read?, Option.or_eq_some_iff]
  generalize s.toList = cs at hnone ⊢
  constructor
  · rintro (h | ⟨-, h | ⟨-, h | ⟨-, h⟩⟩⟩)
    · exact .plain (ofHex?_eq_some_iff.mp h)
    · obtain ⟨ds, hdigits, rfl⟩ := ofHyphenated?_eq_some_iff.mp h
      exact .hyphenated hdigits
    · obtain ⟨inner, hinner, hread⟩ := Option.bind_eq_some_iff.mp h
      obtain ⟨ds, hdigits, rfl⟩ := ofHyphenated?_eq_some_iff.mp hread
      obtain rfl := inBraces?_eq_some_iff.mp hinner
      exact .braced hdigits
    · obtain ⟨inner, hinner, hread⟩ := Option.bind_eq_some_iff.mp h
      obtain ⟨ds, hdigits, rfl⟩ := ofHyphenated?_eq_some_iff.mp hread
      obtain ⟨scheme, hscheme, rfl⟩ := inUrn?_eq_some_iff.mp hinner
      exact .urn hscheme hdigits
  · intro h
    cases h with
    | plain hdigits => exact .inl (ofHex?_eq_some_iff.mpr hdigits)
    | hyphenated hdigits =>
      have hlength := hdigits.length_hyphenate
      refine .inr ⟨hnone (fun _ => length_of_ofHex?) (by omega), .inl ?_⟩
      exact ofHyphenated?_eq_some_iff.mpr ⟨_, hdigits, rfl⟩
    | @braced ds hdigits =>
      have hlength : ('\x7b' :: (hyphenate groups ds ++ ['\x7d'])).length = 38 := by
        simp [hdigits.length_hyphenate]
      refine .inr ⟨hnone (fun _ => length_of_ofHex?) (by omega),
        .inr ⟨hnone (fun _ => length_of_ofHyphenated?) (by omega), .inl ?_⟩⟩
      rw [inBraces?_eq_some_iff.mpr rfl, Option.bind_some, ofHyphenated?_eq_some_iff]
      exact ⟨ds, hdigits, rfl⟩
    | @urn scheme ds hscheme hdigits =>
      have hscheme' : scheme.length = 9 := by
        rw [← List.length_map Char.toLower, hscheme]
        rfl
      have hlength : (scheme ++ hyphenate groups ds).length = 45 := by
        rw [List.length_append, hscheme', hdigits.length_hyphenate]
      refine .inr ⟨hnone (fun _ => length_of_ofHex?) (by omega),
        .inr ⟨hnone (fun _ => length_of_ofHyphenated?) (by omega),
          .inr ⟨hnone (fun _ => length_of_inBraces?) (by omega), ?_⟩⟩⟩
      rw [inUrn?_eq_some_iff.mpr ⟨scheme, hscheme, rfl⟩, Option.bind_some,
        ofHyphenated?_eq_some_iff]
      exact ⟨ds, hdigits, rfl⟩

end Readings

theorem read?_eq_none_iff {s : String} : read? s = none ↔ ¬IsSpelling s := by
  rw [Option.eq_none_iff_forall_ne_some]
  simp only [ne_eq, read?_eq_some_iff, IsSpelling, not_exists]

instance (s : String) : Decidable (IsSpelling s) :=
  decidable_of_iff (read? s ≠ none) (by rw [ne_eq, read?_eq_none_iff, not_not])

theorem read?_text (u : Uuid) : read? u.text = some u := by
  rw [read?_eq_some_iff, text, String.toList_ofList]
  exact .hyphenated (map_toLower_hexText 32 _)

end SearchSync.Uuid
