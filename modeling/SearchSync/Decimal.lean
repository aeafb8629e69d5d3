/-!
# Numbers and their decimal texts

A conversion to a machine word fails where it would wrap. Doubles are exact values: arithmetic
computes a quotient of natural numbers and rounds it once, to the even mantissa in a tie. The
shortest decimal of a double is looked for on grids of one digit, two digits and so on: the first
grid with a point in the interval that rounds to the double decides, and of two points the nearer.
-/

namespace SearchSync.Decimal

def digitChar (d : Nat) : Char := Char.ofNat ('0'.toNat + d)

def digits (n : Nat) : List Char :=
  if n < 10 then [digitChar n] else digits (n / 10) ++ [digitChar (n % 10)]
termination_by n
decreasing_by omega

def natText (n : Nat) : String := String.ofList (digits n)

def intText (n : Int) : String :=
  String.ofList (if n < 0 then '-' :: digits n.natAbs else digits n.natAbs)

def digitValue? (c : Char) : Option Nat :=
  if '0' ≤ c && c ≤ '9' then some (c.toNat - '0'.toNat) else none

/-- The value of a digit string read on from `acc`, or nothing at a character that is no digit. -/
def valueFrom? (acc : Nat) : List Char → Option Nat
  | [] => some acc
  | c :: cs => (digitValue? c).bind fun d => valueFrom? (10 * acc + d) cs

def value? : List Char → Option Nat
  | [] => none
  | cs => valueFrom? 0 cs

def signedValue? : List Char → Option Int
  | '+' :: cs => (value? cs).map Int.ofNat
  | '-' :: cs => (value? cs).map fun n => -Int.ofNat n
  | cs => (value? cs).map Int.ofNat

end SearchSync.Decimal

namespace SearchSync.Bounded

def int64? (n : Int) : Option Int64 :=
  if h : Int64.minValue.toInt ≤ n ∧ n ≤ Int64.maxValue.toInt then
    some (Int64.ofIntLE n h.1 h.2)
  else none

def uint64? : Int → Option UInt64
  | .ofNat n => if h : n < UInt64.size then some (UInt64.ofNatLT n h) else none
  | .negSucc _ => none

def fitsInt32 (n : Int) : Bool :=
  decide (Int32.minValue.toInt ≤ n ∧ n ≤ Int32.maxValue.toInt)

theorem toInt_of_int64? {n : Int} {w : Int64} (h : int64? n = some w) : w.toInt = n := by
  unfold int64? at h
  split at h
  · injection h with h
    rw [← h, Int64.toInt_ofIntLE]
  · cases h

theorem int64?_toInt (w : Int64) : int64? w.toInt = some w := by
  have hrange : Int64.minValue.toInt ≤ w.toInt ∧ w.toInt ≤ Int64.maxValue.toInt :=
    ⟨w.minValue_le_toInt, w.toInt_le⟩
  rw [int64?, dif_pos hrange, Int64.ofIntLE_toInt]

theorem toNat_of_uint64? {n : Int} {w : UInt64} (h : uint64? n = some w) :
    (w.toNat : Int) = n := by
  cases n with
  | ofNat n =>
    rw [uint64?] at h
    split at h
    · injection h with h
      rw [← h, UInt64.toNat_ofNatLT]
      rfl
    · cases h
  | negSucc n => cases h

theorem exists_uint64? {n : Nat} (h : n < UInt64.size) :
    ∃ w, uint64? n = some w ∧ w.toNat = n :=
  ⟨UInt64.ofNatLT n h, dif_pos h, UInt64.toNat_ofNatLT⟩

end SearchSync.Bounded

namespace SearchSync.Decimal

/-- A nonnegative finite double. Normal ones have `2 ^ 52 ≤ mantissa < 2 ^ 53`; below that the
exponent is the least one, `-1074`. -/
structure Magnitude where
  mantissa : Nat
  exponent : Int
  deriving DecidableEq, Repr

namespace Magnitude

def minExponent : Int := -1074

def maxExponent : Int := 971

def leastNormal : Nat := 0x10000000000000

def zero : Magnitude := ⟨0, minExponent⟩

def ratio (x : Magnitude) : Nat × Nat :=
  if 0 ≤ x.exponent then (x.mantissa * Nat.pow 2 x.exponent.toNat, 1)
  else (x.mantissa, Nat.pow 2 (-x.exponent).toNat)

private def shiftRatio (num den : Nat) (e : Int) : Nat × Nat :=
  if 0 ≤ e then (num, den * Nat.pow 2 e.toNat) else (num * Nat.pow 2 (-e).toNat, den)

/-- The natural number nearest to `num / den`; a half goes to the even neighbour. -/
def roundDiv (num den : Nat) : Nat :=
  let q := num / den
  let twice := 2 * (num % den)
  if twice < den then q
  else if den < twice then q + 1
  else if q % 2 = 0 then q else q + 1

private def exponentFor (num den : Nat) : Int :=
  let e : Int := Int.ofNat num.log2 - Int.ofNat den.log2 - 52
  let (a, b) := shiftRatio num den e
  max (if a / b < leastNormal then e - 1 else e) minExponent

def ofRatio? (num den : Nat) : Option Magnitude :=
  if num = 0 then some zero
  else
    let e := exponentFor num den
    let (a, b) := shiftRatio num den e
    let q := roundDiv a b
    let x : Magnitude := if q = 2 * leastNormal then ⟨leastNormal, e + 1⟩ else ⟨q, e⟩
    if maxExponent < x.exponent then none else some x

def mul? (x y : Magnitude) : Option Magnitude :=
  ofRatio? (x.ratio.1 * y.ratio.1) (x.ratio.2 * y.ratio.2)

def div? (x y : Magnitude) : Option Magnitude :=
  ofRatio? (x.ratio.1 * y.ratio.2) (x.ratio.2 * y.ratio.1)

def powerOfTen? (k : Nat) : Option Magnitude := ofRatio? (Nat.pow 10 k) 1

/-- The magnitude that stands for `significand · 10 ^ exponent`. The significand is rounded first,
then multiplied or divided by the rounded power of ten, and rounded again after that. A power
beyond `10 ^ 308` is taken in several steps. Nothing stands for a value out of range. -/
def scale? (x : Magnitude) (exponent : Int) : Option Magnitude :=
  if exponent.natAbs ≤ 308 then do
    let power ← powerOfTen? exponent.natAbs
    if 0 ≤ exponent then x.mul? power else x.div? power
  else if x.mantissa = 0 then some x
  else if 0 ≤ exponent then none
  else do
    let power ← powerOfTen? 308
    (← x.div? power).scale? (exponent + 308)
termination_by exponent.natAbs
decreasing_by omega

def ofDecimal? (significand : Nat) (exponent : Int) : Option Magnitude := do
  (← ofRatio? significand 1).scale? exponent

end Magnitude

structure Binary64 where
  negative : Bool
  magnitude : Magnitude
  deriving DecidableEq, Repr

structure Scientific where
  digits : List Char
  exponent : Int
  deriving DecidableEq, Repr

namespace Shortest

/-- Four times the value and the ends of its rounding interval, over one denominator. -/
structure Interval where
  value : Nat
  low : Nat
  high : Nat
  denominator : Nat
  /-- The ends belong to the interval when the mantissa is even, as a tie rounds to even. -/
  closed : Bool

def interval (x : Magnitude) : Interval :=
  let up := if 0 ≤ x.exponent then Nat.pow 2 x.exponent.toNat else 1
  let down := if 0 ≤ x.exponent then 1 else Nat.pow 2 (-x.exponent).toNat
  let near := x.mantissa = Magnitude.leastNormal ∧ Magnitude.minExponent < x.exponent
  { value := 4 * x.mantissa * up
    low := (4 * x.mantissa - if near then 1 else 2) * up
    high := (4 * x.mantissa + 2) * up
    denominator := 4 * down
    closed := x.mantissa % 2 = 0 }

def leadingZeros (num den : Nat) : Nat → Nat → Nat
  | 0, j => j
  | fuel + 1, j => if den ≤ num * Nat.pow 10 j then j else leadingZeros num den fuel (j + 1)

def decimalExponent (num den : Nat) : Int :=
  if den ≤ num then Int.ofNat ((digits (num / den)).length - 1)
  else -Int.ofNat (leadingZeros num den 400 1)

/-- The decimal with `count` digits that lies in the interval nearest to the value, if one does.
A neighbour with one digit more is a power of ten and moves the exponent up. -/
def candidate? (i : Interval) (exponent : Int) (count : Nat) : Option (Nat × Int) :=
  let grid : Int := exponent - Int.ofNat count + 1
  let widen := if 0 ≤ grid then 1 else Nat.pow 10 (-grid).toNat
  let unit := i.denominator * if 0 ≤ grid then Nat.pow 10 grid.toNat else 1
  let value := i.value * widen
  let below := value / unit
  let above := below + 1
  let inside (c : Nat) : Bool :=
    if i.closed then i.low * widen ≤ c * unit && c * unit ≤ i.high * widen
    else i.low * widen < c * unit && c * unit < i.high * widen
  let toBelow := value - below * unit
  let toAbove := above * unit - value
  if inside below then
    if inside above && (toAbove < toBelow || (toAbove = toBelow && below % 2 = 1)) then
      some (above, grid)
    else some (below, grid)
  else if inside above then some (above, grid)
  else none

def search (i : Interval) (exponent : Int) : Nat → Nat → Nat × Int
  | 0, _ => (0, 0)
  | fuel + 1, count =>
    match candidate? i exponent count with
    | some hit => hit
    | none => search i exponent fuel (count + 1)

end Shortest

def dropZeros (ds : List Char) : List Char := (ds.reverse.dropWhile (· == '0')).reverse

def Magnitude.shortest (x : Magnitude) : Scientific :=
  let (num, den) := x.ratio
  let (value, grid) := Shortest.search (Shortest.interval x) (Shortest.decimalExponent num den) 17 1
  let written := digits value
  { digits := dropZeros written
    exponent := grid + Int.ofNat (written.length - 1) }

end SearchSync.Decimal
