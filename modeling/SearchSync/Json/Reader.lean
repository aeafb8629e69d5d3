import SearchSync.Decimal
import SearchSync.Json.Basic
import SearchSync.Text

/-!
Reading JSON text. A number without fraction and exponent that fits a 64-bit word is an integer,
any other number a double. Digits that no longer fit a 64-bit significand are dropped, so a long
decimal is not always the nearest double.
-/

namespace SearchSync.Json

open Decimal

def isSpace (c : Char) : Bool := c = ' ' || c = '\t' || c = '\n' || c = '\r'

def skipSpace (cs : List Char) : List Char := cs.dropWhile isSpace

structure Literal where
  negative : Bool
  whole : List Char
  fraction : Option (List Char)
  exponent : Option Int

/-- Extends a significand by digits as long as it stays below `2 ^ 64`, and returns what is left. -/
def absorb (significand : Nat) : List Char → Nat × List Char
  | [] => (significand, [])
  | c :: cs =>
    let next := 10 * significand + (digitValue? c).getD 0
    if next < UInt64.size then absorb next cs else (significand, c :: cs)

def Literal.value? (l : Literal) : Option Number :=
  let (whole, dropped) := absorb 0 l.whole
  let double? (significand : Nat) (exponent : Int) : Option Number :=
    (Magnitude.ofDecimal? significand exponent).map fun m => .double ⟨l.negative, m⟩
  if l.fraction.isNone && l.exponent.isNone && dropped.isEmpty then
    if !l.negative then some (.integer whole)
    else if whole ≠ 0 && (Bounded.int64? (-Int.ofNat whole)).isSome then
      some (.integer (-Int.ofNat whole))
    else double? whole 0
  else
    let fraction := l.fraction.getD []
    let (significand, ignored) := absorb whole fraction
    let taken := fraction.length - ignored.length
    double? significand (l.exponent.getD 0 + Int.ofNat dropped.length - Int.ofNat taken)

def readDigits (cs : List Char) : List Char × List Char :=
  cs.span fun c => (digitValue? c).isSome

def readExponent (cs : List Char) : Option (Option Int × List Char) :=
  match cs with
  | 'e' :: rest | 'E' :: rest =>
    let (negative, rest) := match rest with
      | '-' :: r => (true, r)
      | '+' :: r => (false, r)
      | r => (false, r)
    let (ds, rest) := readDigits rest
    (value? ds).map fun n => (some (if negative then -Int.ofNat n else Int.ofNat n), rest)
  | _ => some (none, cs)

def readNumber (cs : List Char) : Option (Number × List Char) := do
  let (negative, rest) := match cs with
    | '-' :: r => (true, r)
    | r => (false, r)
  let (whole, rest) ← match rest with
    | '0' :: r => some (['0'], r)
    | r => match readDigits r with
      | ([], _) => none
      | (ds, r) => some (ds, r)
  let (fraction, rest) ← match rest with
    | '.' :: r => match readDigits r with
      | ([], _) => none
      | (ds, r) => some (some ds, r)
    | r => some (none, r)
  let (exponent, rest) ← readExponent rest
  let number ← (Literal.mk negative whole fraction exponent).value?
  return (number, rest)

def unit? (a b c d : Char) : Option Nat := do
  return ((← Text.hexDigit? a) * 16 + (← Text.hexDigit? b)) * 256 + (← Text.hexDigit? c) * 16 +
    (← Text.hexDigit? d)

/-- The rest of a string behind its opening quotation mark. A character above `U+FFFF` may be
written as two escaped UTF-16 units; a unit of a pair that stands alone is refused. -/
def readString (acc : List Char) : List Char → Option (String × List Char)
  | '"' :: rest => some (String.ofList acc.reverse, rest)
  | '\\' :: 'u' :: a :: b :: c :: d :: '\\' :: 'u' :: a' :: b' :: c' :: d' :: rest => do
    let high ← unit? a b c d
    if 0xD800 ≤ high ∧ high < 0xDC00 then
      let low ← unit? a' b' c' d'
      if 0xDC00 ≤ low ∧ low < 0xE000 then
        readString (Char.ofNat (0x10000 + (high - 0xD800) * 0x400 + (low - 0xDC00)) :: acc) rest
      else none
    else if 0xDC00 ≤ high ∧ high < 0xE000 then none
    else readString (Char.ofNat high :: acc) ('\\' :: 'u' :: a' :: b' :: c' :: d' :: rest)
  | '\\' :: 'u' :: a :: b :: c :: d :: rest => do
    let unit ← unit? a b c d
    if 0xD800 ≤ unit ∧ unit < 0xE000 then none else readString (Char.ofNat unit :: acc) rest
  | '\\' :: c :: rest =>
    match c with
    | '"' => readString ('"' :: acc) rest
    | '\\' => readString ('\\' :: acc) rest
    | '/' => readString ('/' :: acc) rest
    | 'b' => readString ('\x08' :: acc) rest
    | 'f' => readString ('\x0c' :: acc) rest
    | 'n' => readString ('\n' :: acc) rest
    | 'r' => readString ('\r' :: acc) rest
    | 't' => readString ('\t' :: acc) rest
    | _ => none
  | c :: rest => if c.toNat < 0x20 then none else readString (c :: acc) rest
  | [] => none

def expect (word : List Char) (cs : List Char) : Option (List Char) :=
  if word.isPrefixOf cs then some (cs.drop word.length) else none

mutual

/-- A value at the head of the text. The first argument bounds the number of nested calls. -/
def readValue : Nat → List Char → Option (Json × List Char)
  | 0, _ => none
  | fuel + 1, cs =>
    match skipSpace cs with
    | '"' :: rest => (readString [] rest).map fun (s, r) => (.string s, r)
    | '[' :: rest =>
      match skipSpace rest with
      | ']' :: r => some (.array [], r)
      | r => (readItems fuel r).map fun (items, r) => (.array items, r)
    | '\x7b' :: rest =>
      match skipSpace rest with
      | '\x7d' :: r => some (.object [], r)
      | r => (readMembers fuel r).map fun (members, r) => (ofMembers members, r)
    | 't' :: rest => (expect ['r', 'u', 'e'] rest).map fun r => (.bool true, r)
    | 'f' :: rest => (expect ['a', 'l', 's', 'e'] rest).map fun r => (.bool false, r)
    | 'n' :: rest => (expect ['u', 'l', 'l'] rest).map fun r => (.null, r)
    | cs => (readNumber cs).map fun (n, r) => (.number n, r)

def readItems : Nat → List Char → Option (List Json × List Char)
  | 0, _ => none
  | fuel + 1, cs => do
    let (item, rest) ← readValue fuel cs
    match skipSpace rest with
    | ',' :: r =>
      let (items, r) ← readItems fuel r
      return (item :: items, r)
    | ']' :: r => return ([item], r)
    | _ => none

def readMembers : Nat → List Char → Option (List (String × Json) × List Char)
  | 0, _ => none
  | fuel + 1, cs => do
    let '"' :: rest := skipSpace cs | none
    let (name, rest) ← readString [] rest
    let ':' :: rest := skipSpace rest | none
    let (value, rest) ← readValue fuel rest
    match skipSpace rest with
    | ',' :: r =>
      let (members, r) ← readMembers fuel r
      return ((name, value) :: members, r)
    | '\x7d' :: r => return ([(name, value)], r)
    | _ => none

end

def read? (text : String) : Option Json :=
  let cs := text.toList
  match readValue (2 * cs.length + 2) cs with
  | some (value, rest) => if (skipSpace rest).isEmpty then some value else none
  | none => none

end SearchSync.Json
