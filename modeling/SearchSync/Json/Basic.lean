import SearchSync.Decimal
import SearchSync.NameMap
import SearchSync.Text

/-!
# JSON values

An integer and a double are different numbers even where they are equal in value, and the members
of an object stand in ascending order of their names. Members are decoded in that order and the
first bad one decides; only then are missing fields reported, in the order in which the record
declares them. An array in place of an object gives the fields by position.
-/

namespace SearchSync

/-- A JSON number. Integers are those of a signed or an unsigned 64-bit word. -/
inductive Json.Number
  | integer (value : Int)
  | double (value : Decimal.Binary64)
  deriving DecidableEq, Repr

inductive Json
  | null
  | bool (value : Bool)
  | number (value : Json.Number)
  | string (value : String)
  | array (items : List Json)
  | object (members : List (String × Json))
  deriving Repr

namespace Json

def ofInt (n : Int) : Json := .number (.integer n)

def ofNat (n : Nat) : Json := ofInt (Int.ofNat n)

def ofMembers (members : List (String × Json)) : Json :=
  .object (members.foldl (fun acc m => insertEntry m.1 m.2 acc) [])

def ofStrings (texts : List String) : Json := .array (texts.map .string)

def member? (j : Json) (name : String) : Option Json :=
  match j with
  | .object members => members.lookup name
  | _ => none

def isNull : Json → Bool
  | .null => true
  | _ => false

end Json

end SearchSync

namespace SearchSync.Json

open Decimal

/-- The text of a positive magnitude in scientific form. Positional notation, with at least one
digit on either side of the point, from `10 ^ -5` up to below `10 ^ 16`; otherwise an exponent
with an explicit sign. -/
def scientificText (x : Scientific) : List Char :=
  if 0 ≤ x.exponent ∧ x.exponent < 16 then
    let whole := x.exponent.toNat + 1
    let fraction := x.digits.drop whole
    x.digits.take whole ++ List.replicate (whole - x.digits.length) '0' ++
      '.' :: (if fraction.isEmpty then ['0'] else fraction)
  else if -5 ≤ x.exponent ∧ x.exponent < 0 then
    '0' :: '.' :: (List.replicate (x.exponent.natAbs - 1) '0' ++ x.digits)
  else
    let fraction := x.digits.drop 1
    x.digits.take 1 ++ (if fraction.isEmpty then [] else '.' :: fraction) ++
      'e' :: (if x.exponent < 0 then '-' else '+') :: digits x.exponent.natAbs

def doubleText (x : Binary64) : String :=
  let unsigned := if x.magnitude.mantissa = 0 then ['0', '.', '0']
    else scientificText x.magnitude.shortest
  String.ofList (if x.negative then '-' :: unsigned else unsigned)

def Number.text : Number → String
  | .integer n => intText n
  | .double x => doubleText x

def hexDigitChar (d : Nat) : Char :=
  Char.ofNat (if d < 10 then '0'.toNat + d else 'a'.toNat + (d - 10))

def escape (c : Char) : List Char :=
  if c = '"' then ['\\', '"']
  else if c = '\\' then ['\\', '\\']
  else if c = '\x08' then ['\\', 'b']
  else if c = '\t' then ['\\', 't']
  else if c = '\n' then ['\\', 'n']
  else if c = '\x0c' then ['\\', 'f']
  else if c = '\r' then ['\\', 'r']
  else if c.toNat < 0x20 then
    ['\\', 'u', '0', '0', hexDigitChar (c.toNat / 16), hexDigitChar (c.toNat % 16)]
  else [c]

def quote (s : String) : String :=
  "\"" ++ String.ofList (s.toList.flatMap escape) ++ "\""

mutual

def text : Json → String
  | .null => "null"
  | .bool true => "true"
  | .bool false => "false"
  | .number n => n.text
  | .string s => quote s
  | .array items => "[" ++ itemsText items ++ "]"
  | .object members => "\x7b" ++ membersText members ++ "\x7d"

def itemsText : List Json → String
  | [] => ""
  | [item] => item.text
  | item :: rest => item.text ++ "," ++ itemsText rest

def membersText : List (String × Json) → String
  | [] => ""
  | [(name, value)] => quote name ++ ":" ++ value.text
  | (name, value) :: rest => quote name ++ ":" ++ value.text ++ "," ++ membersText rest

end

inductive DecodeError
  | invalidType (found : Json) (expected : String)
  | invalidValue (found : Json) (expected : String)
  | invalidLength (length : Nat) (expected : String)
  | unknownVariant (name : String) (variants : List String)
  | missingField (name : String)
  /-- The value fits no alternative of a type that is told by its form alone. -/
  | noAlternative (type : String)
  | refused (reason : String)

def kindText : Json → String
  | .null => "null"
  | .bool true => "boolean `true`"
  | .bool false => "boolean `false`"
  | .number (.integer n) => "integer `" ++ Decimal.intText n ++ "`"
  | .number (.double x) => "floating point `" ++ doubleText x ++ "`"
  | .string s => "string " ++ Text.quoted s
  | .array _ => "sequence"
  | .object _ => "map"

def choiceText (names : List String) : String :=
  match names.map fun n => "`" ++ n ++ "`" with
  | [] => "there are no variants"
  | [a] => a
  | [a, b] => a ++ " or " ++ b
  | all => "one of " ++ ", ".intercalate all

def DecodeError.message : DecodeError → String
  | .invalidType found expected => "invalid type: " ++ found.kindText ++ ", expected " ++ expected
  | .invalidValue found expected => "invalid value: " ++ found.kindText ++ ", expected " ++ expected
  | .invalidLength n expected =>
    "invalid length " ++ Decimal.natText n ++ ", expected " ++ expected
  | .unknownVariant name variants =>
    "unknown variant `" ++ name ++ "`, expected " ++ choiceText variants
  | .missingField name => "missing field `" ++ name ++ "`"
  | .noAlternative type => "data did not match any variant of untagged enum " ++ type
  | .refused reason => reason

abbrev Decoded (α : Type) := Except DecodeError α

def asString : Json → Decoded String
  | .string s => .ok s
  | j => .error (.invalidType j "a string")

def asOptionalString : Json → Decoded (Option String)
  | .null => .ok none
  | j => j.asString.map some

def asList {α : Type} (decode : Json → Decoded α) : Json → Decoded (List α)
  | .array items => items.mapM decode
  | j => .error (.invalidType j "a sequence")

def asMembers : Json → Decoded (List (String × Json))
  | .object members => .ok members
  | j => .error (.invalidType j "a map")

/-- Decodes one of several named values: its name, or an object with the name as its only member
and null under it. -/
def asVariant {α : Type} (variants : List (String × α)) (j : Json) : Decoded α :=
  let choose (name : String) : Decoded α :=
    match variants.lookup name with
    | some value => .ok value
    | none => .error (.unknownVariant name (variants.map (·.1)))
  match j with
  | .string name => choose name
  | .object [(name, content)] => do
    let value ← choose name
    if content.isNull then return value else throw (.invalidType content "unit")
  | .object _ => .error (.invalidValue j "map with a single key")
  | _ => .error (.invalidType j "string or map")

structure Shape where
  name : String
  fields : List String

namespace Shape

/-- Reads the fields of a record one after the other into a draft, and says whether they were
given by position. Members that are no fields are passed over. -/
def read {δ : Type} (s : Shape) (store : String → Json → δ → Decoded δ) (draft : δ) (j : Json) :
    Decoded (δ × Bool) :=
  match j with
  | .object members => do
    let known := members.filter fun m => s.fields.contains m.1
    return (← known.foldlM (fun d m => store m.1 m.2 d) draft, false)
  | .array items => do
    let filled ← (s.fields.zip items).foldlM (fun d m => store m.1 m.2 d) draft
    if s.fields.length < items.length then
      throw (.invalidLength items.length "fewer elements in array")
    return (filled, true)
  | j => .error (.invalidType j s.name)

def require {α : Type} (s : Shape) (byPosition : Bool) (field : String) :
    Option α → Decoded α
  | some value => .ok value
  | none =>
    if byPosition then
      let count := s.fields.length
      .error (.invalidLength (s.fields.idxOf field)
        (s.name ++ " with " ++ Decimal.natText count ++
          if count = 1 then " element" else " elements"))
    else .error (.missingField field)

end Shape

end SearchSync.Json
