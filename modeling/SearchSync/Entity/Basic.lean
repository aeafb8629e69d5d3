import SearchSync.Decimal
import SearchSync.Json.Basic
import SearchSync.Text

/-!
# Entities, their ids and their records

The JSON form of an id does not say of which kind it is: a string in one of the spellings of a UUID
reads as that UUID. A database may hand the same key out as a number or as text, and both read as
the same id of an id column.
-/

namespace SearchSync

structure EntityType where
  name : String
  deriving DecidableEq, Repr

namespace EntityType

def quoted (t : EntityType) : String := "EntityType(" ++ Text.quoted t.name ++ ")"

end EntityType

structure Uuid where
  bits : BitVec 128
  deriving DecidableEq, Repr

namespace Uuid

def groups : List Nat := [8, 4, 4, 4, 12]

def hexChar (d : Nat) : Char := Nat.digitChar d

def hexText : Nat → Nat → List Char
  | 0, _ => []
  | width + 1, n => hexText width (n / 16) ++ [hexChar (n % 16)]

def hexFrom? (acc : Nat) : List Char → Option Nat
  | [] => some acc
  | c :: cs => (Text.hexDigit? c).bind fun d => hexFrom? (16 * acc + d) cs

def ofHex? (cs : List Char) : Option Uuid :=
  if cs.length = 32 then (hexFrom? 0 cs).map fun n => ⟨BitVec.ofNat 128 n⟩ else none

def hyphenate : List Nat → List Char → List Char
  | [], _ => []
  | [n], cs => cs.take n
  | n :: rest, cs => cs.take n ++ '-' :: hyphenate rest (cs.drop n)

/-- The text without the hyphens between groups of the given lengths, or nothing if a hyphen or a
character is missing or left over. -/
def joinGroups? : List Nat → List Char → Option (List Char)
  | [], cs => if cs.isEmpty then some [] else none
  | [n], cs => if cs.length = n then some cs else none
  | n :: rest, cs =>
    match cs.drop n with
    | '-' :: cs' => (joinGroups? rest cs').map (cs.take n ++ ·)
    | _ => none

def ofHyphenated? (cs : List Char) : Option Uuid := (joinGroups? groups cs).bind ofHex?

def urnScheme : List Char := ['u', 'r', 'n', ':', 'u', 'u', 'i', 'd', ':']

def inBraces? (cs : List Char) : Option (List Char) :=
  match cs with
  | '\x7b' :: rest => if rest.getLast? = some '\x7d' then some rest.dropLast else none
  | _ => none

def inUrn? (cs : List Char) : Option (List Char) :=
  if (cs.take urnScheme.length).map Char.toLower = urnScheme then some (cs.drop urnScheme.length)
  else none

/-- Reads thirty-two digits, or a hyphenated UUID that stands alone, in braces or behind the URN
scheme. -/
def read? (text : String) : Option Uuid :=
  let cs := text.toList
  (ofHex? cs).or <| (ofHyphenated? cs).or <|
    ((inBraces? cs).bind ofHyphenated?).or ((inUrn? cs).bind ofHyphenated?)

def text (u : Uuid) : String := String.ofList (hyphenate groups (hexText 32 u.bits.toNat))

end Uuid

inductive EntityId
  | int (value : Int64)
  | uuid (value : Uuid)
  | text (value : String)
  | composite (parts : List EntityId)
  deriving Repr

namespace EntityId

mutual

def decEq : (a b : EntityId) → Decidable (a = b)
  | .int m, .int n => decidable_of_iff (m = n) ⟨congrArg _, fun h => by injection h⟩
  | .uuid u, .uuid v => decidable_of_iff (u = v) ⟨congrArg _, fun h => by injection h⟩
  | .text s, .text t => decidable_of_iff (s = t) ⟨congrArg _, fun h => by injection h⟩
  | .composite ps, .composite qs =>
    match decEqParts ps qs with
    | isTrue h => isTrue (congrArg _ h)
    | isFalse h => isFalse fun e => h (by injection e)
  | .int _, .uuid _ | .int _, .text _ | .int _, .composite _
  | .uuid _, .int _ | .uuid _, .text _ | .uuid _, .composite _
  | .text _, .int _ | .text _, .uuid _ | .text _, .composite _
  | .composite _, .int _ | .composite _, .uuid _ | .composite _, .text _ => isFalse nofun

def decEqParts : (ps qs : List EntityId) → Decidable (ps = qs)
  | [], [] => isTrue rfl
  | [], _ :: _ | _ :: _, [] => isFalse nofun
  | p :: ps, q :: qs =>
    match decEq p q, decEqParts ps qs with
    | isTrue h, isTrue h' => isTrue (h ▸ h' ▸ rfl)
    | isFalse h, _ => isFalse fun e => h (by injection e)
    | _, isFalse h => isFalse fun e => h (by injection e)

end

instance : DecidableEq EntityId := decEq

def rank : EntityId → Nat
  | .int _ => 0
  | .uuid _ => 1
  | .text _ => 2
  | .composite _ => 3

mutual

/-- The order of ids: first by kind, then integers by value, UUIDs by their bytes, texts by code
points and composites part by part, the shorter first where it is the beginning of the longer. -/
def cmp : EntityId → EntityId → Ordering
  | .int m, .int n => compare m.toInt n.toInt
  | .uuid u, .uuid v => compare u.bits.toNat v.bits.toNat
  | .text s, .text t => compare s t
  | .composite ps, .composite qs => cmpParts ps qs
  | a, b => compare a.rank b.rank

def cmpParts : List EntityId → List EntityId → Ordering
  | [], [] => .eq
  | [], _ :: _ => .lt
  | _ :: _, [] => .gt
  | p :: ps, q :: qs => (cmp p q).then (cmpParts ps qs)

end

mutual

def display : EntityId → String
  | .int n => Decimal.intText n.toInt
  | .uuid u => u.text
  | .text s => s
  | .composite parts => "(" ++ displayParts parts ++ ")"

def displayParts : List EntityId → String
  | [] => ""
  | [p] => p.display
  | p :: ps => p.display ++ ", " ++ displayParts ps

end

mutual

def quoted : EntityId → String
  | .int n => "Int(" ++ Decimal.intText n.toInt ++ ")"
  | .uuid u => "Uuid(" ++ u.text ++ ")"
  | .text s => "Text(" ++ Text.quoted s ++ ")"
  | .composite parts => "Composite([" ++ quotedParts parts ++ "])"

def quotedParts : List EntityId → String
  | [] => ""
  | [p] => p.quoted
  | p :: ps => p.quoted ++ ", " ++ quotedParts ps

end

def quotedList (ids : List EntityId) : String := "[" ++ quotedParts ids ++ "]"

mutual

def toJson : EntityId → Json
  | .int n => Json.ofInt n.toInt
  | .uuid u => .string u.text
  | .text s => .string s
  | .composite parts => .array (partsToJson parts)

def partsToJson : List EntityId → List Json
  | [] => []
  | p :: ps => p.toJson :: partsToJson ps

end

mutual

/-- The id of a JSON value: of an integer in range, of a string, which may spell a UUID, or of an
array of ids. -/
def ofJson? : Json → Option EntityId
  | .number (.integer n) => (Bounded.int64? n).map .int
  | .string s => some (((Uuid.read? s).map .uuid).getD (.text s))
  | .array items => (partsOfJson? items).map .composite
  | _ => none

def partsOfJson? : List Json → Option (List EntityId)
  | [] => some []
  | j :: js => do return (← ofJson? j) :: (← partsOfJson? js)

end

end EntityId

inductive ColumnType
  | int32
  | int64
  | text
  | uuid
  deriving DecidableEq, Repr

namespace ColumnType

def all : List ColumnType := [.int32, .int64, .text, .uuid]

def name : ColumnType → String
  | .int32 => "int32"
  | .int64 => "int64"
  | .text => "text"
  | .uuid => "uuid"

end ColumnType

namespace EntityId

/-- The integer of a value: of an integer number, or of a string that holds one between blanks. -/
def integerOf? : Json → Option Int
  | .number (.integer n) => some n
  | .string s => Decimal.signedValue? (Text.trim s.toList)
  | _ => none

def ofColumn? (type : ColumnType) (value : Json) : Option EntityId :=
  match type with
  | .int32 => (integerOf? value).bind fun n =>
    if Bounded.fitsInt32 n then (Bounded.int64? n).map .int else none
  | .int64 => (integerOf? value).bind fun n => (Bounded.int64? n).map .int
  | .text =>
    match value with
    | .string s => some (.text s)
    | .number n => some (.text n.text)
    | _ => none
  | .uuid =>
    match value with
    | .string s => (Uuid.read? s).map .uuid
    | _ => none

end EntityId

structure Record where
  entityType : EntityType
  id : EntityId
  data : List (String × Json)
  deriving Repr

namespace Record

/-- The id behind one reference: an object stands for the member that holds its id. -/
def referenceId? (idProperty : String) (idType : ColumnType) (value : Json) : Option EntityId :=
  match value with
  | .object members => (members.lookup idProperty).bind (EntityId.ofColumn? idType)
  | value => EntityId.ofColumn? idType value

/-- The ids referred to by a property: one for a plain value, one for each item of an array that
is not null, none for a property that is missing or null. Nothing when a reference cannot be read
as an id of the type. -/
def referenceIds? (r : Record) (property idProperty : String) (idType : ColumnType) :
    Option (List EntityId) :=
  match r.data.lookup property with
  | none | some .null => some []
  | some (.array items) =>
    (items.filter fun item => !item.isNull).mapM (referenceId? idProperty idType)
  | some value => (referenceId? idProperty idType value).map fun id => [id]

def toJson (r : Record) : Json :=
  Json.ofMembers [("entity_type", .string r.entityType.name), ("id", r.id.toJson),
    ("data", .object r.data)]

end Record

end SearchSync
