import SearchSync.NameMap
import SearchSync.Yaml.Token

/-!
# Documents and what they describe

A text holds one document or none; where a node is missing, an empty one stands. Aliases are kept as
such and followed only so often, by the size of the document. Any scalar is a text, whatever it
looks like. Members of a record that are no fields of it are passed over without a look at their
content, but a field must not be given twice.
-/

namespace SearchSync.Yaml

structure Properties where
  anchor : Option Nat
  tag : Option TagText
  deriving DecidableEq, Repr

def Properties.none : Properties := ⟨Option.none, Option.none⟩

def Properties.localName? (p : Properties) : Option String :=
  match p.tag with
  | some (some tag) =>
    match tag.toList with
    | '!' :: name => some (String.ofList name)
    | _ => Option.none
  | _ => Option.none

inductive Node
  | absent
  | scalar (properties : Properties) (isPlain : Bool) (text : String)
  | sequence (properties : Properties) (items : List Node)
  | mapping (properties : Properties) (entries : List (Node × Node))
  | aliasOf (anchor : Nat)
  deriving Repr

namespace Node

def empty : Node := .scalar .none true ""

def underAnchor (p : Properties) (n : Node) : List (Nat × Node) :=
  match p.anchor with
  | some id => [(id, n)]
  | none => []

mutual

def anchored : Node → List (Nat × Node)
  | absent => []
  | scalar p isPlain text => underAnchor p (scalar p isPlain text)
  | sequence p items => underAnchor p (sequence p items) ++ anchoredItems items
  | mapping p entries => underAnchor p (mapping p entries) ++ anchoredEntries entries
  | aliasOf _ => []

def anchoredItems : List Node → List (Nat × Node)
  | [] => []
  | n :: rest => n.anchored ++ anchoredItems rest

def anchoredEntries : List (Node × Node) → List (Nat × Node)
  | [] => []
  | (k, v) :: rest => k.anchored ++ (v.anchored ++ anchoredEntries rest)

end

mutual

/-- The number of parts of a node: one for a scalar, an alias or nothing at all; for a collection
two, its beginning and its end, and those of what is in it. -/
def size : Node → Nat
  | absent => 1
  | scalar .. => 1
  | sequence _ items => sizeItems items + 2
  | mapping _ entries => sizeEntries entries + 2
  | aliasOf _ => 1

def sizeItems : List Node → Nat
  | [] => 0
  | n :: rest => n.size + sizeItems rest

def sizeEntries : List (Node × Node) → Nat
  | [] => 0
  | (k, v) :: rest => k.size + (v.size + sizeEntries rest)

end

end Node

structure Document where
  root : Node
  anchors : List (Nat × Node)

namespace Document

def ofRoot (root : Node) : Document := ⟨root, root.anchored.reverse⟩

/-- How often aliases may be followed in reading a document, so that aliases of nodes with aliases
cannot make a short document a long one. -/
def aliasLimit (d : Document) : Nat := 100 * d.root.size

/-- What a node stands for: itself, unless it is an alias. The state counts how often aliases may
still be followed. -/
def resolve (d : Document) : Node → StateT Nat Option Node
  | .aliasOf anchor => do
    match ← get with
    | 0 => failure
    | left + 1 =>
      set left
      d.anchors.lookup anchor
  | n => return n

end Document

structure Remaining where
  tokens : List Token
  anchors : List (String × Nat)

abbrev NodeReader := StateT Remaining Option

namespace NodeReader

def peek : NodeReader (Option Token) := do return (← get).tokens.head?

def skip : NodeReader Unit := modify fun r => { r with tokens := r.tokens.drop 1 }

def sees (ts : List Token) : NodeReader Bool := do
  return (← get).tokens.head?.any (ts.contains ·)

def take (t : Token) : NodeReader Bool := do
  if ← sees [t] then
    skip
    return true
  else return false

def takeComma (isFirst : Bool) : NodeReader Bool :=
  if isFirst then return true else take .comma

/-- The number for an anchor: how many names there were before. A name that is used again gets a
new number, which the next new name shares. -/
def define (name : String) : NodeReader Nat := do
  let r ← get
  let id := r.anchors.length
  let others := r.anchors.filter (·.1 ≠ name)
  set { r with anchors := (name, id) :: others }
  return id

def expand (handles : List (String × TagText)) (handle : String) (suffix : TagText) :
    NodeReader TagText :=
  if handle.isEmpty then return suffix
  else
    match handles.lookup handle with
    | some expansion => return expansion.bind fun start => suffix.map (start ++ ·)
    | none => failure

def anchor? : NodeReader (Option String) := do
  match ← peek with
  | some (.anchor name) =>
    skip
    return some name
  | _ => return none

def tag? (handles : List (String × TagText)) : NodeReader (Option TagText) := do
  match ← peek with
  | some (.tag handle suffix) =>
    skip
    return some (← expand handles handle suffix)
  | _ => return none

def properties (handles : List (String × TagText)) : NodeReader Properties := do
  let before ← tag? handles
  let name ← anchor?
  let after ← if before.isNone && name.isSome then tag? handles else pure none
  let id ← match name with
    | some name => do
      let id ← define name
      pure (some id)
    | none => pure none
  return ⟨id, before.or after⟩

mutual

/-- Reads a node. Outside of flow collections it may be a block collection, and as the value of a
key also a block sequence that is not indented. -/
def node (handles : List (String × TagText)) (inBlock mayBeUnindented : Bool) :
    Nat → NodeReader Node
  | 0 => failure
  | fuel + 1 => do
    if let some (.aliasOf name) ← peek then
      skip
      match (← get).anchors.lookup name with
      | some id => return .aliasOf id
      | none => failure
    else
      let p ← properties handles
      match ← peek with
      | some (.scalar isPlain text) =>
        skip
        return .scalar p isPlain text
      | some .flowSequenceStart =>
        skip
        return .sequence p (← flowItems handles true fuel)
      | some .flowMappingStart =>
        skip
        return .mapping p (← flowEntries handles true fuel)
      | some .sequenceStart =>
        if inBlock then
          skip
          return .sequence p (← items handles fuel)
        else bare p
      | some .mappingStart =>
        if inBlock then
          skip
          return .mapping p (← entries handles fuel)
        else bare p
      | some .item =>
        if mayBeUnindented then return .sequence p (← unindentedItems handles fuel)
        else bare p
      | _ => bare p
where
  bare (p : Properties) : NodeReader Node :=
    if p.anchor.isSome || p.tag.isSome then return .scalar p true "" else failure

def nodeUnless (handles : List (String × TagText)) (inBlock mayBeUnindented : Bool)
    (ends : List Token) : Nat → NodeReader Node
  | 0 => failure
  | fuel + 1 => do
    if ← sees ends then return .empty
    else node handles inBlock mayBeUnindented fuel

def items (handles : List (String × TagText)) : Nat → NodeReader (List Node)
  | 0 => failure
  | fuel + 1 => do
    if ← take .item then
      let n ← nodeUnless handles true false [.item, .blockEnd] fuel
      return n :: (← items handles fuel)
    else if ← take .blockEnd then return []
    else failure

def unindentedItems (handles : List (String × TagText)) : Nat → NodeReader (List Node)
  | 0 => failure
  | fuel + 1 => do
    if ← take .item then
      let n ← nodeUnless handles true false [.item, .key, .value, .blockEnd] fuel
      return n :: (← unindentedItems handles fuel)
    else return []

def entries (handles : List (String × TagText)) : Nat → NodeReader (List (Node × Node))
  | 0 => failure
  | fuel + 1 => do
    if ← take .key then
      let k ← nodeUnless handles true true [.key, .value, .blockEnd] fuel
      let v ← if ← take .value then nodeUnless handles true true [.key, .value, .blockEnd] fuel
        else pure .empty
      return (k, v) :: (← entries handles fuel)
    else if ← take .blockEnd then return []
    else failure

/-- Reads the items of a flow sequence and its end. An item with a key is a mapping of one entry. -/
def flowItems (handles : List (String × TagText)) (isFirst : Bool) : Nat → NodeReader (List Node)
  | 0 => failure
  | fuel + 1 => do
    if ← take .flowSequenceEnd then return []
    else if ← takeComma isFirst then
      if ← take .flowSequenceEnd then return []
      else if ← take .key then
        let entry ← flowPair handles fuel
        return .mapping .none [entry] :: (← flowItems handles false fuel)
      else
        let n ← node handles false false fuel
        return n :: (← flowItems handles false fuel)
    else failure

/-- Reads the entry of a flow sequence item behind the mark of its key. Where the key is missing,
the token that follows the mark goes with it. -/
def flowPair (handles : List (String × TagText)) : Nat → NodeReader (Node × Node)
  | 0 => failure
  | fuel + 1 => do
    let k ← if ← sees [.value, .comma, .flowSequenceEnd] then do
        skip
        pure .empty
      else node handles false false fuel
    let v ← if ← take .value then nodeUnless handles false false [.comma, .flowSequenceEnd] fuel
      else pure .empty
    return (k, v)

def flowEntries (handles : List (String × TagText)) (isFirst : Bool) :
    Nat → NodeReader (List (Node × Node))
  | 0 => failure
  | fuel + 1 => do
    if ← take .flowMappingEnd then return []
    else if ← takeComma isFirst then
      if ← take .flowMappingEnd then return []
      else if ← take .key then
        let k ← nodeUnless handles false false [.value, .comma, .flowMappingEnd] fuel
        let v ← if ← take .value then nodeUnless handles false false [.comma, .flowMappingEnd] fuel
          else pure .empty
        return (k, v) :: (← flowEntries handles false fuel)
      else
        let k ← node handles false false fuel
        return (k, .empty) :: (← flowEntries handles false fuel)
    else failure

end

def standardHandles : List (String × TagText) :=
  [("!", some "!"), ("!!", some "tag:yaml.org,2002:")]

/-- Reads the directives of a document: at most one version, which must be 1.1 or 1.2, and handles
that differ. Gives the handles. -/
def directives (hasVersion : Bool) (handles : List (String × TagText)) :
    Nat → NodeReader (List (String × TagText))
  | 0 => failure
  | fuel + 1 => do
    match ← peek with
    | some (.version major minor) =>
      if hasVersion || major ≠ 1 || (minor ≠ 1 && minor ≠ 2) then failure
      else
        skip
        directives true handles fuel
    | some (.handle name expansion) =>
      if (handles.lookup name).isSome then failure
      else
        skip
        directives hasVersion (handles ++ [(name, expansion)]) fuel
    | _ => return handles

def content (handles : List (String × TagText)) (fuel : Nat) : NodeReader Node := do
  match ← peek with
  | none | some (.version ..) | some (.handle ..) | some .documentStart | some .documentEnd =>
    return .empty
  | _ => node handles true false fuel

def root (fuel : Nat) : NodeReader Node := do
  match ← peek with
  | none => return .absent
  | some (.version ..) | some (.handle ..) | some .documentStart =>
    let handles ← directives false [] fuel
    if ← take .documentStart then content (handles ++ standardHandles) fuel else failure
  | _ => node standardHandles true false fuel

end NodeReader

namespace Document

/-- The only document of a list of tokens, or an empty one if there is none. Reading a node takes at
most three calls for each token. -/
def ofTokens? (tokens : List Token) : Option Document := do
  let (root, rest) ← (NodeReader.root (3 * tokens.length + 3)).run ⟨tokens, []⟩
  if rest.tokens.all (· = .documentEnd) then return ofRoot root else none

def read? (text : String) : Option Document := Token.ofText? text >>= ofTokens?

end Document

/-- Reads a value from a node of a document. The state counts how often aliases may still be
followed. -/
abbrev Decoder (α : Type) := Document → Node → StateT Nat Option α

namespace Decoder

variable {α : Type}

def isEmpty : Node → Bool
  | .absent => true
  | .scalar _ isPlain text => isPlain && text.isEmpty
  | _ => false

def isNullText (text : String) : Bool := ["~", "null", "Null", "NULL"].contains text

def nullTag : String := "tag:yaml.org,2002:null"

def text : Decoder String := fun d n => do
  match ← d.resolve n with
  | .scalar _ _ s => return s
  | _ => failure

/-- The text of a scalar, unless it stands for null or is left empty. With any other tag than that
of null it stands for itself. -/
def optionalText : Decoder (Option String) := fun d n => do
  match ← d.resolve n with
  | .absent => return none
  | .scalar p isPlain s =>
    if !isPlain then return some s
    else
      match p.tag with
      | none => return if s.isEmpty || isNullText s then none else some s
      | some tag =>
        if tag ≠ some nullTag then return some s
        else if isNullText s then return none
        else failure
  | _ => failure

def list (item : Decoder α) : Decoder (List α) := fun d n => do
  match ← d.resolve n with
  | .sequence _ items => items.mapM (item d)
  | n => if isEmpty n then return [] else failure

def members : Decoder (List (String × Node)) := fun d n => do
  match ← d.resolve n with
  | .mapping _ entries => entries.mapM fun e => do return (← text d e.1, e.2)
  | n => if isEmpty n then return [] else failure

def map (value : Decoder α) : Decoder (NameMap α) := fun d n => do
  let ms ← members d n
  return NameMap.ofList (← ms.mapM fun m => do return (m.1, ← value d m.2))

/-- One of several named values: its name, or a local tag with the name and nothing behind it. -/
def variant (variants : List (String × α)) : Decoder α := fun d n => do
  match ← d.resolve n with
  | .scalar p isPlain s =>
    match p.localName? with
    | some name =>
      if isPlain && (s.isEmpty || isNullText s) then variants.lookup name else failure
    | none => variants.lookup s
  | _ => failure

def field? (name : String) (value : Decoder α) (d : Document) (ms : List (String × Node)) :
    StateT Nat Option (Option α) :=
  match ms.filter (·.1 = name) with
  | [] => return none
  | [m] => do return some (← value d m.2)
  | _ => failure

def field (name : String) (value : Decoder α) (d : Document) (ms : List (String × Node)) :
    StateT Nat Option α := do
  let some a ← field? name value d ms | failure
  return a

def fieldOr (name : String) (value : Decoder α) (default : α) (d : Document)
    (ms : List (String × Node)) : StateT Nat Option α := do
  return (← field? name value d ms).getD default

def readText? (value : Decoder α) (text : String) : Option α := do
  let d ← Document.read? text
  (value d d.root).run' d.aliasLimit

end Decoder

end SearchSync.Yaml
