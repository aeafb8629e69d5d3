import SearchSync.Yaml.Scalar

/-!
# Tokens of a YAML text

Block structure, which the text shows by indentation, is explicit in the tokens. Whether a scalar is
a key is known only at the colon behind it, so the places where a key may have begun are remembered,
one for each nesting of flow collections, and the key's tokens are put in afterwards. A key must be
on one line with its colon and within 1024 bytes of it.
-/

namespace SearchSync.Yaml

/-- The text of a tag or of a part of one. There is none if it is given in bytes that spell none. -/
abbrev TagText := Option String

inductive Token
  | version (major minor : Nat)
  | handle (name : String) (expansion : TagText)
  | documentStart
  | documentEnd
  | sequenceStart
  | mappingStart
  | blockEnd
  | flowSequenceStart
  | flowSequenceEnd
  | flowMappingStart
  | flowMappingEnd
  | item
  | comma
  | key
  | value
  | aliasOf (name : String)
  | anchor (name : String)
  | tag (handle : String) (suffix : TagText)
  | scalar (isPlain : Bool) (text : String)
  deriving DecidableEq, Repr

namespace Name

def read (gs : List Glyph) : Option (String × List Glyph) :=
  let (name, rest) := gs.span (·.isWord)
  if name.isEmpty then none
  else if Glyph.endWord rest ||
      Glyph.startsWithOneOf ['?', ':', ',', ']', '\x7d', '%', '@', '\x60'] rest then
    some (Glyph.text name, rest)
  else none

end Name

namespace Address

def isAddress (isVerbatim : Bool) (c : Char) : Bool :=
  isWord c ||
    [';', '/', '?', ':', '@', '&', '=', '+', '$', '.', '%', '!', '~', '*', '\'', '(',
      ')'].contains c ||
    (isVerbatim && [',', '[', ']'].contains c)

structure Unfinished where
  count : Nat
  missing : Nat
  bits : Nat

/-- The character with these bits in so many bytes. Fewer bytes must not do. -/
def charOfBits? (count bits : Nat) : Option Char :=
  let least :=
    match count with
    | 2 => 0x80
    | 3 => 0x800
    | 4 => 0x10000
    | _ => 0
  if least ≤ bits then Scalar.charOfCode? bits else none

def leadByte? (byte : Nat) : Option (Nat × Nat) :=
  if byte < 0x80 then some (1, byte)
  else if byte < 0xc0 then none
  else if byte < 0xe0 then some (2, byte - 0xc0)
  else if byte < 0xf0 then some (3, byte - 0xe0)
  else if byte < 0xf8 then some (4, byte - 0xf0)
  else none

/-- Reads the characters of a tag, where a percent sign and two digits stand for a byte. Bytes that
have the outline of a character and are none are kept as such; `read` is what was read so far, the
latest first. -/
def characters (isVerbatim : Bool) (unfinished : Option Unfinished) (read : List (Option Char)) :
    List Glyph → Option (List (Option Char) × List Glyph)
  | [] => if unfinished.isSome then none else some (read.reverse, [])
  | g :: rest =>
    if g.char = '%' then
      match rest with
      | h :: l :: rest' =>
        match Text.hexDigit? h.char, Text.hexDigit? l.char with
        | some high, some low =>
          let byte := high * 16 + low
          match unfinished with
          | none =>
            match leadByte? byte with
            | none => none
            | some (1, bits) => characters isVerbatim none (charOfBits? 1 bits :: read) rest'
            | some (count, bits) => characters isVerbatim (some ⟨count, count - 1, bits⟩) read rest'
          | some u =>
            if 0x80 ≤ byte && byte < 0xc0 then
              let bits := u.bits * 64 + (byte - 0x80)
              if u.missing ≤ 1 then
                characters isVerbatim none (charOfBits? u.count bits :: read) rest'
              else characters isVerbatim (some ⟨u.count, u.missing - 1, bits⟩) read rest'
            else none
        | _, _ => none
      | _ => none
    else if unfinished.isSome then none
    else if isAddress isVerbatim g.char then characters isVerbatim none (some g.char :: read) rest
    else some (read.reverse, g :: rest)

def text (cs : List (Option Char)) : TagText :=
  ((cs.takeWhile (· ≠ some '\x00')).mapM id).map String.ofList

end Address

namespace Tag

def readHandle : List Glyph → Option (List Char × List Glyph)
  | [] => none
  | g :: rest =>
    if g.char = '!' then
      let (word, after) := rest.span (·.isWord)
      let name := '!' :: word.map (·.char)
      match after with
      | h :: rest' => if h.char = '!' then some (name ++ ['!'], rest') else some (name, after)
      | [] => some (name, [])
    else none

def isClosed (handle : List Char) : Bool := 1 < handle.length && handle.getLast? = some '!'

/-- Reads the parts of a tag: between angle brackets, with a handle, or local. The tag that is a
single mark has that mark as its suffix. -/
def readParts (gs : List Glyph) : Option ((String × TagText) × List Glyph) :=
  match gs with
  | g :: h :: rest =>
    if g.char = '!' && h.char = '<' then do
      let (suffix, after) ← Address.characters true none [] rest
      if suffix.isEmpty || !Glyph.startsWithOneOf ['>'] after then none
      else return (("", Address.text suffix), after.drop 1)
    else short gs
  | _ => short gs
where
  short (gs : List Glyph) : Option ((String × TagText) × List Glyph) := do
    let (handle, after) ← readHandle gs
    let (suffix, rest) ← Address.characters false none [] after
    if isClosed handle then
      if suffix.isEmpty then none else return ((String.ofList handle, Address.text suffix), rest)
    else
      let suffix := Address.text ((handle.drop 1).map some ++ suffix)
      if suffix = some "" then return (("", some "!"), rest) else return (("!", suffix), rest)

def read (inFlow : Bool) (gs : List Glyph) : Option (Token × List Glyph) := do
  let ((handle, suffix), rest) ← readParts gs
  if (inFlow && Glyph.startsWithOneOf [','] rest) || Glyph.endWord rest then
    return (.tag handle suffix, rest)
  else none

end Tag

namespace Directive

def readNumber (gs : List Glyph) : Option (Nat × List Glyph) :=
  let (digits, rest) := gs.span (·.char.isDigit)
  if digits.isEmpty || 9 < digits.length then none
  else some (digits.foldl (fun n g => n * 10 + (g.char.toNat - '0'.toNat)) 0, rest)

def readVersion (gs : List Glyph) : Option (Token × List Glyph) := do
  let (major, dot) ← readNumber (gs.dropWhile (·.isBlank))
  if !Glyph.startsWithOneOf ['.'] dot then none
  else
    let (minor, rest) ← readNumber (dot.drop 1)
    return (.version major minor, rest)

def readExpansion (gs : List Glyph) : Option (Token × List Glyph) := do
  let (handle, after) ← Tag.readHandle (gs.dropWhile (·.isBlank))
  match after with
  | g :: _ =>
    if (handle ≠ ['!'] && !Tag.isClosed handle) || !g.isBlank then none
    else
      let (expansion, rest) ← Address.characters true none [] (after.dropWhile (·.isBlank))
      if expansion.isEmpty || !Glyph.endWord rest then none
      else return (.handle (String.ofList handle) (Address.text expansion), rest)
  | [] => none

def read (gs : List Glyph) : Option (Token × List Glyph) := do
  let (name, after) := gs.span (·.isWord)
  if !Glyph.endWord after then none
  else
    match Glyph.text name with
    | "YAML" => readVersion after
    | "TAG" => readExpansion after
    | _ => none

end Directive

structure PossibleKey where
  isRequired : Bool
  position : Nat
  line : Nat
  column : Nat
  offset : Nat
  deriving DecidableEq, Repr

namespace PossibleKey

/-- The possible key as far as it can still be one at a place; a required key must not be lost. -/
def keepFor (g : Glyph) (key : Option PossibleKey) : Option (Option PossibleKey) :=
  match key with
  | none => some none
  | some k =>
    if k.line < g.line || k.offset + 1024 < g.offset then if k.isRequired then none else some none
    else some (some k)

end PossibleKey

structure Layout where
  indent : Int
  outer : List Int
  key : Option PossibleKey
  outerKeys : List (Option PossibleKey)
  isKeyAllowed : Bool
  tokens : Array Token

namespace Layout

def start : Layout := ⟨-1, [], none, [], true, #[]⟩

def inFlow (s : Layout) : Bool := !s.outerKeys.isEmpty

def push (t : Token) (s : Layout) : Layout := { s with tokens := s.tokens.push t }

def allowKey (isAllowed : Bool) (s : Layout) : Layout := { s with isKeyAllowed := isAllowed }

def expireKeys (g : Glyph) (s : Layout) : Option Layout := do
  let key ← PossibleKey.keepFor g s.key
  let outerKeys ← s.outerKeys.mapM (PossibleKey.keepFor g)
  return { s with key, outerKeys }

def dropKey (s : Layout) : Option Layout :=
  match s.key with
  | some k => if k.isRequired then none else some { s with key := none }
  | none => some s

def noteKey (g : Glyph) (s : Layout) : Option Layout :=
  if s.isKeyAllowed then do
    let s ← s.dropKey
    let isRequired := !s.inFlow && s.indent = g.column
    return { s with key := some ⟨isRequired, s.tokens.size, g.line, g.column, g.offset⟩ }
  else some s

def openBlock (column position : Nat) (t : Token) (s : Layout) : Layout :=
  if s.inFlow || (column : Int) ≤ s.indent then s
  else
    { s with
      indent := column
      outer := s.indent :: s.outer
      tokens := s.tokens.insertIdxIfInBounds position t }

/-- The number of blocks to close until the indentation is at most `column`, and the indentations
that are left. -/
def blocksToClose (column indent : Int) : List Int → Nat × Int × List Int
  | [] => (0, indent, [])
  | next :: outer =>
    if column < indent then
      let (count, rest) := blocksToClose column next outer
      (count + 1, rest)
    else (0, indent, next :: outer)

def closeBlocks (column : Int) (s : Layout) : Layout :=
  if s.inFlow then s
  else
    let (count, indent, outer) := blocksToClose column s.indent s.outer
    { s with indent, outer, tokens := s.tokens ++ Array.replicate count Token.blockEnd }

/-- Skips blanks, comments and line ends up to the next token and says whether a key may begin
there. A tab is not skipped where a key may begin in a block, nor is a byte order mark that does not
begin a line. -/
def skipToToken (inFlow isKeyAllowed inComment : Bool) : List Glyph → Bool × List Glyph
  | [] => (isKeyAllowed, [])
  | g :: rest =>
    if g.isBreak then skipToToken inFlow (isKeyAllowed || !inFlow) false rest
    else if inComment then skipToToken inFlow isKeyAllowed true rest
    else if g.char = ' ' || (g.char = '\t' && (inFlow || !isKeyAllowed)) ||
        (g.char = '\ufeff' && g.column = 0) then
      skipToToken inFlow isKeyAllowed false rest
    else if g.char = '#' then skipToToken inFlow isKeyAllowed true rest
    else (isKeyAllowed, g :: rest)

def boundary (t : Token) (s : Layout) : Option Layout := do
  let s ← (s.closeBlocks (-1)).dropKey
  return (s.allowKey false).push t

def openFlow (g : Glyph) (t : Token) (s : Layout) : Option Layout := do
  let s ← s.noteKey g
  return ({ s with key := none, outerKeys := s.key :: s.outerKeys }.allowKey true).push t

def closeFlow (t : Token) (s : Layout) : Option Layout := do
  let s ← s.dropKey
  let s : Layout :=
    match s.outerKeys with
    | [] => s
    | key :: outerKeys => { s with key, outerKeys }
  return (s.allowKey false).push t

def comma (s : Layout) : Option Layout := do
  let s ← s.dropKey
  return (s.allowKey true).push .comma

def item (g : Glyph) (s : Layout) : Option Layout := do
  if !s.inFlow && !s.isKeyAllowed then none
  else
    let s ← (s.openBlock g.column s.tokens.size .sequenceStart).dropKey
    return (s.allowKey true).push .item

def explicitKey (g : Glyph) (s : Layout) : Option Layout := do
  if !s.inFlow && !s.isKeyAllowed then none
  else
    let s ← (s.openBlock g.column s.tokens.size .mappingStart).dropKey
    return (s.allowKey (!s.inFlow)).push .key

/-- The colon of a value. It makes a key of what began at the possible key. -/
def value (g : Glyph) (s : Layout) : Option Layout :=
  match s.key with
  | some k =>
    let s := { s with tokens := s.tokens.insertIdxIfInBounds k.position .key }
    let s := s.openBlock k.column k.position .mappingStart
    some (({ s with key := none }.allowKey false).push .value)
  | none =>
    if s.inFlow then some ((s.allowKey false).push .value)
    else if s.isKeyAllowed then
      some (((s.openBlock g.column s.tokens.size .mappingStart).allowKey true).push .value)
    else none

def keyStart (g : Glyph) (t : Token) (s : Layout) : Option Layout := do
  let s ← s.noteKey g
  return (s.allowKey false).push t

def blockScalar (text : String) (s : Layout) : Option Layout := do
  let s ← s.dropKey
  return (s.allowKey true).push (.scalar false text)

def startsPlain (inFlow : Bool) (g : Glyph) (rest : List Glyph) : Bool :=
  !(g.isBlank || g.isBreak ||
    ['-', '?', ':', ',', '[', ']', '\x7b', '\x7d', '#', '&', '*', '!', '|', '>', '\'', '"', '%',
      '@', '\x60'].contains g.char) ||
    (g.char = '-' && !rest.head?.any (·.isBlank)) ||
    (!inFlow && (g.char = '?' || g.char = ':') && !Glyph.endWord rest)

def step (s : Layout) (g : Glyph) (rest : List Glyph) : Option (Layout × List Glyph) := do
  if g.column = 0 && g.char = '%' then
    let (t, rest) ← Directive.read rest
    return (← s.boundary t, ← BlockScalar.endOfLine rest)
  else if Glyph.isBoundary '-' (g :: rest) then
    return (← s.boundary .documentStart, rest.drop 2)
  else if Glyph.isBoundary '.' (g :: rest) then
    return (← s.boundary .documentEnd, rest.drop 2)
  else if g.char = '[' then
    return (← s.openFlow g .flowSequenceStart, rest)
  else if g.char = '\x7b' then
    return (← s.openFlow g .flowMappingStart, rest)
  else if g.char = ']' then
    return (← s.closeFlow .flowSequenceEnd, rest)
  else if g.char = '\x7d' then
    return (← s.closeFlow .flowMappingEnd, rest)
  else if g.char = ',' then
    return (← s.comma, rest)
  else if g.char = '-' && Glyph.endWord rest then
    return (← s.item g, rest)
  else if g.char = '?' && (s.inFlow || Glyph.endWord rest) then
    return (← s.explicitKey g, rest)
  else if g.char = ':' && (s.inFlow || Glyph.endWord rest) then
    return (← s.value g, rest)
  else if g.char = '*' then
    let (name, rest) ← Name.read rest
    return (← s.keyStart g (.aliasOf name), rest)
  else if g.char = '&' then
    let (name, rest) ← Name.read rest
    return (← s.keyStart g (.anchor name), rest)
  else if g.char = '!' then
    let (t, rest) ← Tag.read s.inFlow (g :: rest)
    return (← s.keyStart g t, rest)
  else if (g.char = '|' || g.char = '>') && !s.inFlow then
    let (text, rest) ← BlockScalar.read (g.char = '>') s.indent rest
    return (← s.blockScalar text, rest)
  else if g.char = '\'' then
    let (text, rest) ← Scalar.singleQuoted .none [] rest
    return (← s.keyStart g (.scalar false text), rest)
  else if g.char = '"' then
    let (text, rest) ← Scalar.doubleQuoted .none none [] rest
    return (← s.keyStart g (.scalar false text), rest)
  else if startsPlain s.inFlow g rest then
    let r ← Scalar.plain s.inFlow (s.indent + 1) .none [] (g :: rest)
    let s ← s.keyStart g (.scalar true r.text)
    return (s.allowKey r.gap.isMultiline, r.rest)
  else none

/-- Reads the tokens of the characters. Each takes at least one character, so `fuel` may be one
more than their number. -/
def run : Nat → Layout → List Glyph → Option (List Token)
  | 0, _, _ => none
  | fuel + 1, s, gs =>
    match skipToToken s.inFlow s.isKeyAllowed false gs with
    | (_, []) => (s.closeBlocks (-1)).dropKey.map (·.tokens.toList)
    | (isKeyAllowed, g :: rest) => do
      let s ← (s.allowKey isKeyAllowed).expireKeys g
      let (s, rest) ← (s.closeBlocks g.column).step g rest
      run fuel s rest

end Layout

def Token.ofText? (text : String) : Option (List Token) := do
  let gs ← glyphs? text
  Layout.run (gs.length + 1) .start gs

end SearchSync.Yaml
