import SearchSync.Text

/-!
# Characters and scalars of a YAML text

Indentation and the one-line rule for keys are questions of place, so each character comes with the
place where it stands. Where a scalar within lines goes on over several of them, a single line end
is folded into a space and each further one is kept.
-/

namespace SearchSync.Yaml

structure Glyph where
  char : Char
  line : Nat
  column : Nat
  offset : Nat
  deriving DecidableEq, Repr

def isAllowed (c : Char) : Bool :=
  c = '\t' || c = '\n' || c = '\r' || (' ' ≤ c && c ≤ '~') || c = '\u0085' ||
    ('\u00a0' ≤ c && c ≤ '\ufffd') || 0x10000 ≤ c.toNat

def isBlank (c : Char) : Bool := c = ' ' || c = '\t'

def isBreak (c : Char) : Bool := c = '\n' || c = '\u2028' || c = '\u2029'

def isWord (c : Char) : Bool := c.isAlphanum || c = '_' || c = '-'

/-- The text with its line ends unified. Line and paragraph separators are kept. -/
def unifyLineEnds : List Char → List Char
  | [] => []
  | '\r' :: '\n' :: rest => '\n' :: unifyLineEnds rest
  | c :: rest => (if c = '\r' || c = '\u0085' then '\n' else c) :: unifyLineEnds rest

def place (line column offset : Nat) : List Char → List Glyph
  | [] => []
  | c :: rest =>
    ⟨c, line, column, offset⟩ ::
      if isBreak c then place (line + 1) 0 0 rest
      else place line (column + 1) (offset + c.utf8Size) rest

def glyphs? (text : String) : Option (List Glyph) :=
  if text.toList.all isAllowed then some (place 0 0 0 (unifyLineEnds text.toList)) else none

namespace Glyph

def isBlank (g : Glyph) : Bool := Yaml.isBlank g.char

def isBreak (g : Glyph) : Bool := Yaml.isBreak g.char

def isWord (g : Glyph) : Bool := Yaml.isWord g.char

def endWord : List Glyph → Bool
  | [] => true
  | g :: _ => g.isBlank || g.isBreak

def endLine : List Glyph → Bool
  | [] => true
  | g :: _ => g.isBreak

def startsWithOneOf (cs : List Char) : List Glyph → Bool
  | [] => false
  | g :: _ => cs.contains g.char

/-- Whether three marks in a row at the beginning of a line bound a document. -/
def isBoundary (mark : Char) : List Glyph → Bool
  | a :: b :: c :: rest =>
    a.column = 0 && a.char = mark && b.char = mark && c.char = mark && endWord rest
  | _ => false

def atBoundary (gs : List Glyph) : Bool := isBoundary '-' gs || isBoundary '.' gs

def text (gs : List Glyph) : String := String.ofList (gs.map (·.char))

end Glyph

inductive Gap
  | blanks (cs : List Char)
  /-- Line ends, where the first is missing if it was escaped. Blanks beside them do not count. -/
  | lines (first : Option Char) (more : List Char)
  deriving DecidableEq, Repr

namespace Gap

def none : Gap := .blanks []

def blank (c : Char) : Gap → Gap
  | .blanks cs => .blanks (cs ++ [c])
  | g => g

def lineEnd (c : Char) : Gap → Gap
  | .blanks _ => .lines (some c) []
  | .lines first more => .lines first (more ++ [c])

def isMultiline : Gap → Bool
  | .blanks _ => false
  | .lines _ _ => true

def isNone : Gap → Bool
  | .blanks cs => cs.isEmpty
  | .lines _ _ => false

def text : Gap → List Char
  | .blanks cs => cs
  | .lines Option.none more => more
  | .lines (some '\n') [] => [' ']
  | .lines (some '\n') more => more
  | .lines (some c) more => c :: more

end Gap

namespace Scalar

structure Reading where
  text : String
  gap : Gap
  rest : List Glyph

def endsPlain (inFlow : Bool) : List Glyph → Bool
  | [] => true
  | g :: rest =>
    (g.char = ':' && Glyph.endWord rest) ||
      (inFlow && [',', '[', ']', '\x7b', '\x7d'].contains g.char)

def hasStrayColon (inFlow : Bool) : List Glyph → Bool
  | [] => false
  | g :: rest =>
    inFlow && g.char = ':' && Glyph.startsWithOneOf [',', '?', '[', ']', '\x7b', '\x7d'] rest

/-- Whether a plain scalar ends at the gap before these characters: where they are indented less
than it, bound a document or begin a comment. -/
def endsAtGap (inFlow : Bool) (indent : Int) : List Glyph → Bool
  | [] => true
  | g :: rest =>
    (!inFlow && (g.column : Int) < indent) || Glyph.atBoundary (g :: rest) || g.char = '#'

/-- Reads a plain scalar whose lines are indented by at least `indent`; `read` is what was read so
far, the latest first. -/
def plain (inFlow : Bool) (indent : Int) (gap : Gap) (read : List Char) :
    List Glyph → Option Reading
  | [] => some ⟨String.ofList read.reverse, gap, []⟩
  | g :: rest =>
    if g.isBlank then
      if gap.isMultiline && (g.column : Int) < indent && g.char = '\t' then none
      else plain inFlow indent (gap.blank g.char) read rest
    else if g.isBreak then plain inFlow indent (gap.lineEnd g.char) read rest
    else if !gap.isNone && endsAtGap inFlow indent (g :: rest) then
      some ⟨String.ofList read.reverse, gap, g :: rest⟩
    else if hasStrayColon inFlow (g :: rest) then none
    else if endsPlain inFlow (g :: rest) then some ⟨String.ofList read.reverse, gap, g :: rest⟩
    else plain inFlow indent .none (g.char :: (gap.text.reverse ++ read)) rest

def singleQuoted (gap : Gap) (read : List Char) : List Glyph → Option (String × List Glyph)
  | [] => none
  | g :: rest =>
    if Glyph.atBoundary (g :: rest) then none
    else if g.isBlank then singleQuoted (gap.blank g.char) read rest
    else if g.isBreak then singleQuoted (gap.lineEnd g.char) read rest
    else if g.char = '\'' then
      match rest with
      | h :: rest' =>
        if h.char = '\'' then singleQuoted .none ('\'' :: (gap.text.reverse ++ read)) rest'
        else some (String.ofList (gap.text.reverse ++ read).reverse, rest)
      | [] => some (String.ofList (gap.text.reverse ++ read).reverse, rest)
    else singleQuoted .none (g.char :: (gap.text.reverse ++ read)) rest

inductive Escape
  | char (c : Char)
  | code (digits : Nat)

def escape? : Char → Option Escape
  | '0' => some (.char '\x00')
  | 'a' => some (.char '\x07')
  | 'b' => some (.char '\x08')
  | 't' => some (.char '\t')
  | '\t' => some (.char '\t')
  | 'n' => some (.char '\n')
  | 'v' => some (.char '\x0b')
  | 'f' => some (.char '\x0c')
  | 'r' => some (.char '\r')
  | 'e' => some (.char '\x1b')
  | ' ' => some (.char ' ')
  | '"' => some (.char '"')
  | '/' => some (.char '/')
  | '\\' => some (.char '\\')
  | 'N' => some (.char '\u0085')
  | '_' => some (.char '\u00a0')
  | 'L' => some (.char '\u2028')
  | 'P' => some (.char '\u2029')
  | 'x' => some (.code 2)
  | 'u' => some (.code 4)
  | 'U' => some (.code 8)
  | _ => none

def charOfCode? (code : Nat) : Option Char :=
  if code.isValidChar then some (Char.ofNat code) else none

/-- Reads the rest of a scalar in double quotes; `code` are the digits still to come of an escaped
code point and its value so far. -/
def doubleQuoted (gap : Gap) (code : Option (Nat × Nat)) (read : List Char) :
    List Glyph → Option (String × List Glyph)
  | [] => none
  | g :: rest =>
    match code with
    | some (digits, value) =>
      match Text.hexDigit? g.char with
      | none => none
      | some d =>
        if digits ≤ 1 then
          match charOfCode? (value * 16 + d) with
          | none => none
          | some c => doubleQuoted .none none (c :: read) rest
        else doubleQuoted .none (some (digits - 1, value * 16 + d)) read rest
    | none =>
      let joined := gap.text.reverse ++ read
      if Glyph.atBoundary (g :: rest) then none
      else if g.isBlank then doubleQuoted (gap.blank g.char) none read rest
      else if g.isBreak then doubleQuoted (gap.lineEnd g.char) none read rest
      else if g.char = '"' then some (String.ofList joined.reverse, rest)
      else if g.char = '\\' then
        match rest with
        | [] => none
        | h :: rest' =>
          if h.isBreak then doubleQuoted (.lines none []) none joined rest'
          else
            match escape? h.char with
            | none => none
            | some (.char c) => doubleQuoted .none none (c :: joined) rest'
            | some (.code digits) => doubleQuoted .none (some (digits, 0)) joined rest'
      else doubleQuoted .none none (g.char :: joined) rest

end Scalar

end SearchSync.Yaml

namespace SearchSync.Yaml.BlockScalar

inductive Chomping
  | strip
  | clip
  | keep
  deriving DecidableEq, Repr

structure Header where
  chomping : Chomping
  indent : Option Nat
  deriving DecidableEq, Repr

def chomping? : Char → Option Chomping
  | '+' => some .keep
  | '-' => some .strip
  | _ => none

def indent? (c : Char) : Option (Option Nat) :=
  if c = '0' then none
  else if c.isDigit then some (some (c.toNat - '0'.toNat))
  else some none

def indicators : List Glyph → Option (Header × List Glyph)
  | [] => some (⟨.clip, none⟩, [])
  | g :: rest =>
    match chomping? g.char with
    | some chomping =>
      match rest with
      | [] => some (⟨chomping, none⟩, [])
      | h :: rest' => do
        match ← indent? h.char with
        | some n => return (⟨chomping, some n⟩, rest')
        | none => return (⟨chomping, none⟩, rest)
    | none => do
      match ← indent? g.char with
      | none => return (⟨.clip, none⟩, g :: rest)
      | some n =>
        match rest with
        | [] => return (⟨.clip, some n⟩, [])
        | h :: rest' =>
          match chomping? h.char with
          | some chomping => return (⟨chomping, some n⟩, rest')
          | none => return (⟨.clip, some n⟩, rest)

def endOfLine (gs : List Glyph) : Option (List Glyph) :=
  let afterBlanks := gs.dropWhile (·.isBlank)
  let atEnd :=
    if Glyph.startsWithOneOf ['#'] afterBlanks then afterBlanks.dropWhile (!·.isBreak)
    else afterBlanks
  if Glyph.endLine atEnd then some (atEnd.drop 1) else none

/-- Reads the empty lines before the first line of text: the greatest column reached, their line
ends, and the rest from the text on. -/
def leadingLines (reached : Nat) (ends : List Char) :
    List Glyph → Option (Nat × List Char × List Glyph)
  | [] => some (reached, ends, [])
  | g :: rest =>
    if g.char = ' ' then leadingLines reached ends rest
    else if g.char = '\t' then none
    else if g.isBreak then leadingLines (max reached g.column) (ends ++ [g.char]) rest
    else some (max reached g.column, ends, g :: rest)

structure State where
  read : List Char
  inLine : Bool
  lineEnd : Option Char
  emptyEnds : List Char
  blankStart : Bool

/-- What stands between the last line of text and one that begins with `c`. A folded scalar turns
a single line end between two lines that do not begin with blanks into a space. -/
def State.joint (isFolded : Bool) (s : State) (c : Char) : List Char :=
  if isFolded && s.lineEnd = some '\n' && !s.blankStart && !isBlank c then
    if s.emptyEnds.isEmpty then [' '] else s.emptyEnds
  else s.lineEnd.toList ++ s.emptyEnds

def State.text (chomping : Chomping) (s : State) : String :=
  let tail :=
    match chomping with
    | .strip => []
    | .clip => s.lineEnd.toList
    | .keep => s.lineEnd.toList ++ s.emptyEnds
  String.ofList (s.read.reverse ++ tail)

def body (isFolded : Bool) (indent : Nat) (s : State) : List Glyph → Option (State × List Glyph)
  | [] => some (s, [])
  | g :: rest =>
    if s.inLine then
      if g.isBreak then body isFolded indent { s with inLine := false, lineEnd := some g.char } rest
      else body isFolded indent { s with read := g.char :: s.read } rest
    else if g.column < indent && g.char = ' ' then body isFolded indent s rest
    else if g.column < indent && g.char = '\t' then none
    else if g.isBreak then body isFolded indent { s with emptyEnds := s.emptyEnds ++ [g.char] } rest
    else if g.column = indent then
      body isFolded indent
        { read := g.char :: ((s.joint isFolded g.char).reverse ++ s.read)
          inLine := true
          lineEnd := none
          emptyEnds := []
          blankStart := isBlank g.char } rest
    else some (s, g :: rest)

def read (isFolded : Bool) (parent : Int) (gs : List Glyph) : Option (String × List Glyph) := do
  let (header, afterHeader) ← indicators gs
  let lines ← endOfLine afterHeader
  let start : State := ⟨[], false, none, [], false⟩
  match header.indent with
  | some n =>
    let indent := if 0 ≤ parent then parent.toNat + n else n
    let (s, rest) ← body isFolded indent start lines
    return (s.text header.chomping, rest)
  | none =>
    let (reached, ends, atText) ← leadingLines 0 [] lines
    let indent := max (max reached (parent + 1).toNat) 1
    let (s, rest) ← body isFolded indent { start with emptyEnds := ends } atText
    return (s.text header.chomping, rest)

end SearchSync.Yaml.BlockScalar
