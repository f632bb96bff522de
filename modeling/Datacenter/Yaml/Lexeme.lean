import Datacenter.Yaml.Spot

/-!
# Scalars, anchors, tags and directives of a YAML text

Each reader takes the text from its first character on and gives what it read, and the rest. It
gives nothing if the text is not well-formed.
-/

namespace Datacenter.Yaml

/-! ### Space between the words of a scalar -/

/-- Blanks and line breaks. Blanks beside a line break do not count. -/
structure Gap where
  blanks : List Char
  breaks : Nat

/-- The text that stands for a gap: its blanks, or for line breaks one fewer, and a space for a
single one. -/
def Gap.text (gap : Gap) : List Char :=
  if gap.breaks = 0 then gap.blanks
  else if gap.breaks = 1 then [' ']
  else List.replicate (gap.breaks - 1) '\n'

/-- Reads a gap. A tab in the indentation, left of the given column, is refused. -/
def readGap (column : Nat) (gap : Gap) : List Spot → Option (Gap × List Spot)
  | [] => some (gap, [])
  | s :: rest =>
    if isBlank s.char then
      if gap.breaks = 0 then readGap column { gap with blanks := gap.blanks ++ [s.char] } rest
      else if s.char = '\t' ∧ s.column < column then none
      else readGap column gap rest
    else if isBreak s.char then
      if s.char = '\r' ∧ isChar '\n' rest then readGap column gap rest
      else readGap column ⟨[], gap.breaks + 1⟩ rest
    else some (gap, s :: rest)

/-! ### Plain scalars -/

/-- The characters up to a blank, or to an indicator that ends a plain scalar. -/
def takeWord (inFlow : Bool) : List Spot → List Char × List Spot
  | [] => ([], [])
  | s :: rest =>
    if isBlank s.char || isBreak s.char then ([], s :: rest)
    else if s.char = ':' ∧ (isSeparated rest || (inFlow && startsWith isFlow rest)) then
      ([], s :: rest)
    else if inFlow && isFlow s.char then ([], s :: rest)
    else
      let (word, rest) := takeWord inFlow rest
      (s.char :: word, rest)

/-- A plain scalar, and whether it is followed by a line break. -/
structure PlainText where
  text : List Char
  brokeLine : Bool
  rest : List Spot

/-- Reads words and gaps in turn, after characters that are given last one first. Outside of flow
collections the words stand at the given column or to the right of it. -/
def readPlain (inFlow : Bool) (column : Nat) (before : List Char) (gap : Gap) (rest : List Spot) :
    Nat → Option PlainText
  | 0 => none
  | fuel + 1 =>
    if isDocumentMarker rest || isChar '#' rest then some ⟨before.reverse, 0 < gap.breaks, rest⟩
    else
      let (word, afterWord) := takeWord inFlow rest
      let before := if word.isEmpty then before else (gap.text ++ word).reverse ++ before
      let gap := if word.isEmpty then gap else ⟨[], 0⟩
      if !startsWith (fun c => isBlank c || isBreak c) afterWord then
        some ⟨before.reverse, 0 < gap.breaks, afterWord⟩
      else do
        let (gap, rest) ← readGap column gap afterWord
        match rest with
        | s :: _ =>
          if !inFlow && s.column < column then some ⟨before.reverse, 0 < gap.breaks, rest⟩
          else readPlain inFlow column before gap rest fuel
        | [] => some ⟨before.reverse, 0 < gap.breaks, []⟩

/-! ### Quoted scalars -/

/-- What an escape sequence with a single letter stands for. -/
def simpleEscape? : Char → Option Char
  | '0' => some '\x00'
  | 'a' => some '\x07'
  | 'b' => some '\x08'
  | 't' => some '\t'
  | '\t' => some '\t'
  | 'n' => some '\n'
  | 'v' => some '\x0b'
  | 'f' => some '\x0c'
  | 'r' => some '\r'
  | 'e' => some '\x1b'
  | ' ' => some ' '
  | '\x22' => some '\x22'
  | '\x27' => some '\x27'
  | '\\' => some '\\'
  | 'N' => some '\u0085'
  | '_' => some '\u00a0'
  | 'L' => some '\u2028'
  | 'P' => some '\u2029'
  | _ => none

/-- Number of hexadecimal digits after the letter of an escape sequence. -/
def escapeLength? : Char → Option Nat
  | 'x' => some 2
  | 'u' => some 4
  | 'U' => some 8
  | _ => none

/-- The character with a code point given by hexadecimal digits. -/
def charOfHex? (digits : List Char) : Option Char :=
  if digits.all isHexDigit then
    let code := digits.foldl (fun n c => 16 * n + hexDigit c) 0
    if code.isValidChar then some (Char.ofNat code) else none
  else none

/-- Reads an escape sequence after its backslash. -/
def readEscape : List Spot → Option (Char × List Spot)
  | [] => none
  | s :: rest =>
    match simpleEscape? s.char, escapeLength? s.char with
    | some c, _ => some (c, rest)
    | none, some length => do
      let digits := (rest.take length).map (·.char)
      if digits.length < length then none
      else
        let c ← charOfHex? digits
        some (c, rest.drop length)
    | none, none => none

/-- Characters of a quoted scalar up to a blank, a line break or the closing quote. -/
structure QuotedPart where
  text : List Char
  /-- Ended by a line break that a backslash takes away. -/
  joined : Bool
  rest : List Spot

/-- Reads a part after characters that are given last one first. -/
def readSinglePart (before : List Char) : List Spot → QuotedPart
  | a :: b :: rest =>
    if a.char = '\x27' ∧ b.char = '\x27' then readSinglePart ('\x27' :: before) rest
    else if a.char = '\x27' || isBlank a.char || isBreak a.char then
      ⟨before.reverse, false, a :: b :: rest⟩
    else readSinglePart (a.char :: before) (b :: rest)
  | [a] =>
    if a.char = '\x27' || isBlank a.char || isBreak a.char then ⟨before.reverse, false, [a]⟩
    else ⟨(a.char :: before).reverse, false, []⟩
  | [] => ⟨before.reverse, false, []⟩

/-- Reads a part after characters that are given last one first. -/
def readDoublePart (before : List Char) (rest : List Spot) : Nat → Option QuotedPart
  | 0 => none
  | fuel + 1 =>
    match rest with
    | [] => some ⟨before.reverse, false, []⟩
    | s :: rest =>
      if s.char = '\x22' || isBlank s.char || isBreak s.char then
        some ⟨before.reverse, false, s :: rest⟩
      else if s.char = '\\' then
        if startsWith isBreak rest then some ⟨before.reverse, true, skipBreak rest⟩
        else do
          let (c, rest) ← readEscape rest
          readDoublePart (c :: before) rest fuel
      else readDoublePart (s.char :: before) rest fuel

/-- Reads the parts and gaps of a quoted scalar up to the closing quote, after characters that are
given last one first. A line break after a backslash takes the blanks after it away, and further
line breaks count in full. -/
def readQuoted (single : Bool) (before : List Char) (rest : List Spot) :
    Nat → Option (List Char × List Spot)
  | 0 => none
  | fuel + 1 => do
    if isDocumentMarker rest || rest.isEmpty then none
    else
      let part ←
        if single then some (readSinglePart [] rest) else readDoublePart [] rest (fuel + 1)
      let before := part.text.reverse ++ before
      if isChar (if single then '\x27' else '\x22') part.rest then
        some (before.reverse, part.rest.drop 1)
      else if part.joined then
        let (gap, rest) ← readGap 0 ⟨[], 1⟩ part.rest
        readQuoted single (List.replicate (gap.breaks - 1) '\n' ++ before) rest fuel
      else
        let (gap, rest) ← readGap 0 ⟨[], 0⟩ part.rest
        readQuoted single (gap.text.reverse ++ before) rest fuel

/-! ### Block scalars -/

/-- What becomes of the line breaks at the end of a block scalar. -/
inductive Chomping where
  | strip
  | clip
  | keep
  deriving DecidableEq

structure BlockHeader where
  chomping : Chomping
  /-- Indentation relative to the enclosing block, if it is given. -/
  indentation : Option Nat

/-- A nonzero digit, if one is there. Zero is refused. -/
def readIndentation : List Spot → Option (Option Nat × List Spot)
  | [] => some (none, [])
  | s :: rest =>
    if s.char = '0' then none
    else if s.char.isDigit then some (some (hexDigit s.char), rest)
    else some (none, s :: rest)

def readChomping : List Spot → Chomping × List Spot
  | [] => (.clip, [])
  | s :: rest =>
    if s.char = '+' then (.keep, rest)
    else if s.char = '-' then (.strip, rest)
    else (.clip, s :: rest)

/-- The two indicators in either order, and the rest of their line. -/
def readBlockHeader (rest : List Spot) : Option (BlockHeader × List Spot) := do
  let (chomping, afterChomping) := readChomping rest
  let (indentation, rest) ← readIndentation afterChomping
  let (chomping, rest) :=
    if chomping = .clip ∧ indentation.isSome then readChomping rest else (chomping, rest)
  let rest ← endOfLine rest
  return (⟨chomping, indentation⟩, rest)

/-- Passes over indentation and empty lines. Gives the number of line breaks and the deepest column.
Without an indentation any number of spaces counts as such. -/
def skipEmptyLines (indentation : Option Nat) (breaks deepest : Nat) :
    List Spot → Option (Nat × Nat × List Spot)
  | [] => some (breaks, deepest, [])
  | s :: rest =>
    let within := indentation.all (s.column < ·)
    if within && s.char = ' ' then skipEmptyLines indentation breaks deepest rest
    else if within && s.char = '\t' then none
    else
      let deepest := max deepest s.column
      if !isBreak s.char then some (breaks, deepest, s :: rest)
      else
        match rest with
        | [] => some (breaks + 1, deepest, [])
        | t :: later =>
          if s.char = '\r' ∧ t.char = '\n' then
            skipEmptyLines indentation (breaks + 1) deepest later
          else skipEmptyLines indentation (breaks + 1) deepest (t :: later)

/-- The lines read so far, the break after the last one, and the empty lines after it. -/
structure BlockLines where
  /-- The text backwards. -/
  text : List Char
  lastBreak : Bool
  emptyLines : Nat
  /-- The last line starts with a blank. -/
  blankStart : Bool

/-- The text backwards up to its next line. In a folded scalar a line break between two lines that
start with no blank becomes a space, or counts for nothing beside empty lines. -/
def BlockLines.join (folded : Bool) (lines : BlockLines) (blankStart : Bool) : List Char :=
  let folds := folded && lines.lastBreak && !lines.blankStart && !blankStart
  let separator :=
    if folds then (if lines.emptyLines = 0 then [' '] else [])
    else if lines.lastBreak then ['\n'] else []
  List.replicate lines.emptyLines '\n' ++ separator ++ lines.text

/-- Reads the lines that start at the column. -/
def readBlockLines (folded : Bool) (column : Nat) (lines : BlockLines) (rest : List Spot) :
    Nat → Option (BlockLines × List Spot)
  | 0 => none
  | fuel + 1 =>
    match rest with
    | [] => some (lines, [])
    | s :: _ =>
      if s.column ≠ column then some (lines, rest)
      else
        let blankStart := isBlank s.char
        let line := (rest.takeWhile (!isBreak ·.char)).map (·.char)
        let text := line.reverse ++ lines.join folded blankStart
        let afterLine := skipLine rest
        if afterLine.isEmpty then some (⟨text, false, 0, blankStart⟩, [])
        else do
          let (breaks, _, rest) ← skipEmptyLines (some column) 0 0 (skipBreak afterLine)
          readBlockLines folded column ⟨text, true, breaks, blankStart⟩ rest fuel

/-- Reads a block scalar after its first character. The enclosing block has the given indentation,
-1 at the top. -/
def readBlock (folded : Bool) (enclosing : Int) (rest : List Spot) (fuel : Nat) :
    Option (List Char × List Spot) := do
  let (header, rest) ← readBlockHeader rest
  let given := header.indentation.map fun n => enclosing.toNat + n
  let (breaks, deepest, rest) ← skipEmptyLines given 0 0 rest
  let column := given.getD (max deepest (max (enclosing + 1).toNat 1))
  let (lines, rest) ← readBlockLines folded column ⟨[], false, breaks, false⟩ rest fuel
  let tail := if lines.lastBreak ∧ header.chomping ≠ .strip then ['\n'] else []
  let kept := if header.chomping = .keep then List.replicate lines.emptyLines '\n' else []
  return (lines.text.reverse ++ tail ++ kept, rest)

/-! ### Anchors and tags -/

/-- Reads the name of an anchor. -/
def readAnchor (rest : List Spot) : Option (String × List Spot) :=
  let name := (rest.takeWhile (isWord ·.char)).map (·.char)
  let rest := rest.dropWhile (isWord ·.char)
  let ended := isSeparated rest
    || startsWith (['?', ':', ',', ']', '\x7d', '%', '@', '\x60'].contains ·) rest
  if name.isEmpty || !ended then none else some (String.ofList name, rest)

def isUriChar (c : Char) : Bool :=
  isWord c || [';', '/', '?', ':', '@', '&', '=', '+', '$', ',', '.', '!', '~', '*', '\x27', '(',
    ')', '[', ']', '%'].contains c

/-- Number of octets in the form of a character whose first octet is given. -/
def octetCount? (first : Nat) : Option Nat :=
  if first < 0x80 then some 1
  else if first / 0x20 = 6 then some 2
  else if first / 0x10 = 14 then some 3
  else if first / 8 = 30 then some 4
  else none

/-- Octets after a first one, two hexadecimal digits after a percent sign each. -/
def readOctets (code : Nat) : Nat → List Spot → Option (Nat × List Spot)
  | 0, rest => some (code, rest)
  | count + 1, p :: a :: b :: rest =>
    let octet := 16 * hexDigit a.char + hexDigit b.char
    if p.char = '%' ∧ isHexDigit a.char ∧ isHexDigit b.char ∧ octet / 0x40 = 2 then
      readOctets (256 * code + octet) count rest
    else none
  | _ + 1, _ => none

/-- An escaped character. Its octets count as they stand, one after the other. -/
def readUriEscape : List Spot → Option (Char × List Spot)
  | p :: a :: b :: rest => do
    if p.char = '%' ∧ isHexDigit a.char ∧ isHexDigit b.char then
      let first := 16 * hexDigit a.char + hexDigit b.char
      let count ← octetCount? first
      let (code, rest) ← readOctets first (count - 1) rest
      if code.isValidChar then some (Char.ofNat code, rest) else none
    else none
  | _ => none

/-- Reads the characters of a name or an address after some others, which are given backwards. -/
def readUri (before : List Char) (rest : List Spot) : Nat → Option (List Char × List Spot)
  | 0 => none
  | fuel + 1 =>
    match rest with
    | [] => some (before.reverse, [])
    | s :: later =>
      if s.char = '%' then do
        let (c, rest) ← readUriEscape rest
        readUri (c :: before) rest fuel
      else if isUriChar s.char then readUri (s.char :: before) later fuel
      else some (before.reverse, rest)

/-- A tag: the handle that says where its name comes from, and the name. -/
structure Tag where
  handle : String
  name : String
  deriving DecidableEq

/-- Reads a handle, which starts with an exclamation mark and may end with another one. -/
def readHandle : List Spot → Option (List Char × List Spot)
  | [] => none
  | s :: rest =>
    if s.char ≠ '!' then none
    else
      let word := (rest.takeWhile (isWord ·.char)).map (·.char)
      let rest := rest.dropWhile (isWord ·.char)
      if isChar '!' rest then some ('!' :: word ++ ['!'], rest.drop 1)
      else some ('!' :: word, rest)

/-- Reads a tag with its first character. -/
def readTag (rest : List Spot) (fuel : Nat) : Option (Tag × List Spot) := do
  let (tag, rest) ←
    if startsWith (· == '<') (rest.drop 1) then do
      let (uri, rest) ← readUri [] (rest.drop 2) fuel
      if uri.isEmpty || !isChar '>' rest then none
      else some (Tag.mk "" (String.ofList uri), rest.drop 1)
    else do
      let (handle, rest) ← readHandle rest
      if 2 ≤ handle.length ∧ handle.getLast? = some '!' then
        let (uri, rest) ← readUri [] rest fuel
        if uri.isEmpty then none
        else some (Tag.mk (String.ofList handle) (String.ofList uri), rest)
      else
        let (uri, rest) ← readUri (handle.drop 1).reverse rest fuel
        if uri.isEmpty then some (Tag.mk "" "!", rest)
        else some (Tag.mk "!" (String.ofList uri), rest)
  if isSeparated rest then some (tag, rest) else none

/-! ### Directives -/

/-- Reads a number of at most nine digits. -/
def readVersionNumber (rest : List Spot) : Option (List Spot) :=
  let digits := rest.takeWhile (·.char.isDigit)
  if digits.isEmpty ∨ 9 < digits.length then none
  else some (rest.dropWhile (·.char.isDigit))

def readVersion (rest : List Spot) : Option (List Spot) := do
  let rest ← readVersionNumber (skipBlanks rest)
  if isChar '.' rest then readVersionNumber (rest.drop 1) else none

def readTagDeclaration (rest : List Spot) : Option (List Spot) := do
  let (handle, rest) ← readHandle (skipBlanks rest)
  if handle ≠ ['!'] ∧ (handle.length < 2 ∨ handle.getLast? ≠ some '!') then none
  else
    let rest := skipBlanks rest
    let (uri, rest) ← readUri [] rest (rest.length + 1)
    if uri.isEmpty || !isSeparated rest then none else some rest

/-- Reads a directive after its percent sign. Directives change nothing. -/
def readDirective (rest : List Spot) : Option (List Spot) := do
  let name := String.ofList ((rest.takeWhile (isWord ·.char)).map (·.char))
  let rest := rest.dropWhile (isWord ·.char)
  if name.isEmpty || !isSeparated rest then none
  else
    let rest ←
      if name = "YAML" then readVersion rest
      else if name = "TAG" then readTagDeclaration rest
      else some (skipLine rest)
    endOfLine rest

end Datacenter.Yaml
