import Datacenter.Yaml.Lexeme

/-!
# Tokens of a YAML text

Besides what is written, tokens mark where block collections start and end, which their indentation
says. A key on a line is recognised at the colon after it: its token is put in front of it then.
-/

namespace Datacenter.Yaml

inductive Token where
  | directive
  | documentStart
  | documentEnd
  | blockSequenceStart
  | blockMappingStart
  | blockEnd
  | flowSequenceStart
  | flowSequenceEnd
  | flowMappingStart
  | flowMappingEnd
  | blockEntry
  | flowEntry
  | key
  | value
  | reference (name : String)
  | anchor (name : String)
  | tag (tag : Tag)
  | scalar (plain : Bool) (text : String)
  deriving DecidableEq

/-- Where a key may have started. -/
structure KeyStart where
  possible : Bool
  /-- Anything but a key would be wrong here. -/
  required : Bool
  /-- Number of tokens before it. -/
  token : Nat
  index : Nat
  line : Nat
  column : Nat

def KeyStart.none : KeyStart := ⟨false, false, 0, 0, 0, 0⟩

/-- A key stands on one line and is at most 1024 characters long. -/
def KeyStart.expired (k : KeyStart) (here : Spot) : Bool :=
  k.line < here.line || k.index + 1024 < here.index

structure Scanner where
  rest : List Spot
  tokens : Array Token
  /-- A key may start here. -/
  keyAllowed : Bool
  /-- Start of a key in the innermost flow collection, or in the block. -/
  keyStart : KeyStart
  /-- Those of the flow collections around it, and of the block. -/
  outerKeys : List KeyStart
  /-- Column of the innermost block collection, -1 at the top. -/
  indentation : Int
  outerIndentations : List Int
  /-- Index of a colon that may stand right after a quoted key. -/
  adjacentValue : Option Nat

namespace Scanner

def start (text : String) : Scanner :=
  { rest := spots text, tokens := #[], keyAllowed := true, keyStart := .none, outerKeys := [],
    indentation := -1, outerIndentations := [], adjacentValue := none }

def inFlow (s : Scanner) : Bool := !s.outerKeys.isEmpty

def push (s : Scanner) (token : Token) : Scanner := { s with tokens := s.tokens.push token }

/-! ### Possible keys -/

/-- Gives up a possible key. A required one cannot be given up. -/
def dropKey (s : Scanner) : Option Scanner :=
  if s.keyStart.possible && s.keyStart.required then none
  else some { s with keyStart := { s.keyStart with possible := false } }

/-- Notes that a key may start here. -/
def noteKey (s : Scanner) (here : Spot) : Option Scanner :=
  if s.keyAllowed then do
    let required := s.inFlow && s.indentation == here.column
    let s ← s.dropKey
    some { s with
      keyStart := ⟨true, required, s.tokens.size, here.index, here.line, here.column⟩ }
  else some s

/-- Gives up possible keys that have become too long. -/
def expireKeys (s : Scanner) (here : Spot) : Option Scanner :=
  let stale (k : KeyStart) : Bool := k.possible && k.expired here
  let keys := s.keyStart :: s.outerKeys
  if keys.any fun k => stale k && k.required then none
  else
    let expire (k : KeyStart) : KeyStart := { k with possible := k.possible && !stale k }
    some { s with keyStart := expire s.keyStart, outerKeys := s.outerKeys.map expire }

/-! ### Indentation -/

/-- Opens a block collection at a column to the right of the current one. Its token is put in front
of the given number of tokens. -/
def openBlock (s : Scanner) (column : Nat) (position : Nat) (token : Token) : Scanner :=
  if s.inFlow || column ≤ s.indentation then s
  else
    { s with
      indentation := column
      outerIndentations := s.indentation :: s.outerIndentations
      tokens := s.tokens.insertIdxIfInBounds position token }

/-- Closes the block collections to the right of a column. -/
def closeBlocks (s : Scanner) (column : Int) : Scanner :=
  if s.inFlow then s
  else
    let closed := (s.indentation :: s.outerIndentations).takeWhile (column < ·)
    match (s.indentation :: s.outerIndentations).drop closed.length with
    | [] => s
    | indentation :: outer =>
      { s with
        indentation, outerIndentations := outer
        tokens := s.tokens ++ Array.replicate closed.length Token.blockEnd }

/-! ### Single tokens -/

/-- A directive or a mark of a document ends all block collections. -/
def beginDocumentPart (s : Scanner) : Option Scanner := do
  let s ← (s.closeBlocks (-1)).dropKey
  return { s with keyAllowed := false }

def documentMark (s : Scanner) (token : Token) : Option Scanner := do
  let s ← s.beginDocumentPart
  return { s with rest := s.rest.drop 3 }.push token

def directive (s : Scanner) : Option Scanner := do
  let s ← s.beginDocumentPart
  let rest ← readDirective (s.rest.drop 1)
  return { s with rest }.push .directive

/-- Opens a flow collection. At most 255 of them may be open at the same time. -/
def openFlow (s : Scanner) (here : Spot) (token : Token) : Option Scanner := do
  let s ← s.noteKey here
  if s.outerKeys.length < 255 then
    return { s with
      outerKeys := s.keyStart :: s.outerKeys, keyStart := .none, keyAllowed := true
      rest := s.rest.drop 1 }.push token
  else none

def closeFlow (s : Scanner) (token : Token) : Option Scanner := do
  let s ← s.dropKey
  let s := match s.outerKeys with
    | [] => s
    | keyStart :: outerKeys => { s with keyStart, outerKeys }
  return { s with keyAllowed := false, rest := s.rest.drop 1 }.push token

def flowEntry (s : Scanner) : Option Scanner := do
  let s ← s.dropKey
  return { s with keyAllowed := true, rest := s.rest.drop 1 }.push .flowEntry

def blockEntry (s : Scanner) (here : Spot) : Option Scanner :=
  if s.inFlow || !s.keyAllowed then none
  else do
    let s ← (s.openBlock here.column s.tokens.size .blockSequenceStart).dropKey
    return { s with keyAllowed := true, rest := s.rest.drop 1 }.push .blockEntry

/-- A key that a question mark announces. -/
def complexKey (s : Scanner) (here : Spot) : Option Scanner :=
  if !s.inFlow && !s.keyAllowed then none
  else do
    let s ← (s.openBlock here.column s.tokens.size .blockMappingStart).dropKey
    return { s with keyAllowed := !s.inFlow, rest := s.rest.drop 1 }.push .key

/-- A colon makes a key of what may have been one. -/
def value (s : Scanner) (here : Spot) : Option Scanner :=
  let k := s.keyStart
  if k.possible then
    let s := { s with tokens := s.tokens.insertIdxIfInBounds k.token .key }
    let s := s.openBlock k.column k.token .blockMappingStart
    some ({ s with
      keyStart := { k with possible := false }, keyAllowed := false
      rest := s.rest.drop 1 }.push .value)
  else if !s.inFlow && !s.keyAllowed then none
  else
    let s := s.openBlock here.column s.tokens.size .blockMappingStart
    some ({ s with keyAllowed := !s.inFlow, rest := s.rest.drop 1 }.push .value)

/-- A token that may start a key, read after its first characters. -/
def item (s : Scanner) (here : Spot) (skip : Nat)
    (read : List Spot → Option (Token × List Spot)) : Option Scanner := do
  let s ← s.noteKey here
  let (token, rest) ← read (s.rest.drop skip)
  return { s with keyAllowed := false, rest }.push token

def quoted (s : Scanner) (here : Spot) (single : Bool) (fuel : Nat) : Option Scanner := do
  let s ← s.item here 1 fun rest => do
    let (text, rest) ← readQuoted single [] rest fuel
    return (.scalar false (String.ofList text), rest)
  return { s with adjacentValue := s.rest.head?.map (·.index) }

def block (s : Scanner) (here : Spot) (folded : Bool) (fuel : Nat) : Option Scanner := do
  let s ← s.noteKey here
  let (text, rest) ← readBlock folded s.indentation (s.rest.drop 1) fuel
  return { s with keyAllowed := true, rest }.push (.scalar false (String.ofList text))

def plain (s : Scanner) (here : Spot) (fuel : Nat) : Option Scanner := do
  let s ← s.noteKey here
  let plain ← readPlain s.inFlow (s.indentation + 1).toNat [] ⟨[], 0⟩ s.rest fuel
  return { s with keyAllowed := plain.brokeLine, rest := plain.rest }.push
    (.scalar true (String.ofList plain.text))

/-! ### The whole text -/

/-- Passes over blanks, line breaks and comments. Outside of flow collections a key may start after
a line break, and tabs cannot stand where it may. -/
def skipSpace (inFlow inComment keyAllowed : Bool) : List Spot → Bool × List Spot
  | [] => (keyAllowed, [])
  | s :: rest =>
    if isBreak s.char then skipSpace inFlow false (keyAllowed || !inFlow) rest
    else if inComment then skipSpace inFlow true keyAllowed rest
    else if s.char = ' ' || (s.char = '\t' && (inFlow || !keyAllowed)) then
      skipSpace inFlow false keyAllowed rest
    else if s.char = '#' then skipSpace inFlow true keyAllowed rest
    else (keyAllowed, s :: rest)

/-- Reads the token that starts at the first character of the rest. The fuel is more than what is
left to read. -/
def token (s : Scanner) (here : Spot) (later : List Spot) (fuel : Nat) : Option Scanner :=
  let c := here.char
  let separated := isSeparated later
  if here.column = 0 ∧ c = '%' then s.directive
  else if isMarker '-' s.rest then s.documentMark .documentStart
  else if isMarker '.' s.rest then s.documentMark .documentEnd
  else if c = '[' then s.openFlow here .flowSequenceStart
  else if c = '\x7b' then s.openFlow here .flowMappingStart
  else if c = ']' then s.closeFlow .flowSequenceEnd
  else if c = '\x7d' then s.closeFlow .flowMappingEnd
  else if c = ',' then s.flowEntry
  else if c = '-' ∧ separated then s.blockEntry here
  else if c = '?' ∧ separated then s.complexKey here
  else if c = ':' ∧ (separated
      || (s.inFlow && (startsWith isFlow later || s.adjacentValue == some here.index))) then
    s.value here
  else if c = '*' then
    s.item here 1 fun rest => (readAnchor rest).map fun (name, rest) => (.reference name, rest)
  else if c = '&' then
    s.item here 1 fun rest => (readAnchor rest).map fun (name, rest) => (.anchor name, rest)
  else if c = '!' then
    s.item here 0 fun rest => (readTag rest fuel).map fun (tag, rest) => (.tag tag, rest)
  else if c = '|' ∧ !s.inFlow then s.block here false fuel
  else if c = '>' ∧ !s.inFlow then s.block here true fuel
  else if c = '\x27' then s.quoted here true fuel
  else if c = '\x22' then s.quoted here false fuel
  else if c = '%' ∨ c = '@' ∨ c = '\x60' then none
  else s.plain here fuel

/-- Reads tokens up to the end of the text, at most as many as the fuel allows. -/
def run (s : Scanner) : Nat → Option (Array Token)
  | 0 => none
  | fuel + 1 => do
    let (keyAllowed, rest) := skipSpace s.inFlow false s.keyAllowed s.rest
    let s := { s with keyAllowed, rest }
    match rest with
    | [] => do
      let s ← (s.closeBlocks (-1)).dropKey
      return s.tokens
    | here :: later => do
      let s ← s.expireKeys here
      let s ← (s.closeBlocks here.column).token here later (fuel + 1)
      s.run fuel

end Scanner

/-- The tokens of a text. Each one takes up at least one character. -/
def Token.ofText? (text : String) : Option (List Token) :=
  ((Scanner.start text).run (text.length + 1)).map Array.toList

end Datacenter.Yaml
