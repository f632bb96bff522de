/-!
# Characters of a YAML text with their places

Indentation and one-line keys depend on where a character stands. A text is a list of characters
with their places; it ends at the first null character. Only a line feed starts a new line for the
count of columns, while carriage returns break lines as well.
-/

namespace Datacenter.Yaml

structure Spot where
  char : Char
  index : Nat
  line : Nat
  column : Nat

/-- The characters from a place on. -/
def place (index line column : Nat) : List Char → List Spot
  | [] => []
  | c :: cs =>
    ⟨c, index, line, column⟩ ::
      if c = '\n' then place (index + 1) (line + 1) 0 cs
      else place (index + 1) line (column + 1) cs

def spots (text : String) : List Spot :=
  place 0 1 0 (text.toList.takeWhile (· ≠ '\x00'))

/-! ### Classes of characters -/

def isBlank (c : Char) : Bool := c == ' ' || c == '\t'

def isBreak (c : Char) : Bool := c == '\n' || c == '\r'

/-- Letters and digits, the underscore and the hyphen, as names have them. -/
def isWord (c : Char) : Bool := c.isAlphanum || c == '_' || c == '-'

/-- The indicators of flow collections. -/
def isFlow (c : Char) : Bool :=
  c == ',' || c == '[' || c == ']' || c == '\x7b' || c == '\x7d'

def isHexDigit (c : Char) : Bool :=
  c.isDigit || ('a' ≤ c && c ≤ 'f') || ('A' ≤ c && c ≤ 'F')

def hexDigit (c : Char) : Nat :=
  if c.isDigit then c.toNat - '0'.toNat
  else if 'a' ≤ c then c.toNat - 'a'.toNat + 10
  else c.toNat - 'A'.toNat + 10

/-! ### Looking ahead -/

/-- The text is at an end, or its next character has the property. -/
def endsOr (p : Char → Bool) : List Spot → Bool
  | [] => true
  | s :: _ => p s.char

/-- The next character has the property. -/
def startsWith (p : Char → Bool) : List Spot → Bool
  | [] => false
  | s :: _ => p s.char

def isSeparated (rest : List Spot) : Bool := endsOr (fun c => isBlank c || isBreak c) rest

def isLineEnd (rest : List Spot) : Bool := endsOr isBreak rest

def isChar (c : Char) (rest : List Spot) : Bool := startsWith (· == c) rest

/-- Three times the character at the start of a line, and nothing else up to a blank. -/
def isMarker (c : Char) : List Spot → Bool
  | a :: b :: d :: rest =>
    a.column == 0 && a.char == c && b.char == c && d.char == c && isSeparated rest
  | _ => false

/-- The start or the end of a document is marked here. -/
def isDocumentMarker (rest : List Spot) : Bool := isMarker '-' rest || isMarker '.' rest

def skipBlanks (rest : List Spot) : List Spot := rest.dropWhile (isBlank ·.char)

/-- Goes on to the end of the line. -/
def skipLine (rest : List Spot) : List Spot := rest.dropWhile (!isBreak ·.char)

/-- Passes over a comment, if one starts here. -/
def skipComment (rest : List Spot) : List Spot := if isChar '#' rest then skipLine rest else rest

/-- Passes over one line break, if there is one. A carriage return and a line feed are one. -/
def skipBreak : List Spot → List Spot
  | a :: b :: rest =>
    if a.char = '\r' ∧ b.char = '\n' then rest
    else if isBreak a.char then b :: rest
    else a :: b :: rest
  | [a] => if isBreak a.char then [] else [a]
  | [] => []

/-- The rest after blanks and a comment, if the line ends there. -/
def endOfLine (rest : List Spot) : Option (List Spot) :=
  let rest := skipComment (skipBlanks rest)
  if isLineEnd rest then some (skipBreak rest) else none

end Datacenter.Yaml
