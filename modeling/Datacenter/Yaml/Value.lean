import Datacenter.Decimal.Reader
import Datacenter.Yaml.Node

/-!
# Values of YAML nodes

A scalar stands for null, a truth value, a number or a text. A tag of the core schema says which, in
whatever style the scalar is written. Without a tag the spelling of a plain scalar says it, and any
other scalar is a text. Readers take a node as a value of a certain kind, or refuse it.
-/

namespace Datacenter.Yaml

/-- What a scalar stands for. -/
inductive Value where
  | null
  | bool (value : Bool)
  | integer (value : Int)
  | float (value : Float)
  | text

namespace Value

/-- The base that a mark in front of an integer announces, and the digits after it. -/
def splitBase : List Char → Nat × List Char
  | '0' :: 'x' :: digits => (16, digits)
  | '0' :: 'o' :: digits => (8, digits)
  | '0' :: 'b' :: digits => (2, digits)
  | digits => (10, digits)

/-- Value of the digits after the mark of a base. Without a mark they stand for themselves; after a
mark they may have a plus of their own, unless the number is negative. -/
def readMarked? (negative : Bool) (cs : List Char) : Option Nat :=
  match splitBase cs with
  | (10, digits) => Decimal.readDigits? 10 digits
  | (base, '+' :: digits) => if negative then none else Decimal.readDigits? base digits
  | (base, digits) => Decimal.readDigits? base digits

/-- Decimal digits that start with a needless zero are no number. -/
def hasNeedlessZero (digits : List Char) : Bool :=
  digits.head? == some '0' && 1 < digits.length && digits.all Char.isDigit

/-- An integer with an optional sign. Positive ones have at most 128 bits, and negative ones fit
into a word of 128 bits with a sign. -/
def readInteger? (cs : List Char) : Option Int :=
  let (negative, unsigned) := Decimal.splitSign cs
  if hasNeedlessZero unsigned then none
  else (readMarked? negative unsigned).bind fun n =>
    if negative then if n ≤ Nat.pow 2 127 then some (-(n : Int)) else none
    else if n < Nat.pow 2 128 then some n else none

/-- A word for an infinity, which may have pluses in front of it, or a minus, or a word for what is
no number. -/
def readSpecial? (cs : List Char) : Option Float :=
  let word := String.ofList (cs.dropWhile (· = '+'))
  if [".inf", ".Inf", ".INF"].contains word then some (1 / 0)
  else if ["-.inf", "-.Inf", "-.INF"].contains (String.ofList cs) then some (-(1 / 0))
  else if [".nan", ".NaN", ".NAN"].contains (String.ofList cs) then some (0 / 0)
  else none

/-- A special float, or a finite decimal number. -/
def readFloat? (cs : List Char) : Option Float :=
  match readSpecial? cs with
  | some value => some value
  | none =>
    if hasNeedlessZero (Decimal.splitSign cs).2 then none
    else (Decimal.readFloat? (String.ofList cs)).filter Float.isFinite

/-- The value of a plain scalar without a tag. -/
def ofPlain (text : String) : Value :=
  if ["~", "null"].contains text then null
  else match Decimal.readBool? text, readInteger? text.toList, readFloat? text.toList with
    | some value, _, _ => bool value
    | none, some value, _ => integer value
    | none, none, some value => float value
    | none, none, none => Value.text

/-- The value of a scalar with a tag of the core schema, which has to suit its text. -/
def ofTagged? (name text : String) : Option Value :=
  if name = "bool" then (Decimal.readBool? text).map bool
  else if name = "int" then (Decimal.readInt? 64 text).map integer
  else if name = "float" then (Decimal.readFloat? text).map float
  else if name = "null" then if ["~", "null"].contains text then some null else none
  else some Value.text

end Value

/-- The value of a scalar. -/
def Node.value? : Node → Option Value
  | scalar _ (some tag) text =>
    if tag.handle = "!!" then Value.ofTagged? tag.name text else some .text
  | scalar plain none text => some (if plain then .ofPlain text else .text)
  | _ => none

/-! ### Readers -/

/-- A reader of nodes refuses them or gives a result. It knows the nodes of the anchors. -/
abbrev Decoding (β : Type) := ReaderT (Table Nat Node) Option β

/-- The result of reading a document. -/
def Document.read? {β : Type} (d : Document) (reader : Node → Decoding β) : Option β :=
  (reader d.root).run d.anchored

namespace Node

/-- The node that a reference stands for, and any other node itself. -/
def target : Node → Decoding Node
  | reference anchor => do ((← read).get? anchor : Option Node)
  | node => return node

/-- The text of a scalar, whatever value it stands for. -/
def text (n : Node) : Decoding String := do
  match ← n.target with
  | scalar _ _ text => return text
  | _ => failure

def value (n : Node) : Decoding Value := do
  (← n.target).value?

def bool (n : Node) : Decoding Bool := do
  match ← n.value with
  | .bool value => return value
  | _ => failure

/-- A natural number of at most the given number of bits. -/
def nat (bits : Nat) (n : Node) : Decoding Nat := do
  match ← n.value with
  | .integer value =>
    if 0 ≤ value ∧ value < Nat.pow 2 bits then return value.toNat else failure
  | _ => failure

def word (n : Node) : Decoding UInt64 := return UInt64.ofNat (← n.nat 64)

/-- A float, or an integer of 64 bits. -/
def float (n : Node) : Decoding Float := do
  match ← n.value with
  | .float value => return value
  | .integer value =>
    if -Nat.pow 2 63 ≤ value ∧ value < Nat.pow 2 64 then return Float.ofInt value else failure
  | _ => failure

/-- Reads the items of a sequence. -/
def items {β : Type} (read : Node → Decoding β) (n : Node) : Decoding (List β) := do
  match ← n.target with
  | sequence items => items.mapM read
  | _ => failure

/-- Whether a node is null, as only plain scalars are. A tag that says so has to suit the text. -/
def isNull? : Node → Option Bool
  | scalar true none text => some (["~", "null"].contains text)
  | scalar true (some tag) text =>
    if tag = ⟨"!!", "null"⟩ then if ["~", "null"].contains text then some true else none
    else some false
  | _ => some false

/-- Reads a node that may be null. -/
def optional {β : Type} (read : Node → Decoding β) (n : Node) : Decoding (Option β) := do
  let node ← n.target
  if ← node.isNull? then return none else return some (← read node)

end Node

/-! ### Records -/

/-- The fields of a node that stands for a record. -/
structure Fields where
  pairs : List (String × Node)

/-- The fields of a record with the given keys. In a mapping other keys do not count, none of the
given ones stands twice, and all keys are scalars. A sequence has a value for each of the given
keys, in their order. -/
def Node.fields (keys : List String) (n : Node) : Decoding Fields := do
  match ← n.target with
  | mapping pairs =>
    let pairs ← pairs.mapM fun (key, value) => return (← key.text, value)
    let known := (pairs.map Prod.fst).filter keys.contains
    if known.Nodup then return ⟨pairs⟩ else failure
  | sequence items =>
    if items.length = keys.length then return ⟨keys.zip items⟩ else failure
  | _ => failure

namespace Fields

variable {β : Type}

/-- A field that has to be there. -/
def required (fields : Fields) (key : String) (read : Node → Decoding β) : Decoding β :=
  match fields.pairs.lookup key with
  | none => failure
  | some node => read node

/-- A field that may be left out, or be null. -/
def optional (fields : Fields) (key : String) (read : Node → Decoding β) : Decoding (Option β) :=
  match fields.pairs.lookup key with
  | none => return none
  | some node => node.optional read

end Fields

end Datacenter.Yaml
