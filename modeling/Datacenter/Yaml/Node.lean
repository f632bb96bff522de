import Datacenter.Table
import Datacenter.Yaml.Token

/-!
# The nodes of a YAML document

A document is a tree of scalars, sequences, mappings and references, which stand for the nodes that
anchors name. An anchor counts from its name on, so a reference may stand inside of the node that it
stands for. What is left out where a node may stand counts as the null scalar, but after an anchor
or a tag as an empty text. A text with several documents is refused.
-/

namespace Datacenter.Yaml

inductive Node where
  | scalar (plain : Bool) (tag : Option Tag) (text : String)
  | sequence (items : List Node)
  | mapping (pairs : List (Node × Node))
  | reference (anchor : Nat)

namespace Node

/-- The scalar that stands for a node that is left out. -/
def absent : Node := scalar true none "~"

instance : Inhabited Node := ⟨absent⟩

end Node

/-- A tree with the nodes of its anchors, which are numbered in the order of their names. -/
structure Document where
  root : Node
  anchored : Table Nat Node

/-- Where a node stands. -/
inductive Place where
  | inFlow
  | inBlock
  /-- Next to a key of a block mapping, where entries of a sequence need no indentation. -/
  | besideKey
  deriving DecidableEq

/-- What may stand in front of the content of a node. -/
structure Properties where
  anchor : Option String
  tag : Option Tag

namespace Properties

def areEmpty (p : Properties) : Bool := p.anchor.isNone && p.tag.isNone

/-- Splits off an anchor and a tag, in either order. -/
def take : List Token → Properties × List Token
  | .anchor name :: .tag tag :: rest => (⟨some name, some tag⟩, rest)
  | .tag tag :: .anchor name :: rest => (⟨some name, some tag⟩, rest)
  | .anchor name :: rest => (⟨some name, none⟩, rest)
  | .tag tag :: rest => (⟨none, some tag⟩, rest)
  | rest => (⟨none, none⟩, rest)

end Properties

/-- Tokens to read, and what names of anchors stand for. -/
structure NodeReader where
  tokens : List Token
  /-- The anchor of a name, which a later one with the same name replaces. -/
  anchors : Table String Nat
  /-- The nodes of anchors that have been read to their ends. -/
  anchored : Table Nat Node
  nextAnchor : Nat

namespace NodeReader

def ofTokens (tokens : List Token) : NodeReader := ⟨tokens, ∅, ∅, 0⟩

/-- The reader after its next token. -/
def skip (r : NodeReader) : NodeReader := { r with tokens := r.tokens.drop 1 }

/-- The next token is one of the given ones. -/
def isAt (r : NodeReader) (tokens : List Token) : Bool := r.tokens.head?.any tokens.contains

/-- Passes over the comma in front of each item of a flow collection but the first one. -/
def skipComma (r : NodeReader) (first : Bool) : Option NodeReader :=
  if first then some r else if r.isAt [.flowEntry] then some r.skip else none

/-! ### Anchors -/

/-- The reference to what a name stands for at this point. -/
def reference? (r : NodeReader) (name : String) : Option Node :=
  (r.anchors.get? name).map .reference

/-- Declares the anchor, reads the content, and keeps it as the node of the anchor. -/
def declare (r : NodeReader) (anchor : Option String)
    (content : NodeReader → Option (Node × NodeReader)) : Option (Node × NodeReader) :=
  match anchor with
  | none => content r
  | some name => do
    let declared := { r with
      anchors := r.anchors.insert name r.nextAnchor, nextAnchor := r.nextAnchor + 1 }
    let (node, after) ← content declared
    return (node, { after with anchored := after.anchored.insert r.nextAnchor node })

/-! ### Nodes -/

mutual

def node (r : NodeReader) (place : Place) : Nat → Option (Node × NodeReader)
  | 0 => none
  | fuel + 1 =>
    match r.tokens with
    | .reference name :: _ => (r.reference? name).map fun target => (target, r.skip)
    | tokens =>
      let (properties, tokens) := Properties.take tokens
      { r with tokens }.declare properties.anchor fun r => r.content place properties fuel
termination_by structural fuel => fuel

/-- Reads what follows the properties of a node. If nothing does, its text is empty. -/
def content (r : NodeReader) (place : Place) (properties : Properties) :
    Nat → Option (Node × NodeReader)
  | 0 => none
  | fuel + 1 =>
    let sequence (x : Option (List Node × NodeReader)) :=
      x.map fun (items, r) => (.sequence items, r)
    let mapping (x : Option (List (Node × Node) × NodeReader)) :=
      x.map fun (pairs, r) => (.mapping pairs, r)
    let bare := if properties.areEmpty then none else some (.scalar true properties.tag "", r)
    match r.tokens with
    | .scalar plain text :: _ => some (.scalar plain properties.tag text, r.skip)
    | .flowSequenceStart :: _ => sequence (r.skip.flowItems true fuel)
    | .flowMappingStart :: _ => mapping (r.skip.flowPairs true fuel)
    | .blockEntry :: _ =>
      if place = .besideKey then sequence (r.openItems fuel) else bare
    | .blockSequenceStart :: _ =>
      if place = .inFlow then bare else sequence (r.skip.blockItems fuel)
    | .blockMappingStart :: _ =>
      if place = .inFlow then bare else mapping (r.skip.blockPairs fuel)
    | _ => bare
termination_by structural fuel => fuel

/-- Reads a node that may be left out in front of the given tokens. -/
def nodeBefore (r : NodeReader) (ends : List Token) (place : Place) :
    Nat → Option (Node × NodeReader)
  | 0 => none
  | fuel + 1 => if r.isAt ends then some (.absent, r) else r.node place fuel
termination_by structural fuel => fuel

/-- Reads a key with its indicator, or nothing without one. -/
def key (r : NodeReader) (ends : List Token) (place : Place) :
    Nat → Option (Node × NodeReader)
  | 0 => none
  | fuel + 1 =>
    if r.isAt [.key] then r.skip.nodeBefore ends place fuel else some (.absent, r)
termination_by structural fuel => fuel

/-- Reads a value with its indicator, or nothing without one. -/
def value (r : NodeReader) (ends : List Token) (place : Place) :
    Nat → Option (Node × NodeReader)
  | 0 => none
  | fuel + 1 =>
    if r.isAt [.value] then r.skip.nodeBefore ends place fuel else some (.absent, r)
termination_by structural fuel => fuel

/-- Reads the rest of a block mapping. -/
def blockPairs (r : NodeReader) : Nat → Option (List (Node × Node) × NodeReader)
  | 0 => none
  | fuel + 1 =>
    if r.isAt [.blockEnd] then some ([], r.skip)
    else if r.isAt [.key, .value] then do
      let ends := [.key, .value, .blockEnd]
      let (key, r) ← r.key ends .besideKey fuel
      let (value, r) ← r.value ends .besideKey fuel
      let (pairs, r) ← r.blockPairs fuel
      return ((key, value) :: pairs, r)
    else none
termination_by structural fuel => fuel

/-- Reads the rest of a block sequence. -/
def blockItems (r : NodeReader) : Nat → Option (List Node × NodeReader)
  | 0 => none
  | fuel + 1 =>
    if r.isAt [.blockEnd] then some ([], r.skip)
    else if r.isAt [.blockEntry] then do
      let (item, r) ← r.skip.nodeBefore [.blockEntry, .blockEnd] .inBlock fuel
      let (items, r) ← r.blockItems fuel
      return (item :: items, r)
    else none
termination_by structural fuel => fuel

/-- Reads the rest of a block sequence that is not indented. It ends at anything but an entry. -/
def openItems (r : NodeReader) : Nat → Option (List Node × NodeReader)
  | 0 => none
  | fuel + 1 =>
    if r.isAt [.blockEntry] then do
      let ends := [.blockEntry, .key, .value, .blockEnd]
      let (item, r) ← r.skip.nodeBefore ends .inBlock fuel
      let (items, r) ← r.openItems fuel
      return (item :: items, r)
    else some ([], r)
termination_by structural fuel => fuel

/-- Reads the rest of a flow mapping. -/
def flowPairs (r : NodeReader) (first : Bool) :
    Nat → Option (List (Node × Node) × NodeReader)
  | 0 => none
  | fuel + 1 =>
    if r.isAt [.flowMappingEnd] then some ([], r.skip)
    else do
      let r ← r.skipComma first
      if r.isAt [.flowMappingEnd] then some ([], r.skip)
      else
        let (key, value, r) ←
          if r.isAt [.key, .value] then do
            let (key, r) ← r.key [.value, .flowEntry, .flowMappingEnd] .inFlow fuel
            let (value, r) ← r.value [.flowEntry, .flowMappingEnd] .inFlow fuel
            some (key, value, r)
          else do
            let (key, r) ← r.node .inFlow fuel
            some (key, .absent, r)
        let (pairs, r) ← r.flowPairs false fuel
        return ((key, value) :: pairs, r)
termination_by structural fuel => fuel

/-- Reads the rest of a flow sequence. -/
def flowItems (r : NodeReader) (first : Bool) :
    Nat → Option (List Node × NodeReader)
  | 0 => none
  | fuel + 1 =>
    if r.isAt [.flowSequenceEnd] then some ([], r.skip)
    else do
      let r ← r.skipComma first
      if r.isAt [.flowSequenceEnd] then some ([], r.skip)
      else
        let (item, r) ←
          if r.isAt [.key] then r.skip.flowPair fuel else r.node .inFlow fuel
        let (items, r) ← r.flowItems false fuel
        return (item :: items, r)
termination_by structural fuel => fuel

/-- Reads a mapping of one pair, which stands in a flow sequence without brackets. -/
def flowPair (r : NodeReader) : Nat → Option (Node × NodeReader)
  | 0 => none
  | fuel + 1 => do
    let (key, r) ←
      if r.isAt [.value, .flowEntry, .flowSequenceEnd] then some (.absent, r.skip)
      else r.node .inFlow fuel
    let (value, r) ← r.value [.flowEntry, .flowSequenceEnd] .inFlow fuel
    return (.mapping [(key, value)], r)
termination_by structural fuel => fuel

end

end NodeReader

namespace Document

/-- The only document of a text. -/
def ofTokens? (tokens : List Token) : Option Document := do
  let body := tokens.dropWhile (· = .directive)
  let marked := body.head? = some .documentStart
  if tokens.isEmpty ∨ (tokens.head? = some .directive ∧ ¬marked) then none
  else
    let r := NodeReader.ofTokens (if marked then body.drop 1 else body)
    let (root, r) ←
      if marked ∧ (r.tokens.isEmpty ∨ r.isAt [.directive, .documentStart, .documentEnd]) then
        some (.absent, r)
      else r.node .inBlock (4 * tokens.length + 8)
    if r.tokens.all (· = .documentEnd) then some ⟨root, r.anchored⟩ else none

def ofText? (text : String) : Option Document := (Token.ofText? text).bind ofTokens?

end Document

end Datacenter.Yaml
