import Datacenter.Table
import Datacenter.Text.Blank

/-!
# Names with options

A choice in a configuration is a name, possibly with options: `Name[first=1,second=2]`. Blanks
around names and values do not count, of several values for one option the last one holds, and a
part without an equals sign is passed over.
-/

namespace Datacenter

namespace Text

/-- What stands before and after the first occurrence of a character. -/
def splitFirst (sep : Char) : List Char → Option (List Char × List Char)
  | [] => none
  | c :: cs =>
    if c = sep then some ([], cs)
    else (splitFirst sep cs).map fun (before, after) => (c :: before, after)

/-- The parts between the occurrences of a character, at least one. -/
def splitAll (sep : Char) : List Char → List (List Char)
  | [] => [[]]
  | c :: cs =>
    if c = sep then [] :: splitAll sep cs
    else match splitAll sep cs with
      | [] => [[c]]
      | part :: parts => (c :: part) :: parts

end Text

/-- A name and the text of its options, if it has any. -/
structure Choice where
  name : String
  options : Option String
  deriving DecidableEq

/-- Options start at the first opening bracket; closing brackets do not count. -/
def Choice.ofText (text : String) : Choice :=
  match Text.splitFirst '[' text.toList with
  | some (name, options) =>
    ⟨String.ofList (Text.trim name), some (String.ofList (options.filter (· ≠ ']')))⟩
  | none => ⟨String.ofList (Text.trim text.toList), none⟩

abbrev OptionTable := Table String String

/-- Name and value of an option, without the blanks around them. -/
def readPair (part : List Char) : Option (String × String) :=
  (Text.splitFirst '=' part).map fun (name, value) =>
    (String.ofList (Text.trim name), String.ofList (Text.trim value))

/-- The options of a comma-separated text. -/
def OptionTable.ofText (text : String) : OptionTable :=
  ((Text.splitAll ',' text.toList).filterMap readPair).foldl
    (fun t (name, value) => t.insert name value) ∅

/-- An option whose value cannot be read. -/
structure OptionError where
  name : String
  value : String
  deriving DecidableEq

def OptionError.message (e : OptionError) : String :=
  "invalid value of option " ++ e.name ++ ": " ++ e.value

/-- The value of an option, if it is there. -/
def OptionTable.read {β : Type} (options : OptionTable) (reader : String → Option β)
    (name : String) : Except OptionError (Option β) :=
  match options.get? name with
  | none => .ok none
  | some text =>
    match reader text with
    | some value => .ok (some value)
    | none => .error ⟨name, text⟩

end Datacenter
