import Datacenter.FileError

/-!
# Folders and files

A path leads from folder to folder, and its last name is that of a file or of a folder. Reading
finds an empty file, or a reason why there is nothing to read; writing adds a file, or has a reason
why it does not. Reasons that lie in the path itself come first.
-/

namespace Datacenter

/-- The names on the way from the working folder, or from the root, which is named by a slash. -/
abbrev Route := List String

namespace Route

/-- The names of a path. Slashes at its end do not count. -/
def ofPath (path : String) : Route :=
  let names := if path.startsWith "/" then "/" :: (path.splitOn "/").drop 1 else path.splitOn "/"
  (names.reverse.dropWhile (· = "")).reverse

/-- The route to the folder around. -/
def up (route : Route) : Route :=
  match route.getLast? with
  | none | some ".." => route ++ [".."]
  | some "/" => route
  | some _ => route.dropLast

end Route

/-- The folders that there are, besides the working folder and those around it, and the files, which
are all empty. -/
structure FileTree where
  folders : List Route
  files : List Route

namespace FileTree

/-- The folder of a name in a folder. Empty names and single dots lead nowhere. -/
def enter (tree : FileTree) (route : Route) (name : String) : Except FileError Route :=
  if name = "" ∨ name = "." then .ok route
  else if name = ".." then .ok route.up
  else if 255 < name.utf8ByteSize then .error .nameTooLong
  else if tree.folders.contains (route ++ [name]) then .ok (route ++ [name])
  else if tree.files.contains (route ++ [name]) then .error .notFolder
  else .error .notFound

/-- The folder around what a path leads to, and the name of that. -/
def locate (tree : FileTree) (path : String) : Except FileError (Route × String) := do
  if path.toList.contains (Char.ofNat 0) then throw .nullInName
  if 4096 ≤ path.utf8ByteSize then throw .nameTooLong
  let names := Route.ofPath path
  let around ← names.dropLast.foldlM tree.enter []
  match names.getLast? with
  | none => throw .notFound
  | some name => return (around, name)

/-- The contents of the file at a path. -/
def read (tree : FileTree) (path : String) : Except FileError ByteArray := do
  let (around, name) ← tree.locate path
  match tree.enter around name with
  | .ok _ => throw .isFolder
  | .error .notFolder => if path.endsWith "/" then throw .notFolder else return ByteArray.empty
  | .error e => throw e

/-- What there is after a file is written at a path. -/
def write (tree : FileTree) (path : String) : Except FileError FileTree := do
  let (around, name) ← tree.locate path
  if path.endsWith "/" then throw .isFolder
  match tree.enter around name with
  | .ok _ => throw .isFolder
  | .error .notFolder => return tree
  | .error .notFound => return { tree with files := (around ++ [name]) :: tree.files }
  | .error e => throw e

end FileTree

end Datacenter
