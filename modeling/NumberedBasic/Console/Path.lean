/-!
# Paths

A path is followed name by name, from the current folder or, if it starts
with a slash, from the root of the file system.  A place is written down as
the names that lead to it from there; the root has the empty name, and the
folders around the current one are reached by the name `..`.
-/

namespace NumberedBasic

namespace Path

/-- The longest name of a file or folder, in bytes. -/
def longestName : Nat := 255

/-- The longest path, in bytes. -/
def longest : Nat := 4095

/-- No path holds the character that ends a text for the operating system. -/
def isPossible (path : String) : Bool := !path.toList.contains '\x00'

/-- The names on a path.  Slashes in a row are as good as one. -/
def names (path : String) : List String :=
  (path.splitOn "/").filter fun name => name ≠ ""

/-- The place of the folder where a path starts. -/
def origin (path : String) : List String :=
  if path.toList.head? = some '/' then [""] else []

/-- A path that ends with a slash can only name a folder. -/
def namesFolder (path : String) : Bool := path.toList.getLast? = some '/'

/-- The path that consists of the given names. -/
def ofNames (names : List String) : String := "/".intercalate names

/-- The place of the folder that a folder lies in.  The root lies in
itself. -/
def around (place : List String) : List String :=
  match place.getLast? with
  | none => [".."]
  | some ".." => place ++ [".."]
  | some "" => place
  | some _ => place.dropLast

/-- The path without the names that lead nowhere. -/
def plain (path : String) : String :=
  ofNames ((names path).filter fun name => name ≠ ".")

/-- A folder together with the folders that it lies in. -/
def foldersOn (path : String) : List String :=
  let names := names (plain path)
  (List.range names.length).map fun count => ofNames (names.take (count + 1))

end Path

end NumberedBasic
