import LoxTokens.ReadError

/-!
# Directories

A directory with the files below it, and how a path is followed in it.

- `Directory.content?` is what stands at a place
- `Directory.read` follows a path and reads the file at its end
-/

namespace LoxTokens

/-- A directory, by what lies below it: the names that lead to each entry, and the bytes of a
file or nothing for a directory.  The directories on the way to an entry need no entry. -/
structure Directory where
  entries : List (List String × Option ByteArray)

/-- A place on the way through a directory: below it, or anywhere outside. -/
inductive Place where
  | below (names : List String)
  | outside

/-- What stands at a place. -/
inductive Content where
  | file (bytes : ByteArray)
  | directory

namespace Directory

/-- What stands at a place, if anything does.  Outside there is no file to be found. -/
def content? (d : Directory) : Place → Option Content
  | .outside => some .directory
  | .below [] => some .directory
  | .below names =>
    match d.entries.lookup names with
    | some (some bytes) => some (.file bytes)
    | some none => some .directory
    | none =>
      if d.entries.any fun entry => names.isPrefixOf entry.1 then some .directory else none

/-- The place that a name leads to from a directory, whether anything stands there or not. -/
def step? : Place → String → Option Place
  | place, "" => some place
  | place, "." => some place
  | .outside, ".." => some .outside
  | .below [], ".." => some .outside
  | .below names, ".." => some (.below names.dropLast)
  | .outside, _ => none
  | .below names, name => some (.below (names ++ [name]))

/-- Follows names from a place, each of which has to be looked up in a directory. -/
def follow (d : Directory) (place : Place) : List String → Except ReadError Content
  | [] =>
    match d.content? place with
    | some content => .ok content
    | none => .error .notFound
  | name :: names =>
    match d.content? place with
    | none => .error .notFound
    | some (.file _) => .error .notDirectory
    | some .directory =>
      match step? place name with
      | some place => d.follow place names
      | none => .error .notFound

/-- Splits a path at its slashes, however many stand together. -/
def pathNames (path : String) : List String :=
  (path.toList.splitOn '/').map String.ofList

/-- Reads the file at the end of a path.  A path that begins with a slash begins outside. -/
def read (d : Directory) (path : String) : Except ReadError ByteArray :=
  if path.isEmpty then .error .notFound
  else
    let place := if path.toList.head? = some '/' then Place.outside else .below []
    match d.follow place (pathNames path) with
    | .error error => .error error
    | .ok .directory => .error .isDirectory
    | .ok (.file bytes) => .ok bytes

end Directory

end LoxTokens
