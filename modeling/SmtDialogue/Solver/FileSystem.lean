/-!
# Paths and files

A path is a text whose slashes stand between its parts. A walk along it begins in
the root directory or in the current one and takes one part after the other: a
name leads on to what the directory has under that name, and an empty part or a
dot stays where it is, which must be a directory. So the parts that are no names
can be left out, and this is the normal form of a path.

A file system is given by what its directories have; links in it have been
followed.
-/

namespace SmtDialogue

/-! ## Paths -/

namespace Path

/-- The parts of a path, between its slashes. -/
def parts (path : String) : List String :=
  (path.toList.splitOn '/').map String.ofList

/-- Whether a part is a name, and so neither empty nor the current directory. -/
def isName (part : String) : Bool :=
  part != "" && part != "."

/-- The names in a path. -/
def segments (path : String) : List String :=
  (parts path).filter isName

/-- The root of a path: none for a relative one, two slashes when it starts
with exactly two, and else one. -/
def root (path : String) : String :=
  match path.toList with
  | '/' :: '/' :: '/' :: _ => "/"
  | '/' :: '/' :: _ => "//"
  | '/' :: _ => "/"
  | _ => ""

/-- The normal form of a path: its names after its root, and a dot for the empty
path. -/
def normal (path : String) : String :=
  let text := root path ++ "/".intercalate (segments path)
  if text.isEmpty then "." else text

/-- The last segment of a path, or its normal form when it has none. -/
def baseName (path : String) : String :=
  (segments path).getLast?.getD (normal path)

/-- Whether a text has a slash, and so is a path and no bare name. -/
def hasSlash (path : String) : Bool :=
  path.toList.contains '/'

end Path

/-! ## Files -/

/-- A file system, as far as paths lead through it. Files are known by numbers. -/
structure FileSystem where
  /-- What a file has under each name, if it is a directory. -/
  entries : Nat → Option (String → Option Nat)
  /-- Whether a file may be run; as in a listing, this is also said of
  directories. -/
  canRun : Nat → Bool
  /-- Where a path with a given root begins. What two slashes stand for is up to
  the system. -/
  start : String → Nat
  /-- A path begins in a directory. -/
  isSome_entries_start : ∀ root, (entries (start root)).isSome = true

namespace FileSystem

/-- Whether a file is a directory. -/
def isDirectory (fs : FileSystem) (file : Nat) : Bool :=
  (fs.entries file).isSome

/-- One part of a path, at a file. -/
def step (fs : FileSystem) (file : Nat) (part : String) : Option Nat :=
  (fs.entries file).bind fun look => if Path.isName part then look part else some file

/-- The file to which a path leads, if there is one. -/
def find (fs : FileSystem) (path : String) : Option Nat :=
  (Path.parts path).foldlM fs.step (fs.start (Path.root path))

/-- The file system that has the root directory and the one of devices, each of
which may be run, and an empty current directory, which may not. -/
def bare : FileSystem where
  entries
    | 0 => some fun name =>
      if name == ".." then some 0 else if name == "dev" then some 1 else none
    | 1 => some fun name => if name == ".." then some 0 else none
    | _ => some fun _ => none
  canRun file := file < 2
  start root := if root.isEmpty then 2 else 0
  isSome_entries_start root := by split <;> rfl

end FileSystem

end SmtDialogue
