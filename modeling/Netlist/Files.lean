/-!
# Files

What the program asks of a file system: to read a text, to write one, and to
say whether there is something at a path. The operations live in any monad, so
that the program runs on real files as well as on a folder held in memory.
-/

namespace Netlist

/-- Why a file cannot be read or written. -/
inductive FileError where
  | notFound
  | isFolder
  | notFolder
  | nameTooLong
  | badName
  | notText
  | other (reason : String)
deriving DecidableEq, Repr

namespace FileError

/-- The wording of a file error. -/
def message : FileError → String
  | .notFound => "No such file or directory (os error 2)"
  | .isFolder => "Is a directory (os error 21)"
  | .notFolder => "Not a directory (os error 20)"
  | .nameTooLong => "File name too long (os error 36)"
  | .badName => "file name contained an unexpected NUL byte"
  | .notText => "stream did not contain valid UTF-8"
  | .other reason => reason

end FileError

/-- A file system that works in a monad. -/
structure FileSystem (m : Type → Type) where
  read : String → m (Except FileError String)
  write : String → String → m (Except FileError Unit)
  holds : String → m Bool

/-! ## Paths -/

namespace Path

/-- A path seen from a folder. Paths that start with a slash stay as they are. -/
def within (folder path : String) : String :=
  if path.startsWith "/" || folder.isEmpty then path
  else if folder.endsWith "/" then folder ++ path
  else folder ++ "/" ++ path

/-- The components of a path, in order; empty ones are kept. -/
def components (path : String) : List String :=
  (path.toList.splitOn '/').map String.ofList

/-- Whether a component leads nowhere. -/
def isIdle (component : String) : Bool := component.isEmpty || component == "."

/-- Components without the idle ones at their end. -/
def trimIdle (components : List String) : List String :=
  (components.reverse.dropWhile isIdle).reverse

/-- Components without the last one that leads somewhere, and without idle ones
before it. -/
def dropLast (components : List String) : List String :=
  trimIdle (trimIdle components).dropLast

/-- The folder part of a path: all but its last component. The root and a dot at
the front of a path stay. -/
def parent (path : String) : String :=
  match components path with
  | [] => ""
  | first :: rest =>
    if !isIdle first then String.intercalate "/" (dropLast (first :: rest))
    else if first.isEmpty && (dropLast rest).isEmpty then
      if path.startsWith "/" then "/" else ""
    else String.intercalate "/" (first :: dropLast rest)

end Path

end Netlist
