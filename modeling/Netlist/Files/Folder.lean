import Netlist.Files

/-!
# A folder held in memory

The files of a folder by their paths. Folders inside it are there because a
file lies in them, or because the path of a file led through them. Paths are
walked a component at a time, and outside the folder there is nothing to be
found.
-/

namespace Netlist

/-- The files of a folder, each with the components of its path. -/
structure Folder where
  files : List (List String × ByteArray) := []
  /-- Folders that are there even without a file. -/
  made : List (List String) := []

namespace Folder

/-- A place that a path leads to. -/
inductive Place where
  | inside (components : List String)
  | outside
deriving DecidableEq, Repr

/-- The content of the file at a place. -/
def content? (folder : Folder) : Place → Option ByteArray
  | .inside components => folder.files.lookup components
  | .outside => none

/-- Whether there is a folder at a place. -/
def isFolder (folder : Folder) : Place → Bool
  | .inside components =>
    components.isEmpty ||
      folder.made.contains components ||
      folder.files.any fun f => components.isPrefixOf f.1 && components.length < f.1.length
  | .outside => true

/-- The folder around a place. -/
def Place.around : Place → Place
  | .inside components => if components.isEmpty then .outside else .inside components.dropLast
  | .outside => .outside

/-- The most bytes that a name may have. -/
def nameLimit : Nat := 255

/-- The most bytes that a path may have. -/
def pathLimit : Nat := 4095

/-- The place one component on from a place. -/
def step (folder : Folder) (place : Place) (component : String) : Except FileError Place :=
  if !folder.isFolder place then
    .error (if (folder.content? place).isSome then .notFolder else .notFound)
  else if Path.isIdle component then .ok place
  else if component == ".." then .ok place.around
  else if component.utf8ByteSize > nameLimit then .error .nameTooLong
  else
    match place with
    | .inside components => .ok (.inside (components ++ [component]))
    | .outside => .error .notFound

/-- The place that some components lead to from a place. -/
def walk (folder : Folder) : Place → List String → Except FileError Place
  | place, [] => .ok place
  | place, component :: rest =>
    (folder.step place component).bind fun next => folder.walk next rest

/-- The place that a path starts at, with its components from there. -/
def start (path : String) : Except FileError (Place × List String) :=
  if path.contains '\x00' then .error .badName
  else if path.isEmpty then .error .notFound
  else if path.utf8ByteSize > pathLimit then .error .nameTooLong
  else .ok (if path.startsWith "/" then .outside else .inside [], Path.components path)

/-- The place that a path leads to. -/
def find (folder : Folder) (path : String) : Except FileError Place := do
  let (place, components) ← start path
  folder.walk place components

/-- Reads the text at a path. -/
def read (folder : Folder) (path : String) : Except FileError String := do
  let place ← folder.find path
  match folder.content? place with
  | some bytes =>
    match String.fromUTF8? bytes with
    | some text => .ok text
    | none => .error .notText
  | none => .error (if folder.isFolder place then .isFolder else .notFound)

/-- Whether there is a file or a folder at a path. -/
def holds (folder : Folder) (path : String) : Bool :=
  match folder.find path with
  | .ok place => (folder.content? place).isSome || folder.isFolder place
  | .error _ => false

/-- Puts content at a place inside. -/
def put (folder : Folder) (components : List String) (bytes : ByteArray) : Folder :=
  { folder with files := (components, bytes) :: folder.files.filter fun f => f.1 != components }

/-- The components of a place one component on, if need be by making a folder. -/
def enter (place : List String) (component : String) : List String :=
  if Path.isIdle component then place
  else if component == ".." then place.dropLast
  else place ++ [component]

/-- The places on the way along some components, with the last one first. -/
def trail (components : List String) : List (List String) :=
  components.foldl (fun places c => enter (places.headD []) c :: places) []

/-- Puts a file under a name, and makes the folders on the way to it. -/
def add (folder : Folder) (name : String) (bytes : ByteArray) : Folder :=
  match trail (Path.components name) with
  | [] => folder
  | place :: before => { folder with made := before ++ folder.made }.put place bytes

/-- The folder of some files by name. -/
def ofFiles (files : List (String × ByteArray)) : Folder :=
  files.foldl (fun folder f => folder.add f.1 f.2) {}

/-- Writes a text at a path. Its folder has to be there; a path that ends in a
slash or a dot names a folder. -/
def write (folder : Folder) (path text : String) : Except FileError Folder := do
  let (place, components) ← start path
  let named := (components.reverse.dropWhile String.isEmpty).reverse
  match named.getLast? with
  | none => .error .isFolder
  | some name =>
    let place ← folder.walk place named.dropLast
    if !folder.isFolder place then
      .error (if (folder.content? place).isSome then .notFolder else .notFound)
    else if named.length < components.length || name == "." || name == ".." then .error .isFolder
    else
      match ← folder.step place name with
      | .inside components =>
        if folder.isFolder (.inside components) then .error .isFolder
        else .ok (folder.put components text.toUTF8)
      | .outside => .error .notFound

/-- The folder as a file system. -/
def fileSystem : FileSystem (StateM Folder) where
  read path := fun folder => (folder.read path, folder)
  write path text := fun folder =>
    match folder.write path text with
    | .ok later => (.ok (), later)
    | .error e => (.error e, folder)
  holds path := fun folder => (folder.holds path, folder)

end Folder

end Netlist
