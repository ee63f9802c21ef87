/-
Where packages are kept.

* `Library`: packages in memory, by name;
* `Folder`: a folder of files, each package being kept in the file of its name
  as text;
* `Library.source`, `Folder.source`: both as sources for linking. The names
  that linking can come upon are the entry and those that packages import, which
  bounds the nesting of imports.
-/
import EffectMachine.Link.Closure
import EffectMachine.ObjectFormat
import EffectMachine.Text.Utf8

namespace EffectMachine

/-! ### Packages in memory -/

/-- Packages by name. -/
structure Library where
  entries : List (String × Package) := []

namespace Library

/-- The package of a name. -/
def get? (lib : Library) (name : String) : Option Package :=
  (lib.entries.find? (·.1 = name)).map (·.2)

/-- The library with a package of a name, in place of any former one. -/
def insert (lib : Library) (name : String) (p : Package) : Library :=
  ⟨(name, p) :: lib.entries.filter (·.1 ≠ name)⟩

/-- A library as a source for linking. -/
def source (lib : Library) : Source where
  load name :=
    match lib.get? name with
    | some p => .ok p
    | none => .error (.missingPackage name)
  reports _ := []
  bound := lib.entries.length + 1

end Library

/-! ### Packages in files -/

/-- What stands under a path. -/
inductive Node where
  | file (content : List UInt8)
  | folder
deriving DecidableEq

/-- A folder with everything below it, by path from the folder itself. -/
structure Folder where
  entries : List (List String × Node) := []

namespace Folder

/-- What looking up a path leads to. -/
inductive Lookup where
  /-- Something stands there. -/
  | found (path : List String) (node : Node)
  /-- Nothing stands there, but it could. -/
  | vacant (path : List String)
  /-- A folder on the way does not exist. -/
  | missing
  /-- The path leads through a file, or is no path. -/
  | invalid

/-- The parts of a path, which slashes divide. -/
def parts (path : String) : List String := (path.toList.splitOn '/').map String.ofList

/-- Whether a part of a path leads nowhere. -/
def isIdle (part : String) : Bool := part = "" || part = "."

/-- The part of a path that leads to the folder around. -/
def parentPart : String := ".."

/-- The plain path to the folder around what a plain path names. From the folder
itself, and from those around it, it leads further out. -/
def parent (path : List String) : List String :=
  if path.all (· = parentPart) then path ++ [parentPart] else path.dropLast

/-- What stands under a plain path. The folder itself and those around it
exist; of what these hold besides, nothing is known but what is written. -/
def node? (f : Folder) (path : List String) : Option Node :=
  if path.all (· = parentPart) then some .folder
  else (f.entries.find? (·.1 = path)).map (·.2)

/-- The greatest length of a file name in bytes. -/
def maxNameBytes : Nat := 255

/-- Whether a path does not start at the folder. -/
def isAbsolute (path : String) : Bool := path.toList.head? = some '/'

/-- Follows the parts of a path from a place that has been reached. -/
def follow (f : Folder) (reached : List String) : List String → Lookup
  | [] =>
    match f.node? reached with
    | some node => .found reached node
    | none => .vacant reached
  | part :: rest =>
    match f.node? reached with
    | none => .missing
    | some (.file _) => .invalid
    | some .folder =>
      if isIdle part then follow f reached rest
      else if part = parentPart then follow f (parent reached) rest
      else if maxNameBytes < part.utf8ByteSize then .invalid
      else follow f (reached ++ [part]) rest

/-- Looks up a path. -/
def lookup (f : Folder) (path : String) : Lookup :=
  if path.toList.contains '\x00' then .invalid
  else if isAbsolute path then .missing
  else f.follow [] (parts path)

/-- The folder with a node at a plain path. -/
def put (f : Folder) (path : List String) (node : Node) : Folder :=
  ⟨(path, node) :: f.entries.filter (·.1 ≠ path)⟩

/-- The folder with a file of the given content, if it can be written. -/
def write (f : Folder) (path : String) (content : List UInt8) : Option Folder :=
  match f.lookup path with
  | .found place (.file _) => some (f.put place (.file content))
  | .vacant place => some (f.put place (.file content))
  | _ => none

/-- The folder with a new folder at a path, if it can be made. -/
def makeFolder (f : Folder) (path : String) : Option Folder :=
  match f.lookup path with
  | .vacant place => some (f.put place .folder)
  | _ => none

/-- The file that holds the package of a name, as it is looked up. -/
def packageFile (name : String) : String := name ++ ".json"

/-- The path from the folder to the file that holds the package of a name: the
parts in front that lead nowhere are left out, and the rest is as written. An
absolute path does not start at the folder and stays whole. -/
def packagePath (name : String) : String :=
  let file := packageFile name
  if isAbsolute file then file else "/".intercalate ((parts file).dropWhile isIdle)

/-- The text of the file of a package. -/
def packageText (f : Folder) (name : String) : Except LinkError String :=
  match f.lookup (packageFile name) with
  | .found _ (.file content) =>
    match Utf8.decode content with
    | .ok text => .ok text
    | .error _ => .error (.unreadable name)
  | .found _ .folder | .invalid => .error (.unreadable name)
  | .vacant _ | .missing => .error (.missingPackage name)

/-- The package that the file of a name holds. -/
def load (f : Folder) (name : String) : Except LinkError Package :=
  match f.packageText name with
  | .error e => .error e
  | .ok text =>
    match Package.parse? text with
    | some p => .ok p
    | none => .error (.malformed name)

/-- Writes a package to the file of its name. -/
def store (f : Folder) (name : String) (p : Package) : Except LinkError Folder :=
  match f.write (packageFile name) (Utf8.encode p.print) with
  | some f => .ok f
  | none => .error (.unreadable name)

/-- What loading a package reports: the file, once it has been read. -/
def reports (f : Folder) (name : String) : List Entry :=
  match f.packageText name with
  | .ok _ => [.loadingPackage name (packageFile name)]
  | .error _ => []

/-- The number of imports in all files that hold packages. -/
def importCount (f : Folder) : Nat :=
  f.entries.foldl (fun n (_, node) =>
    match node with
    | .folder => n
    | .file content =>
      match Utf8.decode content with
      | .error _ => n
      | .ok text => n + ((Package.parse? text).map (·.imports.size)).getD 0) 0

/-- A folder as a source for linking. -/
def source (f : Folder) : Source where
  load := f.load
  reports := f.reports
  bound := f.importCount + 2

end Folder

end EffectMachine
