import Tromp.Storage.Path
import Tromp.Text.Quoted

/-!
# Files and folders

A store knows the files and folders around a working folder.  Paths are followed part by part:
every part but the last has to name a folder, and the part `..` leads back to the folder around.
Folders above the working folder exist, but nothing is known of what else they hold.
-/

namespace Tromp

/-- A place for a file or a folder: names, the innermost first, below the root or below a folder
some levels above the working folder. -/
structure Location where
  /-- How many levels above the working folder the names begin; none when they begin at the root. -/
  levels : Option Nat
  names : List String
deriving DecidableEq, Repr

namespace Location

/-- The place where paths with a start begin. -/
def ofStart : PathStart → Location
  | .workingFolder => ⟨some 0, []⟩
  | .root | .doubleRoot => ⟨none, []⟩

/-- The place that a part leads to.  The root is its own parent. -/
def step (l : Location) (part : String) : Location :=
  if part = ".." then
    match l.names with
    | _ :: outer => { l with names := outer }
    | [] => { l with levels := l.levels.map (· + 1) }
  else { l with names := part :: l.names }

/-- The path of a place in the working folder. -/
def text (l : Location) : String := "/".intercalate l.names.reverse

end Location

/-- Why a file or folder is not available. -/
inductive FileFault where
  | missing
  | taken
  | isFolder
  | notFolder
deriving DecidableEq, Repr

namespace FileFault

/-- The number of a fault. -/
def number : FileFault → Nat
  | missing => 2
  | taken => 17
  | isFolder => 21
  | notFolder => 20

/-- The reason that a fault gives. -/
def reason : FileFault → String
  | missing => "No such file or directory"
  | taken => "File exists"
  | isFolder => "Is a directory"
  | notFolder => "Not a directory"

end FileFault

/-- An access to a path that failed. -/
structure FileFailure where
  fault : FileFault
  path : Path
deriving DecidableEq, Repr

/-- The text of a failure. -/
def FileFailure.message (f : FileFailure) : String :=
  "[Errno " ++ toString f.fault.number ++ "] " ++ f.fault.reason ++ ": " ++ quoted f.path.text

/-- What a place holds. -/
inductive Entry where
  | folder
  | file (content : String)
deriving DecidableEq, Repr

/-- The files and folders that are known, the latest first. -/
structure FileStore where
  entries : List (Location × Entry)
deriving Repr

namespace FileStore

/-- A store that holds nothing. -/
def empty : FileStore := ⟨[]⟩

/-- What a place holds.  The places that paths begin at are folders. -/
def entry? (s : FileStore) (l : Location) : Option Entry :=
  if l.names.isEmpty then some .folder else s.entries.lookup l

/-- The store with a place holding something else. -/
def set (s : FileStore) (l : Location) (e : Entry) : FileStore :=
  ⟨(l, e) :: s.entries.filter (·.1 != l)⟩

/-- Follows parts from a place on. -/
def follow (s : FileStore) (l : Location) : List String → Except FileFault Location
  | [] => .ok l
  | part :: rest =>
    match s.entry? l with
    | some .folder => s.follow (l.step part) rest
    | some (.file _) => .error .notFolder
    | none => .error .missing

/-- The place that a path leads to, whether or not anything is there. -/
def locate (s : FileStore) (p : Path) : Except FileFailure Location :=
  (s.follow (.ofStart p.start) p.parts).mapError (⟨·, p⟩)

/-- The content of a file. -/
def read (s : FileStore) (p : Path) : Except FileFailure String := do
  match s.entry? (← s.locate p) with
  | some (.file content) => .ok content
  | some .folder => .error ⟨.isFolder, p⟩
  | none => .error ⟨.missing, p⟩

/-- Writes a file, in place of the one that was there. -/
def write (s : FileStore) (p : Path) (content : String) : Except FileFailure FileStore := do
  let l ← s.locate p
  match s.entry? l with
  | some .folder => .error ⟨.isFolder, p⟩
  | _ => .ok (s.set l (.file content))

/-- Makes a folder in a folder that exists. -/
def makeFolder (s : FileStore) (p : Path) : Except FileFailure FileStore := do
  let l ← s.locate p
  match s.entry? l with
  | some _ => .error ⟨.taken, p⟩
  | none => .ok (s.set l .folder)

/-- Whether a path leads to a folder. -/
def isFolder (s : FileStore) (p : Path) : Bool :=
  match s.locate p with
  | .ok l => s.entry? l == some .folder
  | .error _ => false

/-- Makes a folder unless it is there already. -/
def needFolder (s : FileStore) (p : Path) : Except FileFailure FileStore :=
  match s.makeFolder p with
  | .ok s => .ok s
  | .error e => if s.isFolder p then .ok s else .error e

/-- Makes a folder unless it is there already, and before it those around it that are missing.  The
parts of its path come in reverse. -/
def needFoldersBack (start : PathStart) : List String → FileStore → Except FileFailure FileStore
  | [], s => s.needFolder ⟨start, []⟩
  | part :: outer, s =>
    let path : Path := ⟨start, (part :: outer).reverse⟩
    match s.makeFolder path with
    | .error ⟨.missing, _⟩ => do
      (← needFoldersBack start outer s).needFolder path
    | _ => s.needFolder path

/-- Makes a folder unless it is there already, and those around it that are missing. -/
def needFolders (s : FileStore) (p : Path) : Except FileFailure FileStore :=
  needFoldersBack p.start p.parts.reverse s

/-- The files in the working folder that another store does not hold with the same content, with
their paths in it. -/
def changesSince (s old : FileStore) : List (String × String) :=
  s.entries.filterMap fun (l, e) =>
    match e with
    | .file content =>
      if l.levels = some 0 ∧ old.entry? l ≠ some e then some (l.text, content) else none
    | .folder => none

end FileStore

end Tromp
