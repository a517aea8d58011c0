import ColorTheme.Path
import ColorTheme.Text.Utf8

/-!
A tree of files without links, seen from a working directory. Entries are kept by their
canonical places, which are the names from the root on; a directory has an entry of its own. -/
namespace ColorTheme

inductive FileError
  | notFound | invalidData | isADirectory | notADirectory | permissionDenied | alreadyExists
deriving DecidableEq, Repr

def FileError.name : FileError → Text
  | .notFound => "NotFound"
  | .invalidData => "InvalidData"
  | .isADirectory => "IsADirectory"
  | .notADirectory => "NotADirectory"
  | .permissionDenied => "PermissionDenied"
  | .alreadyExists => "AlreadyExists"

inductive Entry
  | file (bytes : Bytes) (executable : Bool)
  | directory
deriving DecidableEq, Repr

/-- Names from the root on. -/
abbrev Location := List Text

structure Files where
  entries : List (Location × Entry) := []
  current : Location := []
deriving DecidableEq, Repr

namespace Files

/-- The root is always there. -/
def at? (fs : Files) (place : Location) : Option Entry :=
  if place.isEmpty then some .directory else fs.entries.lookup place

def isDirectory (fs : Files) (place : Location) : Bool := fs.at? place = some .directory

def enter (fs : Files) (place : Location) (part : Text) : Except FileError Location :=
  if !fs.isDirectory place then .error .notADirectory
  else if part.isEmpty || part = "." then .ok place
  else if part = ".." then .ok place.dropLast
  else
    let inner := place ++ [part]
    if (fs.at? inner).isSome then .ok inner else .error .notFound

def enterAll (fs : Files) (place : Location) : List Text → Except FileError Location
  | [] => .ok place
  | part :: rest =>
    match fs.enter place part with
    | .error e => .error e
    | .ok place => enterAll fs place rest

def origin (fs : Files) (path : Path) : Location := if path.isAbsolute then [] else fs.current

def locate (fs : Files) (path : Path) : Except FileError Location :=
  if path.text.isEmpty then .error .notFound
  else fs.enterAll (fs.origin path) (path.text.splitOn '/')

def spell (place : Location) : Path :=
  if place.isEmpty then ⟨"/"⟩ else ⟨place.flatMap fun name => '/' :: name⟩

def read (fs : Files) (path : Path) : Except FileError Bytes := do
  match fs.at? (← fs.locate path) with
  | some (.file bytes _) => return bytes
  | some .directory => throw .isADirectory
  | none => throw .notFound

def readText (fs : Files) (path : Path) : Except FileError Text := do
  match Utf8.decode? (← fs.read path) with
  | some text => return text
  | none => throw .invalidData

def setEntry (place : Location) (entry : Entry) :
    List (Location × Entry) → List (Location × Entry)
  | [] => [(place, entry)]
  | (other, old) :: rest =>
    if other = place then (place, entry) :: rest else (other, old) :: setEntry place entry rest

def put (fs : Files) (place : Location) (entry : Entry) : Files :=
  { fs with entries := setEntry place entry fs.entries }

/-- Where a file that may not be there yet would stand: in a directory that is there. -/
def target (fs : Files) (path : Path) : Except FileError Location :=
  match fs.locate path with
  | .ok place => if fs.isDirectory place then .error .isADirectory else .ok place
  | .error .notFound =>
    let parts := path.text.splitOn '/'
    match parts.getLast? with
    | none => .error .notFound
    | some name =>
      match fs.enterAll (fs.origin path) parts.dropLast with
      | .error e => .error e
      | .ok place =>
        if path.text.isEmpty then .error .notFound
        else if !fs.isDirectory place then .error .notADirectory
        else if name.isEmpty then .error .isADirectory
        else .ok (place ++ [name])
  | .error e => .error e

/-- Writes a whole file; one that is there keeps its permission. -/
def write (fs : Files) (path : Path) (bytes : Bytes) : Except FileError Files := do
  let place ← fs.target path
  match fs.at? place with
  | some (.file _ executable) => return fs.put place (.file bytes executable)
  | _ => return fs.put place (.file bytes false)

def append (fs : Files) (path : Path) (bytes : Bytes) : Except FileError Files := do
  let place ← fs.target path
  match fs.at? place with
  | some (.file old executable) => return fs.put place (.file (old ++ bytes) executable)
  | _ => return fs.put place (.file bytes false)

def makeAll (fs : Files) (place : Location) : List Text → Except FileError Files
  | [] => if fs.isDirectory place then .ok fs else .error .alreadyExists
  | part :: rest =>
    match fs.enter place part with
    | .ok place => makeAll fs place rest
    | .error .notFound => makeAll (fs.put (place ++ [part]) .directory) (place ++ [part]) rest
    | .error e => .error e

def makeDirectories (fs : Files) (path : Path) : Except FileError Files :=
  fs.makeAll (fs.origin path) (path.text.splitOn '/')

def remove (fs : Files) (path : Path) : Files :=
  match fs.locate path with
  | .error _ => fs
  | .ok place => { fs with entries := fs.entries.filter fun entry => !place.isPrefixOf entry.1 }

def list (fs : Files) (path : Path) : Except FileError (List Text) := do
  let place ← fs.locate path
  if !fs.isDirectory place then throw .notADirectory
  let names := fs.entries.filterMap fun (other, _) =>
    if other.dropLast = place then other.getLast? else none
  return Text.sortBy Text.before names

def below (path : Path) (names : List Text) : Path :=
  names.foldl (fun path name => path.join ⟨name⟩) path

/-- All files at or below a path, spelled from it on; none where it leads nowhere. -/
def walk (fs : Files) (path : Path) : List Path :=
  match fs.locate path with
  | .error _ => []
  | .ok place => fs.entries.filterMap fun (other, entry) =>
    match entry with
    | .directory => none
    | .file _ _ =>
      if place.isPrefixOf other then some (below path (other.drop place.length)) else none

end Files
end ColorTheme
