import ColorTheme.Text

/-!
File paths. A path is the text that spells it; what it means is its components, where empty
parts are left out, and `.` too unless it stands first. Two spellings of the same components
are the same path. -/
namespace ColorTheme

structure Path where
  text : Text
deriving DecidableEq, Repr

namespace Path

inductive Component
  | root
  | here
  | up
  | name (text : Text)
deriving DecidableEq, Repr

def isAbsolute (p : Path) : Bool := p.text.head? = some '/'

def partsFrom (offset : Nat) : List Text → List (Text × Nat)
  | [] => []
  | part :: rest =>
    (part, offset + part.length) :: partsFrom (offset + part.length + 1) rest

def innerComponent? (part : Text) : Option Component :=
  if part.isEmpty || part = "." then none
  else if part = ".." then some .up else some (.name part)

/-- Components, each with the length of the path up to its end. -/
def componentEnds (p : Path) : List (Component × Nat) :=
  let inner (parts : List (Text × Nat)) := parts.filterMap fun (part, stop) =>
    (innerComponent? part).map (·, stop)
  match partsFrom 0 (p.text.splitOn '/') with
  | [] => []
  | (first, stop) :: rest =>
    if p.isAbsolute then (.root, 1) :: inner rest
    else if first = "." then (.here, stop) :: inner rest
    else inner ((first, stop) :: rest)

def components (p : Path) : List Component := p.componentEnds.map Prod.fst

def same (a b : Path) : Bool := a.components = b.components

/-- A component as a text whose order is that of components: the root, `.`, `..`, names. -/
def Component.key : Component → Text
  | .root => []
  | .here => ['0']
  | .up => ['1']
  | .name text => '2' :: text

def before (a b : Path) : Bool :=
  decide (a.components.map Component.key < b.components.map Component.key)

def Component.text : Component → Text
  | .root => "/"
  | .here => "."
  | .up => ".."
  | .name text => text

/-- `b` seen from `a`; an absolute path stands for itself. -/
def join (a b : Path) : Path :=
  if b.isAbsolute || a.text.isEmpty then b
  else if a.text.getLast? = some '/' then ⟨a.text ++ b.text⟩
  else ⟨a.text ++ '/' :: b.text⟩

/-- The path without its last component; the root and the empty path have no parent. -/
def parent? (p : Path) : Option Path :=
  match p.componentEnds.reverse with
  | [] => none
  | [(.root, _)] => none
  | [_] => some ⟨[]⟩
  | _ :: (_, stop) :: _ => some ⟨p.text.take stop⟩

def directory (p : Path) : Path := p.parent?.getD ⟨[]⟩

def lastName? (p : Path) : Option (Text × Nat) :=
  match p.componentEnds.getLast? with
  | some (.name text, stop) => some (text, stop)
  | _ => none

/-- A name before and after its last point; a point in front starts no extension. -/
def splitExtension (name : Text) : Text × Option Text :=
  match Text.cutLast? '.' name with
  | some (stem, extension) => if stem.isEmpty then (name, none) else (stem, some extension)
  | none => (name, none)

def stem? (p : Path) : Option Text := p.lastName?.map fun (name, _) => (splitExtension name).1

def extension? (p : Path) : Option Text :=
  p.lastName?.bind fun (name, _) => (splitExtension name).2

def withExtension (p : Path) (extension : Text) : Path :=
  match p.lastName? with
  | none => p
  | some (name, stop) =>
    let stem := (splitExtension name).1
    ⟨p.text.take (stop - name.length + stem.length) ++ '.' :: extension⟩

/-- Folds `.` and `..` by their spelling alone. -/
def normalize (p : Path) : Path :=
  p.components.foldl (fun folded component =>
    match component with
    | .here => folded
    | .up => folded.parent?.getD (folded.join ⟨".."⟩)
    | other => folded.join ⟨other.text⟩) ⟨[]⟩

end Path
end ColorTheme
