import ColorTheme.Compiler
import ColorTheme.Bindings
import ColorTheme.Text.Search

/-!
A compiler that plays its part from a script: it knows what each shade compiles to, resolves
variables in the library by name and refuses the stages that it is told to. It keeps a record of
its requests. -/
namespace ColorTheme

structure Rehearsal where
  shades : Bindings := {}
  extra : Bindings := {}
  refused : List Text := []
  requests : List Request := []

namespace Rehearsal

/-- A request with a file is the user's; of the others the first is the probe. -/
def stageOf (r : Rehearsal) (request : Request) : Text :=
  if request.file.isSome then "user"
  else if r.requests.any (·.file.isNone) then "library"
  else "probe"

def compileUser (source : Text) : Text :=
  Text.joinLines ((Text.lines source).filter fun line => !Text.startsWith "@import" line)

def probeLine? (line : Text) : Option (Text × Text) := do
  let inner ← Text.after? "." line
  if Text.endsWith "; \x7d" inner then Text.cut? " \x7b color: " (inner.take (inner.length - 3))
  else none

def compileProbe (shades : Bindings) (source : Text) : Text :=
  (Text.lines source).flatMap fun line =>
    match probeLine? line with
    | none => []
    | some (name, value) =>
      let compiled := (shades.get? name).getD value
      if shades.contains name || compiled.head? = some '#' then
        "." ++ name ++ " \x7b\n  color: " ++ compiled ++ ";\n\x7d\n"
      else []

def isVariableLine (line : Text) : Bool := line.head? = some '@'

def variableLine? (line : Text) : Option (Text × Text) :=
  if isVariableLine line && line.getLast? = some ';' then
    (Text.cut? ": " line.dropLast).filter fun (_, value) => value.head? = some '#'
  else none

def longerFirst (x y : Text × Text) : Bool :=
  let width (entry : Text × Text) := (Utf8.encode entry.1).length
  width y < width x || (width x = width y && Text.before x.1 y.1)

/-- Every name replaced by its color; declarations are left out. -/
def compileLibrary (shades : Bindings) (source : Text) : Text :=
  let lines := Text.lines source
  let declared := Bindings.ofList (lines.filterMap variableLine?)
  let known := declared.extend (shades.entries.map fun (name, value) => ('@' :: name, value))
  let rest := Text.joinLines (lines.filter (!isVariableLine ·))
  (Text.sortBy longerFirst known.entries).foldl (fun text (name, value) =>
    Text.replaceAll name value text) rest

def answer (r : Rehearsal) (stage : Text) (request : Request) : Except CompileError Text :=
  let file := (request.file.map Path.text).toList
  if (stage :: file).any r.refused.contains then .error (.rejected (stage ++ " refused"))
  else
    let css :=
      if stage = "user" then compileUser request.source
      else if stage = "probe" then compileProbe r.shades request.source
      else compileLibrary r.shades request.source
    .ok (css ++ (r.extra.get? stage).getD [])

def compiler : Compiler Rehearsal where
  compile request := do
    let r ← get
    set { r with requests := request :: r.requests }
    return r.answer (r.stageOf request) request

def report (r : Rehearsal) : List Request :=
  let requests := r.requests.reverse
  let fileText (q : Request) : Text := (q.file.map Path.text).getD []
  requests.filter (·.file.isNone) ++
    Text.sortBy (fun x y => Text.before (fileText x) (fileText y)) (requests.filter (·.file.isSome))

end Rehearsal
end ColorTheme
