import ColorTheme.Compiler

/-!
The Less compiler as an external command. The source goes in at standard input and the style
sheet comes out; where to look for imports is said by the arguments. -/
namespace ColorTheme

structure Lessc where
  program : Text := "lessc"
  limit : Option External.Duration := none
  npmImport : Bool := true
deriving DecidableEq, Repr

namespace Lessc

def pathSeparator : Char := ':'

/-- The paths as one text; there is none if a path holds the separator itself. -/
def joinPaths? (paths : List Path) : Option Text :=
  if paths.any (·.text.contains pathSeparator) then none
  else some (List.intercalate [pathSeparator] (paths.map Path.text))

def pathArgument? (paths : List Path) : Option Text :=
  if paths.isEmpty then none else (joinPaths? paths).map fun joined => "--include-path=" ++ joined

def moduleArgument? (lessc : Lessc) (request : Request) : Option Text :=
  if lessc.npmImport then request.modulePrefix.map fun mark => "--npm-import=prefix=" ++ mark
  else none

def arguments (lessc : Lessc) (request : Request) : List Text :=
  (if request.scripts then ["--js".toList] else []) ++
    (pathArgument? request.effectivePaths).toList ++
    (lessc.moduleArgument? request).toList ++ ["-".toList]

def command (lessc : Lessc) (request : Request) : External.Command where
  program := lessc.program
  arguments := lessc.arguments request
  input := Utf8.encode request.source
  limit := lessc.limit

/-- A command that failed and said why has rejected the source. -/
def judge : Except External.Failure Text → Except CompileError Text
  | .ok css => .ok css
  | .error (.failed program status stderr) =>
    if stderr.isEmpty then .error (.process (.failed program status stderr))
    else .error (.rejected stderr)
  | .error cause => .error (.process cause)

def compiler (lessc : Lessc) (runner : External.Runner σ) : Compiler σ where
  compile request := do return judge (← External.execute runner (lessc.command request))

end Lessc
end ColorTheme
