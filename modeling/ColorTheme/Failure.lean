import ColorTheme.Compiler
import ColorTheme.Variable

/-!
Why a theme cannot be extracted. Each cause has one message; where the reason lies with a file,
the message names it and leaves the reason to the caller. -/
namespace ColorTheme

inductive Failure
  | read (path : Path) (cause : FileError)
  | write (path : Path) (cause : FileError)
  | cycle (path : List Text)
  | invalidPattern (pattern : Text)
  | malformedImport (path : Path) (line : Text)
  | compile (stage : Text) (cause : CompileError)
  | reduce (cause : Css.ParseError)
  | config
deriving DecidableEq, Repr

def Failure.message : Failure → Text
  | .read path _ => "failed to read " ++ path.text
  | .write path _ => "failed to write " ++ path.text
  | .cycle path => "cycle detected: " ++ List.intercalate " -> ".toList path
  | .invalidPattern pattern => "invalid color pattern `" ++ pattern ++ "`"
  | .malformedImport path line => "malformed import in " ++ path.text ++ ": `" ++ line ++ "`"
  | .compile stage cause => stage ++ " compilation failed: " ++ cause.message
  | .reduce cause => "reduction failed: " ++ cause.message
  | .config => "invalid configuration"

def Files.readSource (fs : Files) (path : Path) : Except Failure Text :=
  (fs.readText path).mapError (Failure.read path)

def Files.readVariables (fs : Files) (path : Path) : Except Failure (List Variable) :=
  (fs.readSource path).map Variable.extract

end ColorTheme
