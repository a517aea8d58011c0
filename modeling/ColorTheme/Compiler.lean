import ColorTheme.Css.Reduction
import ColorTheme.Files
import ColorTheme.External

/-!
Compilers of style sheets. A compiler answers requests and may remember and change things
while it does; what it is otherwise is left open. -/
namespace ColorTheme

structure Request where
  source : Text
  searchPaths : List Path := []
  file : Option Path := none
  scripts : Bool := true
  modulePrefix : Option Text := some "~"
deriving DecidableEq, Repr

/-- The search paths, each once, after the directory of the source file. -/
def Request.effectivePaths (r : Request) : List Path :=
  let own := (r.file.bind Path.parent?).toList.filter fun dir => !dir.text.isEmpty
  r.searchPaths.foldl (fun paths path =>
    if paths.any (Path.same path) then paths else paths ++ [path]) own

inductive CompileError
  | process (cause : External.Failure)
  | rejected (message : Text)
deriving DecidableEq, Repr

def CompileError.message : CompileError → Text
  | .process cause => "compiler process error: " ++ cause.message
  | .rejected message => "compiler rejected source: " ++ message

/-- A compiler with a state of its own. Compiled sheets are reduced to their colors. -/
structure Compiler (σ : Type) where
  compile : Request → StateM σ (Except CompileError Text)
  reduce : Text → Except Css.ParseError Text := Css.reduceToColors

end ColorTheme
