import ColorTheme.Cache
import ColorTheme.Import
import ColorTheme.Options
import ColorTheme.Pattern.Parser
import ColorTheme.Probe
import ColorTheme.Symbol
import ColorTheme.UserSheet

/-!
Extraction of a theme. The probe shows what the variables and shades compile to; the user's
sheets are compiled with these literals, the library with sentinels in place of variables and
of calls on them. What bears color is turned back into symbols. An artifact is made from files
and compiler answers alone; the cache and the output file change only once it is there. A
generation that waits for a sentinel without end has no result. -/
namespace ColorTheme

/-- The symbols of a variable file: the colors of the file with all its imports, overlaid by
its own declarations. -/
def symbolsOf (fs : Files) (variableFile moduleRoot : Path) (classifier : Classifier) :
    Except Failure Bindings := do
  let text ← Import.flatten fs variableFile moduleRoot
  let colors ← (Variable.colors (Variable.extract text) classifier).mapError Failure.cycle
  let own ← fs.readVariables variableFile
  return Symbol.merge colors (Bindings.ofVariables own)

structure Generator (σ : Type) where
  compiler : Compiler σ
  draws : Draws
  hash : UserSheet.Hash := Digest.sha256
  engine : PatternEngine := Pattern.compile?

namespace Generator

/-- Steps that ask the compiler and change no file. They may fail, and they may have no end. -/
abbrev Making (σ : Type) := ExceptT Failure (StateT σ Option)

def Making.ofState (x : StateM σ α) : Making σ α := ExceptT.mk fun state =>
  let (a, after) := x.run state
  some (.ok a, after)

def compileStage (g : Generator σ) (stage : Text) (request : Request) : Making σ Text := do
  let answer ← Making.ofState (g.compiler.compile request)
  liftM (answer.mapError (Failure.compile stage))

def compileSheet (g : Generator σ) (fs : Files) (paths : ResolvedPaths) (listed : List Path)
    (compiled : Bindings) (path : Path) : StateM σ Text := do
  match fs.readText path with
  | .error _ => return []
  | .ok content =>
    let request : Request :=
      { source := UserSheet.prepare path content listed compiled paths.variableFile
        searchPaths := paths.userSearch
        file := some path }
    match ← g.compiler.compile request with
    | .ok css => return css
    | .error _ => return []

def compileSheets (g : Generator σ) (fs : Files) (paths : ResolvedPaths) (sheets : List Path)
    (compiled : Bindings) : StateM σ Text := do
  let listed := sheets.map Path.normalize
  let fragments ← sheets.mapM (compileSheet g fs paths listed compiled)
  return UserSheet.joinFragments g.hash fragments

def make (g : Generator σ) (fs : Files) (options : ThemeOptions) (sheets : List Path) :
    Making σ Text := do
  let paths := options.paths
  let classifier ←
    (Classifier.ofPatterns g.engine options.colorPatterns).mapError Failure.invalidPattern
  let symbols ← symbolsOf fs paths.variableFile paths.moduleRoot classifier
  let selected := Symbol.select options.requested symbols
  let (sentinels, allocator) ← SentinelMap.assign selected { draws := g.draws }
  let palette ← Import.flatten fs paths.colorsFile paths.moduleRoot
  let probe ← g.compileStage "probe"
    { source := Probe.synthesize palette sentinels, searchPaths := paths.probeSearch }
  let compiled := Probe.scan (Minify.stripBlockComments probe)
  let userCss ← Making.ofState (g.compileSheets fs paths sheets compiled)
  let library ← Import.flatten fs paths.componentFile paths.moduleRoot
  let (library, calls, _) ← EscapedCalls.escape library symbols allocator
  let libraryCss ← g.compileStage "library"
    { source := library ++ "\n" ++ sentinels.declarations, searchPaths := paths.librarySearch }
  let reduced ← (g.compiler.reduce (libraryCss ++ "\n" ++ userCss)).mapError Failure.reduce
  let css := Substitution.backward reduced calls compiled
  let defaultTheme ← Import.flatten fs paths.defaultThemeFile paths.moduleRoot
  return Minify.minify (Substitution.reassemble css defaultTheme selected symbols)

structure World (σ : Type) where
  files : Files
  cache : Cache := {}
  state : σ

def emit (fs : Files) (output : Option Path) (artifact : Text) : Except Failure Files :=
  match output with
  | none => .ok fs
  | some path => (fs.write path (Utf8.encode artifact)).mapError (Failure.write path)

/-- The artifact of the current sheets: the cached one if they have not changed, else a new
one, which is written and then cached. -/
def tryGenerate (g : Generator σ) (options : ThemeOptions) (w : World σ) :
    Option (Except Failure Text × World σ) :=
  let sheets := UserSheet.collect w.files options.styleDirs
  match UserSheet.digest g.hash w.files sheets with
  | .error e => some (.error e, w)
  | .ok digest =>
    match w.cache.lookup digest with
    | some artifact => some (.ok artifact, w)
    | none => do
      let (made, state) ← (g.make w.files options sheets).run w.state
      let w := { w with state }
      match made with
      | .error e => return (.error e, w)
      | .ok artifact =>
        match emit w.files options.outputFile artifact with
        | .error e => return (.error e, w)
        | .ok files =>
          return (.ok artifact, { w with files, cache := w.cache.store digest artifact })

def generate (g : Generator σ) (options : ThemeOptions) (w : World σ) :
    Option (Text × World σ) :=
  (g.tryGenerate options w).map fun (result, w) => (result.toOption.getD [], w)

end Generator
end ColorTheme
