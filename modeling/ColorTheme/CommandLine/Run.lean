import ColorTheme.CommandLine
import ColorTheme.Json
import ColorTheme.Options.Reader
import ColorTheme.Plugin

/-!
Carrying out commands. An artifact is printed if there is no file for it; an empty one is a
failure. -/
namespace ColorTheme

def Manifest.json (m : Manifest) : Text :=
  let themes := m.themes.sorted.map fun (name, values) => (name, Json.record 2 values)
  Json.object 0
    [("themes", Json.object 1 themes), ("lessFilePath", Json.quoted m.lessFile),
      ("lessJSPath", Json.quoted m.lessScript), ("modifyVars", Json.record 1 m.ownValues.sorted)]

def symbolLines (symbols : Bindings) : Text :=
  symbols.sorted.flatMap fun (name, value) => name ++ ": " ++ value ++ ";\n"

def Files.withChanges (base before after : Files) : Files :=
  after.entries.foldl (fun fs (place, entry) =>
    if before.at? place = some entry then fs else fs.put place entry) base

namespace CommandLine

structure Report where
  exit : Nat
  output : Text := []
  failure : Option Text := none
deriving DecidableEq, Repr

def versionText : Text := "swatch 0.1.0\n"

def helpText : Text :=
  "Extract a runtime-swappable color theme from a LESS component library\n\n" ++
  "Usage: swatch [OPTIONS] <COMMAND>\n\nCommands:\n" ++
  "  generate  Generate the theme stylesheet\n" ++
  "  vars      Print the symbol table of a variable file\n" ++
  "  manifest  Print the browser runtime manifest as JSON\n\nOptions:\n" ++
  "      --lessc <LESSC>                LESS compiler executable [default: lessc]\n" ++
  "      --timeout-secs <TIMEOUT_SECS>  Abort a compiler run after this many seconds\n" ++
  "  -h, --help                         Print help\n" ++
  "  -V, --version                      Print version\n"

/-- The options of a file; whatever is wrong with them, the message names the file. -/
def loadOptions (fs : Files) (config : Path) : Except Text PluginOptions :=
  (PluginOptions.fromFile fs config).mapError fun _ => "loading " ++ config.text

def withOutput (options : PluginOptions) (output : Option Path) : PluginOptions :=
  { options with theme := { options.theme with
      outputFile := output.or options.theme.outputFile } }

def artifact (g : Generator Files) (options : PluginOptions) (asPlugin : Bool)
    (w : Generator.World Files) : Option (Except Text Text × Generator.World Files) :=
  if asPlugin then
    match Plugin.create g options w.files with
    | .error e => some (.error e.message, w)
    | .ok plugin => (plugin.run w).map fun (result, _, w) => (result.mapError Failure.message, w)
  else (g.generate options.theme w).map fun (css, w) => (.ok css, w)

def perform (g : Generator Files) (fs : Files) : Action → Option (Except Text Text × Files)
  | .generate config output asPlugin =>
    match loadOptions fs config with
    | .error message => some (.error message, fs)
    | .ok options => do
      let options := withOutput options output
      let (result, w) ← artifact g options asPlugin { files := fs, state := fs }
      let shown := do
        let css ← result
        if css.isEmpty then throw "theme generation failed".toList
        else if options.theme.outputFile.isNone then return css ++ "\n"
        else return []
      return (shown, w.state.withChanges fs w.files)
  | .symbols file libraryDir =>
    let moduleRoot := (ThemeOptions.paths { libraryDir := some libraryDir }).moduleRoot
    some (((symbolsOf fs file moduleRoot {}).map symbolLines).mapError Failure.message, fs)
  | .manifest config =>
    let result := do
      let options ← loadOptions fs config
      let plugin ← (Plugin.create g options fs).mapError Failure.message
      return plugin.manifest.json ++ "\n"
    some (result, fs)

def run (runner : External.Runner Files) (draws : Draws) (arguments : List Text) (fs : Files) :
    Option (Report × Files) :=
  match parse arguments with
  | .error .usage => some ({ exit := 2 }, fs)
  | .error .help => some ({ exit := 0, output := helpText }, fs)
  | .error .version => some ({ exit := 0, output := versionText }, fs)
  | .ok invocation =>
    let g : Generator Files := { compiler := invocation.lessc.compiler runner, draws }
    (perform g fs invocation.action).map fun
      | (.ok output, files) => ({ exit := 0, output }, files)
      | (.error message, files) => ({ exit := 1, failure := some message }, files)

end CommandLine
end ColorTheme
