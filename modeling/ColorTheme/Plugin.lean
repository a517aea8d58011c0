import ColorTheme.Generation
import ColorTheme.Theme

/-!
The build plugin: a generator that runs after every build. The themes and the exposed variables
are fixed when it is set up; when the artifact changes, the tag palette is added behind it. -/
namespace ColorTheme

structure Manifest where
  themes : Themes
  lessFile : Text
  lessScript : Text
  ownValues : Bindings
deriving DecidableEq, Repr

structure Plugin (σ : Type) where
  options : PluginOptions
  themes : Themes
  ownValues : Bindings
  generator : Generator σ
  emitted : Text := []

namespace Plugin

/-- Discovers the themes. If no variable is named, those of the default themes are exposed. -/
def create (g : Generator σ) (options : PluginOptions) (fs : Files) :
    Except Failure (Plugin σ) := do
  let paths := options.theme.paths
  let themes ← Themes.discover fs paths.themesDir paths.variableFile options.customThemes
  let theme := if options.theme.themeVariables.isEmpty then
    { options.theme with themeVariables := themes.defaultVariables } else options.theme
  let own ← fs.readVariables paths.variableFile
  return { options := { options with theme }
           themes
           ownValues := Bindings.ofVariables own
           generator := g }

def outputFile (p : Plugin σ) : Option Path := p.options.theme.outputFile

def prepareOutput (p : Plugin σ) (fs : Files) : Except Failure Files :=
  match p.outputFile.bind Path.parent? with
  | none => .ok fs
  | some directory =>
    if directory.text.isEmpty then .ok fs
    else (fs.makeDirectories directory).mapError (Failure.write directory)

def appendPalette (p : Plugin σ) (fs : Files) : Except Failure Files :=
  match p.outputFile with
  | none => .ok fs
  | some path =>
    (fs.append path (Utf8.encode (tagPaletteCss p.options.classPrefix))).mapError
      (Failure.write path)

/-- Generates again. An artifact other than the last one is remembered and gets the palette; a
run that makes none answers the empty text and leaves the output file as it is. -/
def run (p : Plugin σ) (w : Generator.World σ) :
    Option (Except Failure Text × Plugin σ × Generator.World σ) :=
  match p.prepareOutput w.files with
  | .error e => some (.error e, p, w)
  | .ok files => do
    let (artifact, w) ← p.generator.generate p.options.theme { w with files }
    if artifact.isEmpty || artifact = p.emitted then return (.ok artifact, p, w)
    else
      let p := { p with emitted := artifact }
      match p.appendPalette w.files with
      | .error e => return (.error e, p, w)
      | .ok files => return (.ok artifact, p, { w with files })

def manifest (p : Plugin σ) : Manifest :=
  ⟨p.themes, p.options.lessFile, p.options.lessScript, p.ownValues⟩

end Plugin
end ColorTheme
