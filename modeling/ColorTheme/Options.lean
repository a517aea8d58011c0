import ColorTheme.Path
import ColorTheme.Shade

/-!
Options of a generation and of the plugin, and the paths that follow from them. Every path that
is not set is derived from the directory of the component library. -/
namespace ColorTheme

structure ThemeOptions where
  libraryDir : Option Path := none
  libraryStyles : Option Path := none
  componentFile : Option Path := none
  styleDirs : List Path := []
  variableFile : Option Path := none
  outputFile : Option Path := none
  themeVariables : List Text := []
  colorPatterns : List Text := []
deriving DecidableEq, Repr

def defaultLibraryDir : Path := ⟨"node_modules/antd"⟩
def defaultLessFile : Text := "/_next/static/color.less"
def defaultLessScript : Text := "https://cdnjs.cloudflare.com/ajax/libs/less.js/4.1.1/less.min.js"
def defaultPrefix : Text := "antd"

def moduleDirectory : Text := "node_modules"

structure ResolvedPaths where
  libraryDir : Path
  styles : Path
  componentFile : Path
  variableFile : Path
  moduleRoot : Path
  styleDirs : List Path
deriving DecidableEq, Repr

def moduleRootFrom (root : Path) : List Path.Component → Path
  | [] => ⟨moduleDirectory⟩
  | component :: rest =>
    let root := root.join ⟨component.text⟩
    if component = .name moduleDirectory then root else moduleRootFrom root rest

/-- The outermost module directory that holds the library, or one in the working directory. -/
def moduleRootOf (libraryDir : Path) : Path := moduleRootFrom ⟨[]⟩ libraryDir.components

namespace ThemeOptions

/-- The variables asked for: the primary one if none is named. -/
def requested (o : ThemeOptions) : List Text :=
  if o.themeVariables.isEmpty then [primaryVariable] else o.themeVariables

def paths (o : ThemeOptions) : ResolvedPaths :=
  let libraryDir := o.libraryDir.getD defaultLibraryDir
  let styles := o.libraryStyles.getD (libraryDir.join ⟨"lib"⟩)
  { libraryDir, styles
    componentFile := o.componentFile.getD ((libraryDir.join ⟨"dist"⟩).join ⟨"antd.less"⟩)
    variableFile := o.variableFile.getD
      (((styles.join ⟨"style"⟩).join ⟨"themes"⟩).join ⟨"default.less"⟩)
    moduleRoot := moduleRootOf libraryDir
    styleDirs := o.styleDirs }

end ThemeOptions

namespace ResolvedPaths

def styleRoot (p : ResolvedPaths) : Path := p.styles.join ⟨"style"⟩
def colorsFile (p : ResolvedPaths) : Path := (p.styleRoot.join ⟨"color"⟩).join ⟨"colors.less"⟩
def themesDir (p : ResolvedPaths) : Path := p.styleRoot.join ⟨"themes"⟩
def defaultThemeFile (p : ResolvedPaths) : Path := p.themesDir.join ⟨"default.less"⟩
def probeSearch (p : ResolvedPaths) : List Path := p.styleRoot :: p.styleDirs
def userSearch (p : ResolvedPaths) : List Path := p.styles :: p.styleDirs
def librarySearch (p : ResolvedPaths) : List Path := [p.styles]

end ResolvedPaths

abbrev ThemeTable := List (Text × List (Text × Text))

structure PluginOptions where
  theme : ThemeOptions := {}
  lessFile : Text := defaultLessFile
  lessScript : Text := defaultLessScript
  classPrefix : Text := defaultPrefix
  customThemes : ThemeTable := []
deriving DecidableEq, Repr

end ColorTheme
