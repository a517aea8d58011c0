import ColorTheme.Failure
import ColorTheme.Options
import ColorTheme.Yaml.Parser

/-!
Options from YAML. A field may be written in snake case or in camel case, but only once; other
keys are passed over. Standing alone, theme options take any scalar for a text; among plugin
options they take only scalars that stand for nothing but a text. -/
namespace ColorTheme

namespace Options

structure Strictness where
  text? : Yaml → Option Text
  isMissing? : Yaml → Option Bool
  emptyIsList : Bool

def lenient : Strictness := ⟨Yaml.text?, Yaml.isMissing?, true⟩
def strict : Strictness :=
  ⟨Yaml.strictText?, fun node => some (node.sense? = some .nothing), false⟩

abbrev Fields := List (Text × Yaml)

def fieldsOf? (node : Yaml) : Option Fields :=
  match node.untagged with
  | .mapping entries => entries.mapM fun (key, value) => key.text?.map (·, value)
  | _ => if node.isEmpty then some [] else none

/-- The value of a field under one of its names: none if there is none, an error if there are
several. -/
def field (fields : Fields) (names : List Text) : Option (Option Yaml) :=
  match fields.filter fun (key, _) => names.contains key with
  | [] => some none
  | [(_, value)] => some (some value)
  | _ => none

def decode (fields : Fields) (names : List Text) (default : α) (read : Yaml → Option α) :
    Option α := do
  match ← field fields names with
  | none => return default
  | some value => read value

def path? (s : Strictness) (node : Yaml) : Option (Option Path) := do
  if ← s.isMissing? node then return none
  else return some ⟨← s.text? node⟩

def texts? (s : Strictness) (node : Yaml) : Option (List Text) :=
  match node.untagged with
  | .sequence items => items.mapM s.text?
  | _ => if s.emptyIsList && node.isEmpty then some [] else none

def oneOrMany? (s : Strictness) (node : Yaml) : Option (List Path) := do
  if ← s.isMissing? node then return []
  else if !node.hasSense then none
  else match node.untagged with
    | .sequence items => items.mapM fun item => item.strictText?.map Path.mk
    | _ => return [⟨← node.strictText?⟩]

def theme? (s : Strictness) (fields : Fields) : Option ThemeOptions := do
  return {
    libraryDir := ← decode fields ["ant_dir", "antDir"] none (path? s)
    libraryStyles := ← decode fields ["antd_styles_dir", "antdStylesDir"] none (path? s)
    componentFile := ← decode fields ["antd_component_file", "antdComponentFile"] none (path? s)
    styleDirs := ← decode fields ["styles_dir", "stylesDir"] [] (oneOrMany? s)
    variableFile := ← decode fields ["var_file", "varFile"] none (path? s)
    outputFile := ← decode fields ["output_file_path", "outputFilePath"] none (path? s)
    themeVariables := ← decode fields ["theme_variables", "themeVariables"] [] (texts? s)
    colorPatterns :=
      ← decode fields ["custom_color_regex_array", "customColorRegexArray"] [] (texts? s) }

/-- A table of texts; of equal keys the last counts. -/
def table? (node : Yaml) : Option (List (Text × Text)) := do
  let fields ← fieldsOf? node
  fields.mapM fun (key, value) => value.text?.map (key, ·)

def customThemes? (node : Yaml) : Option ThemeTable := do
  let fields ← fieldsOf? node
  let tables ← fields.mapM fun (key, value) => (table? value).map (key, ·)
  return tables.foldl (fun table entry => table.filter (·.1 ≠ entry.1) ++ [entry]) []

def lessFileNames : List Text := ["less_file_path", "lessFilePath"]
def lessScriptNames : List Text := ["less_js_path", "lessJSPath", "lessJsPath"]
def classPrefixNames : List Text := ["prefix"]
def customThemesNames : List Text := ["custom_themes", "customThemes"]

def pluginNames : List Text :=
  lessFileNames ++ lessScriptNames ++ classPrefixNames ++ customThemesNames

/-- Whatever else a document for the plugin holds must have a sense. -/
def plugin? (fields : Fields) : Option PluginOptions := do
  let others := fields.filter fun (key, _) => !pluginNames.contains key
  if others.any fun (_, value) => !value.hasSense then none
  else return {
    theme := ← theme? strict others
    lessFile := ← decode fields lessFileNames defaultLessFile Yaml.text?
    lessScript := ← decode fields lessScriptNames defaultLessScript Yaml.text?
    classPrefix := ← decode fields classPrefixNames defaultPrefix Yaml.text?
    customThemes := ← decode fields customThemesNames [] customThemes? }

def fromYaml (read : Fields → Option α) (text : Text) : Except Failure α :=
  match (Yaml.parse? text).bind fieldsOf? |>.bind read with
  | some options => .ok options
  | none => .error .config

def fromFile (read : Fields → Option α) (fs : Files) (path : Path) : Except Failure α := do
  fromYaml read (← fs.readSource path)

end Options

def ThemeOptions.fromYaml (text : Text) : Except Failure ThemeOptions :=
  Options.fromYaml (Options.theme? Options.lenient) text

def ThemeOptions.fromFile (fs : Files) (path : Path) : Except Failure ThemeOptions :=
  Options.fromFile (Options.theme? Options.lenient) fs path

def PluginOptions.fromYaml (text : Text) : Except Failure PluginOptions :=
  Options.fromYaml Options.plugin? text

def PluginOptions.fromFile (fs : Files) (path : Path) : Except Failure PluginOptions :=
  Options.fromFile Options.plugin? fs path

end ColorTheme
