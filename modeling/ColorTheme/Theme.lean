import ColorTheme.Failure
import ColorTheme.Options

/-!
The themes of a component library. A theme is a style sheet in the themes directory; its
variables are its own, overlaid by those of the variable file and then by the user's. -/
namespace ColorTheme

structure Themes where
  entries : List (Text × Bindings) := []
deriving DecidableEq, Repr

namespace Themes

def get? (t : Themes) (name : Text) : Option Bindings := t.entries.lookup name

/-- The sheet that lists the others is no theme. -/
def indexName : Text := "index"

def sheetExtension : Text := "less"

def nameOf? (file : Path) : Option Text :=
  if file.extension? = some sheetExtension then
    file.stem?.filter (· ≠ indexName)
  else none

/-- The variables of a theme: its own first, the user's last. -/
def overlay (own base custom : List (Text × Text)) : Bindings :=
  ((Bindings.ofList own).extend base).extend custom

/-- Entries in the order of their names, with one more, in the place of one of its name. -/
def addSorted (name : Text) (values : Bindings) (entries : List (Text × Bindings)) :
    List (Text × Bindings) :=
  entries.filter (Text.before ·.1 name) ++
    (name, values) :: entries.filter (Text.before name ·.1)

def discoverIn (fs : Files) (directory : Path) (base : Bindings) (custom : ThemeTable) :
    List Text → Except Failure Themes
  | [] => .ok {}
  | file :: rest => do
    let path := directory.join ⟨file⟩
    match nameOf? path with
    | none => discoverIn fs directory base custom rest
    | some name =>
      let own ← fs.readVariables path
      let others ← discoverIn fs directory base custom rest
      let values := overlay (Bindings.ofVariables own).entries base.entries
        ((custom.lookup name).getD [])
      return ⟨addSorted name values others.entries⟩

def discover (fs : Files) (directory variableFile : Path) (custom : ThemeTable) :
    Except Failure Themes := do
  let base ← fs.readVariables variableFile
  let files ← (fs.list directory).mapError (Failure.read directory)
  discoverIn fs directory (Bindings.ofVariables base) custom files

def darkName : Text := "dark"
def defaultName : Text := "default"

def defaultVariables (t : Themes) : List Text :=
  Text.sortBy Text.before ([darkName, defaultName].flatMap fun name =>
    ((t.get? name).map Bindings.names).getD []).eraseDups

def sorted (t : Themes) : ThemeTable := t.entries.map fun (name, values) =>
  (name, values.sorted)

end Themes

structure TagColor where
  name : Text
  color : Text
  background : Text
  border : Text

/-- Tag colors come from no variable, so they are written as they are. -/
def tagPalette : List TagColor :=
  [⟨"pink", "#eb2f96", "#fff0f6", "#ffadd2"⟩, ⟨"magenta", "#eb2f96", "#fff0f6", "#ffadd2"⟩,
    ⟨"red", "#f5222d", "#fff0f6", "#ffa39e"⟩, ⟨"volcano", "#fa541c", "#fff2e8", "#ffbb96"⟩,
    ⟨"orange", "#fa8c16", "#fff7e6", "#ffd591"⟩, ⟨"yellow", "#fadb14", "#feffe6", "#fffb8f"⟩,
    ⟨"gold", "#faad14", "#fffbe6", "#ffe58f"⟩, ⟨"cyan", "#13c2c2", "#e6fffb", "#87e8de"⟩,
    ⟨"lime", "#a0d911", "#fcffe6", "#eaff8f"⟩, ⟨"green", "#52c41a", "#f6ffed", "#b7eb8f"⟩,
    ⟨"blue", "#1890ff", "#e6f7ff", "#91d5ff"⟩, ⟨"geekblue", "#2f54eb", "#f0f5ff", "#adc6ff"⟩,
    ⟨"purple", "#722ed1", "#f9f0ff", "#d3adf7"⟩]

def TagColor.render (classPrefix : Text) (tag : TagColor) : Text :=
  "." ++ classPrefix ++ "-tag-" ++ tag.name ++ " \x7bcolor: " ++ tag.color ++ ";background: " ++
    tag.background ++ ";border-color: " ++ tag.border ++ ";\x7d\n" ++
  "." ++ classPrefix ++ "-tag-" ++ tag.name ++ "-inverse \x7bcolor: #fff;background: " ++
    tag.color ++ ";border-color: " ++ tag.color ++ ";\x7d\n"

def tagPaletteCss (classPrefix : Text) : Text :=
  '\n' :: tagPalette.flatMap (TagColor.render classPrefix)

end ColorTheme
