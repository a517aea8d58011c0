import ColorTheme.Failure

/-!
Imports and their expansion. An import line is replaced by the expansion of the file that it
names, so a style sheet and all that it imports become one text. The files being expanded form
a chain of distinct places, which is why the expansion ends. -/
namespace ColorTheme.Import

/-- The quoted target of an import line, after an optional list of words in brackets. -/
def target? (line : Text) : Option Text := do
  let text ← Text.after? "@import" (Text.trimEnd line)
  let text := Text.trimStart text
  let text ← match text with
    | '(' :: inner => (Text.cut? [')'] inner).map fun (_, rest) => Text.trimStart rest
    | _ => some text
  let isQuote (c : Char) := c = '"' || c = '\''
  match text with
  | [] => none
  | c :: rest =>
    let target := rest.takeWhile (!isQuote ·)
    if isQuote c && !target.isEmpty && (rest.drop target.length).head?.any isQuote then some target
    else none

def modulePrefix : Char := '~'

/-- The file that a target names. The extension is `less` where the target has none. -/
def resolve (target : Text) (directory moduleRoot : Path) : Path :=
  let path : Path := ⟨target.dropWhile (· = modulePrefix)⟩
  let path := if path.extension?.isNone then path.withExtension "less" else path
  if target.head? = some modulePrefix then moduleRoot.join path else directory.join path

/-- The files being expanded, by canonical place, the outermost first. -/
abbrev Trail := List Path

def key (fs : Files) (path : Path) : Path :=
  match fs.locate path with
  | .ok place => Files.spell place
  | .error _ => path

def isImportLine (line : Text) : Bool := Text.startsWith "@import" line

def expandLines (expand : Path → Except Failure Text) (path moduleRoot : Path) :
    List Text → Except Failure (List Text)
  | [] => .ok []
  | line :: rest => do
    let text ←
      if !isImportLine line then .ok line
      else match target? line with
        | none => .error (.malformedImport path (Text.trim line))
        | some target => expand (resolve target path.directory moduleRoot)
    return text :: (← expandLines expand path moduleRoot rest)

def expandFile (fs : Files) (moduleRoot : Path) : (depth : Nat) → Trail → Path →
    Except Failure Text
  | 0, trail, path => .error (.cycle ((trail ++ [key fs path]).map Path.text))
  | depth + 1, trail, path =>
    let place := key fs path
    if trail.any (Path.same place) then .error (.cycle ((trail ++ [place]).map Path.text))
    else do
      let content ← fs.readSource path
      let lines ← expandLines (expandFile fs moduleRoot depth (trail ++ [place])) path moduleRoot
        (Text.lines content)
      return Text.joinLines lines

/-- The text of a file with all that it imports. Every file of the trail has a place of its own
in the tree, so one step more than the tree has entries suffices. -/
def flatten (fs : Files) (path moduleRoot : Path) : Except Failure Text :=
  expandFile fs moduleRoot (fs.entries.length + 1) [] path

end ColorTheme.Import
