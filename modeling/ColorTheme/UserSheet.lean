import ColorTheme.Digest
import ColorTheme.Failure
import ColorTheme.Minify
import ColorTheme.Substitution

/-!
The user's own style sheets: where they are, the digest of what they hold, what is compiled for
each of them, and how the compiled pieces are joined. The digest is a parameter; by default it
is SHA-256. -/
namespace ColorTheme.UserSheet

abbrev Hash := Bytes → Text

def extension : Text := "less"

/-- The style sheets under each directory, by path within a directory. A directory that leads
nowhere has none. -/
def collect (fs : Files) (directories : List Path) : List Path :=
  directories.flatMap fun directory =>
    Text.sortBy Path.before ((fs.walk directory).filter fun path => path.extension? = some extension)

def contents (fs : Files) : List Path → Except Failure Bytes
  | [] => .ok []
  | path :: rest => do
    let bytes ← (fs.read path).mapError (Failure.read path)
    return bytes ++ (← contents fs rest)

/-- One digest for all files, of their contents without a mark between them. -/
def digest (hash : Hash) (fs : Files) (paths : List Path) : Except Failure Text :=
  (contents fs paths).map hash

def fragmentDigest (hash : Hash) (fragment : Text) : Text := hash (Utf8.encode fragment)

/-- An import directive: its whole text and its target, which reaches to the last quotation
mark and semicolon of the line. -/
def importDirective : Text.Matcher (Text × Text) := fun _ here => do
  let text ← Text.after? "@import " here
  match text with
  | [] => none
  | c :: rest =>
    if c = '"' || c = '\'' then
      let line := rest.takeWhile (· ≠ '\n')
      let (target, _) ← lastQuote? line
      let rest := rest.drop (target.length + 2)
      return ((here.take (here.length - rest.length), target), rest)
    else none
where
  lastQuote? : Text → Option (Text × Text)
    | [] => none
    | c :: rest =>
      match lastQuote? rest with
      | some (target, after) => some (c :: target, after)
      | none => if (c = '"' || c = '\'') && rest.head? = some ';' then some ([], rest.tail) else none

def importedFile (directory : Path) (target : Text) : Path :=
  let target := if Text.endsWith ".less" target then target else target ++ ".less"
  (directory.join ⟨target⟩).normalize

/-- The sheet without imports of listed sheets, whose rules would come twice. -/
def dropListed (path : Path) (listed : List Path) (content : Text) : Text :=
  Text.replaceBy (fun before here =>
    (importDirective before here).map fun ((directive, target), rest) =>
      (if listed.any (Path.same (importedFile path.directory target)) then [] else directive, rest))
    content

def prepare (path : Path) (content : Text) (listed : List Path) (compiled : Bindings)
    (variableFile : Path) : Text :=
  "@import \"" ++ variableFile.text ++ "\";\n" ++
    Substitution.forward (dropListed path listed content) compiled

def distinct (hash : Hash) (seen : List Text) : List Text → List Text
  | [] => []
  | fragment :: rest =>
    let d := fragmentDigest hash fragment
    if seen.contains d then distinct hash seen rest
    else fragment :: distinct hash (d :: seen) rest

def joinFragments (hash : Hash) (fragments : List Text) : Text :=
  Text.joinLines (distinct hash [] (fragments.map Minify.stripBlockComments))

end ColorTheme.UserSheet
