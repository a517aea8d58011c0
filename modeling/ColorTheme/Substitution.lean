import ColorTheme.Escape
import ColorTheme.Shade

/-!
Substitution between variables and compiled literals. Forward, variables after the first colon
of a line become literals; backward, literals become variables or shade expressions, and what
the compiler left of declarations is removed. -/
namespace ColorTheme

namespace Text

/-- An occurrence of `needle`: replaced, unless a character follows that continues it. -/
def bounded (needle replacement : Text) (continues : Char → Bool) : Matcher Text :=
  fun before here => do
    let (_, rest) ← literal needle before here
    return (if rest.head?.any continues then needle else replacement, rest)

def replaceBounded (needle replacement : Text) (continues : Char → Bool) (text : Text) : Text :=
  replaceBy (bounded needle replacement continues) text

end Text

namespace Substitution

/-- One line, from its first colon on; the bindings are replaced one after another. -/
def substituteLine (compiled : Bindings) (line : Text) : Text :=
  let head := line.takeWhile (· ≠ ':')
  let tail := line.dropWhile (· ≠ ':')
  head ++ compiled.entries.foldl (fun tail (name, value) =>
    Text.replaceBounded name value Text.isNameChar tail) tail

def forward (source : Text) (compiled : Bindings) : Text :=
  (Text.linesWithEnds source).flatMap (substituteLine compiled)

def fadedLiteral : Text := "rgba(18, 52, 86, 0.2)"
def fadedExpression : Text := "fade(@primary-color, 20%)"

def legacyHack : Text := "\\9"

/-- A declaration that is left over here, to the last semicolon of the line on which its value
begins, and what slashes and points follow. -/
def leftover : Text.Matcher Unit := fun _ here => do
  let text ← Text.after? "@" here
  let word := text.takeWhile Text.isWordOrDash
  if word.isEmpty then none
  else
    let text ← Text.after? ":" (text.drop word.length)
    let (_, rest) ← Text.cutLineLast? ';' (text.dropWhile Text.isBlank)
    return ((), rest.dropWhile fun c => c = '/' || c = '.')

def symbolOf (name : Text) : Text := (Shade.expression? name).getD name

def restoreCalls (calls : EscapedCalls) (css : Text) : Text :=
  calls.entries.foldl (fun css (sentinel, call) =>
    Text.replaceBounded sentinel call Text.isAsciiAlphanumeric css) css

def restoreSymbols (compiled : Bindings) (css : Text) : Text :=
  compiled.entries.foldl (fun css (name, value) =>
    Text.replaceBounded value (symbolOf name) Text.isAsciiAlphanumeric css) css

/-- Escaped calls come first, then literals, the faded primary color, declarations left over
and the legacy hack. -/
def backward (css : Text) (calls : EscapedCalls) (compiled : Bindings) : Text :=
  let css := restoreSymbols compiled (restoreCalls calls css)
  let css := Text.replaceAll fadedLiteral fadedExpression css
  Text.replaceAll legacyHack [] (Text.erase leftover css)

/-- A declaration of `name` that starts here, to the last semicolon of the line. -/
def declarationOf (name : Text) : Text.Matcher Unit := fun _ here => do
  let text ← Text.after? name here
  let text ← Text.after? ":" (text.dropWhile (· = ' '))
  let (_, rest) ← Text.cutLineLast? ';' text
  return ((), rest)

def declare (symbols : Bindings) (name : Text) (css : Text) : Text :=
  name ++ ": " ++ (symbols.get? name).getD [] ++ ";\n" ++ Text.erase (declarationOf name) css ++
    "\n"

def reassemble (css defaultTheme : Text) (selected : List Text) (symbols : Bindings) : Text :=
  selected.foldr (declare symbols) (Text.trim css ++ "\n" ++ defaultTheme)

end Substitution
end ColorTheme
