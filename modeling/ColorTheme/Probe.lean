import ColorTheme.Bindings
import ColorTheme.Sentinel
import ColorTheme.Text.Search

/-!
The probe sheet and its scan. Each variable and each shade gets a rule of its own; compiled,
the rules show which literal each of them became. -/
namespace ColorTheme

namespace Probe

def selector (name : Text) : Text := '.' :: Shade.withoutSigil name

def rule (name expression : Text) : Text :=
  selector name ++ " \x7b color: " ++ expression ++ "; \x7d\n"

def shadeRules (name : Text) : Text :=
  Shade.ordinals.flatMap fun ordinal =>
    let shade := Shade.nameOf name ordinal
    match Shade.expression? shade with
    | some expression => rule shade expression
    | none => []

def synthesize (palette : Text) (sentinels : SentinelMap) : Text :=
  palette ++ "\n" ++ sentinels.declarations ++ "\n" ++
    sentinels.entries.flatMap (fun (name, sentinel) => rule name sentinel) ++
    sentinels.entries.flatMap (fun (name, _) => shadeRules name)

def isSelectorChar (c : Char) : Bool :=
  Text.isAsciiAlphanumeric c || c = '.' || c = '\'' || c = '-'

/-- A block that sets a color on its first line: the selector and the value. -/
def block : Text.Matcher (Text × Text) := fun _ here => do
  let text ← Text.after? "." here
  let name := text.takeWhile isSelectorChar
  if name.isEmpty then none
  else
    let text ← Text.after? " \x7b\n  color: " (text.drop name.length)
    let (value, rest) ← Text.cutLineLast? ';' text
    return ((name, Text.trim value), rest)

def isKept (name value : Text) : Bool :=
  (name.contains '-' || name.contains '\'') &&
    (Text.startsWith "rgba" value || Text.startsWith "#" value)

/-- Compiled literals by variable, from the blocks whose selector can be a variable and whose
value is a color literal. -/
def scan (css : Text) : Bindings :=
  Bindings.ofList ((Text.findAll block css).filterMap fun (name, value) =>
    if isKept name value then some ('@' :: name, value) else none)

end Probe
end ColorTheme
