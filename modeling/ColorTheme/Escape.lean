import ColorTheme.Bindings
import ColorTheme.Color
import ColorTheme.Sentinel

/-!
Escaping of color-function calls. A call on a theme variable would be lost in a computed
literal, so each distinct call is compiled as a sentinel and restored afterwards. -/
namespace ColorTheme

structure EscapedCalls where
  entries : List (Text × Text) := []
deriving DecidableEq, Repr

namespace EscapedCalls

def sentinelFor? (calls : EscapedCalls) (call : Text) : Option Text :=
  (calls.entries.find? fun entry => entry.2 = call).map Prod.fst

def excluded : List Text := ["@black", "@white", "@color"]

def functions : List Text := colorFunctions.filter (· ≠ "color")

/-- A call without inner brackets that starts here: its text and its arguments. -/
def call : Text.Matcher (Text × Text) := fun before here =>
  if !Text.atBoundary Text.isWordChar before then none
  else functions.findSome? fun name => do
    let text ← Text.after? (name ++ "(") here
    let arguments := text.takeWhile fun c => c ≠ '(' && c ≠ ')'
    let rest ← Text.after? ")" (text.drop arguments.length)
    return ((name ++ "(" ++ arguments ++ ")", arguments), rest)

def isEscapable (symbols : Bindings) (arguments : Text) : Bool :=
  let first := Text.trim (arguments.takeWhile (· ≠ ','))
  first.head? = some '@' && !excluded.contains first && symbols.contains first

def assemble (symbols : Bindings) : EscapedCalls → Allocator →
    List (Char ⊕ (Text × Text)) → Option (Text × EscapedCalls × Allocator)
  | calls, a, [] => some ([], calls, a)
  | calls, a, .inl c :: rest =>
    (assemble symbols calls a rest).map fun (text, out) => (c :: text, out)
  | calls, a, .inr (call, arguments) :: rest =>
    if !isEscapable symbols arguments then
      (assemble symbols calls a rest).map fun (text, out) => (call ++ text, out)
    else match calls.sentinelFor? call with
      | some sentinel =>
        (assemble symbols calls a rest).map fun (text, out) => (sentinel ++ text, out)
      | none => do
        let (sentinel, a) ← a.next
        let (text, out) ← assemble symbols ⟨calls.entries ++ [(sentinel, call)]⟩ a rest
        return (sentinel ++ text, out)

def escape (source : Text) (symbols : Bindings) (a : Allocator) :
    Option (Text × EscapedCalls × Allocator) :=
  assemble symbols {} a (Text.pieces call 0 none source)

end EscapedCalls
end ColorTheme
