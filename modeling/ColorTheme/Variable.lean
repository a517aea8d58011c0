import ColorTheme.Bindings
import ColorTheme.Text.Letter
import ColorTheme.Text.Search

/-!
Variable declarations `@name: value;`. They are found by their shape anywhere in a text, so
whatever is not shaped like one is passed over. -/
namespace ColorTheme

structure Variable where
  name : Text
  value : Text
deriving DecidableEq, Repr

namespace Variable

def isQuote (c : Char) : Bool := c = '\'' || c = '"'

def isGap (c : Char) : Bool := c = ' ' || c = '\t'

def splitQuote : Text → Text × Text
  | [] => ([], [])
  | c :: rest => if isQuote c then ([c], rest) else ([], c :: rest)

/-- A declaration that starts here: `@`, a word in optional quotation marks, a colon and a
value up to the next semicolon. Marks are left out of the name and the value is trimmed. -/
def declared : Text.Matcher Variable := fun _ here => do
  let text ← Text.after? "@" here
  let (_, text) := splitQuote text
  let word := text.takeWhile Text.isWordOrDash
  if word.isEmpty then none
  else
    let (_, text) := splitQuote (text.drop word.length)
    let text ← Text.after? ":" (text.dropWhile isGap)
    let (value, rest) ← Text.cut? [';'] text
    return (⟨'@' :: word, Text.trim value⟩, rest)

def extract (text : Text) : List Variable := Text.findAll declared text

/-- A value that is nothing but the name of another variable. -/
def isReference : Text → Bool
  | '@' :: rest => !rest.isEmpty && rest.all Text.isNameChar
  | _ => false

def render (v : Variable) : Text := v.name ++ ": " ++ v.value ++ ";"

end Variable

namespace Bindings

def ofVariables (declared : List Variable) : Bindings :=
  ofList (declared.map fun v => (v.name, v.value))

def parse (text : Text) : Bindings := ofVariables (Variable.extract text)

end Bindings
end ColorTheme
