import ColorTheme.Text

/-!
Style sheets as flat lists of nodes. Selectors, values and blocks are kept as text, so what
a compiler wrote inside them is written again as it stands. At-rules are not taken apart. -/
namespace ColorTheme.Css

structure Declaration where
  property : Text
  value : Text
deriving DecidableEq, Repr

structure Rule where
  selector : Text
  declarations : List Declaration
deriving DecidableEq, Repr

/-- `block` is absent for a statement such as `@import "x";`. -/
structure AtRule where
  name : Text
  prelude : Text
  block : Option Text
deriving DecidableEq, Repr

inductive Node
  | rule (r : Rule)
  | atRule (r : AtRule)
deriving DecidableEq, Repr

abbrev Sheet := List Node

def Declaration.render (d : Declaration) : Text :=
  "  " ++ d.property ++ ": " ++ d.value ++ ";\n"

def Rule.render (r : Rule) : Text :=
  r.selector ++ " \x7b\n" ++ r.declarations.flatMap Declaration.render ++ "\x7d\n"

def AtRule.render (r : AtRule) : Text :=
  '@' :: r.name ++ (if r.prelude.isEmpty then [] else ' ' :: r.prelude) ++
    match r.block with
    | some block => " \x7b\n" ++ block ++ "\n\x7d\n"
    | none => ";\n"

def Node.render : Node → Text
  | .rule r => r.render
  | .atRule r => r.render

namespace Sheet

def render (sheet : Sheet) : Text := sheet.flatMap Node.render

def filterMapRules (f : Rule → Option Rule) (sheet : Sheet) : Sheet :=
  sheet.filterMap fun
    | .rule r => (f r).map .rule
    | .atRule r => some (.atRule r)

def filterRules (keep : Rule → Bool) (sheet : Sheet) : Sheet :=
  filterMapRules (fun r => if keep r then some r else none) sheet

def filterAtRules (keep : AtRule → Bool) (sheet : Sheet) : Sheet :=
  sheet.filter fun
    | .rule _ => true
    | .atRule r => keep r

def rules (sheet : Sheet) : List Rule :=
  sheet.filterMap fun
    | .rule r => some r
    | .atRule _ => none

end Sheet

def Rule.filterDeclarations (keep : Declaration → Bool) (r : Rule) : Rule :=
  { r with declarations := r.declarations.filter keep }

end ColorTheme.Css
