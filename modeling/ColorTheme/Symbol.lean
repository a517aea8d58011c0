import ColorTheme.Color
import ColorTheme.Shade
import ColorTheme.Variable.Chain

/-!
Variables that stand for colors, and the symbols that a theme exposes. A symbol keeps the
expression of its own file where there is one, and a resolved color otherwise. -/
namespace ColorTheme

namespace Variable

/-- The value at the end of a declaration: its own, or what its reference leads to. A cycle is
an error, and a reference to nothing has no value. -/
def terminal (table : Bindings) (v : Variable) : Except (List Text) (Option Text) :=
  if isReference v.value then
    match resolve table v.value with
    | .value value => .ok (some value)
    | .dangling => .ok none
    | .cycle path => .error path
  else .ok (some v.value)

def bindColors (table : Bindings) (classifier : Classifier) :
    Bindings → List Variable → Except (List Text) Bindings
  | colors, [] => .ok colors
  | colors, v :: rest =>
    match terminal table v with
    | .error path => .error path
    | .ok none => bindColors table classifier colors rest
    | .ok (some value) =>
      let colors := if classifier.isColor value then colors.insert v.name value else colors
      bindColors table classifier colors rest

/-- The colors among the declarations; references are followed through all of them, forward
ones too. -/
def colors (declared : List Variable) (classifier : Classifier) :
    Except (List Text) Bindings :=
  bindColors (Bindings.ofVariables declared) classifier {} declared

end Variable

namespace Symbol

def merge (colors raw : Bindings) : Bindings := colors.extend raw.entries

def select (requested : List Text) (symbols : Bindings) : List Text :=
  requested.foldl (fun chosen name =>
    if symbols.contains name && !Shade.isShadeName name && !chosen.contains name then
      chosen ++ [name]
    else chosen) []

end Symbol
end ColorTheme
