import ColorTheme.Css.Parser

/-!
Reduction of a compiled sheet to its color-bearing rules, as one pass among others. A pass
changes a parsed sheet; passes run in order on the same sheet. -/
namespace ColorTheme.Css

def colorProperties : List Text := ["color", "background", "border", "box-shadow"]

def palettePrefix : Text := ".main-color .palatte-"

def referencesUrl (value : Text) : Bool :=
  match Text.cut? "url(" value with
  | some (_, rest) => rest.contains ')'
  | none => false

def Declaration.bearsColor (d : Declaration) : Bool :=
  !referencesUrl d.value && colorProperties.any (Text.includes · d.property)

/-- A rule without what bears no color; none if nothing is left or it previews the palette. -/
def Rule.reduce? (r : Rule) : Option Rule :=
  if Text.startsWith palettePrefix r.selector then none
  else
    let kept := r.filterDeclarations Declaration.bearsColor
    if kept.declarations.isEmpty then none else some kept

def Sheet.reduce (sheet : Sheet) : Sheet :=
  (sheet.filterAtRules fun _ => false).filterMapRules Rule.reduce?

structure Pass where
  name : Text
  run : Sheet → Sheet

def colorPass : Pass := ⟨"color-reducer", Sheet.reduce⟩

def dropPass (name : Text) (drops : Text → Bool) : Pass :=
  ⟨name, Sheet.filterRules fun r => !drops r.selector⟩

def process (css : Text) (passes : List Pass) : Except ParseError Text :=
  (Sheet.parse css).map fun sheet => (passes.foldl (fun s pass => pass.run s) sheet).render

def reduceToColors (css : Text) : Except ParseError Text := process css [colorPass]

end ColorTheme.Css
