import ColorTheme.Text.Letter

/-!
Palette shades. A shade is named after its base and an ordinal, `base-5`, and is computed in
the browser from the base variable; the shades of the primary color are named after its
family. -/
namespace ColorTheme

def primaryVariable : Text := "@primary-color"

namespace Shade

/-- Ordinals of derived shades; the sixth is the base color itself. -/
def ordinals : List Nat := [1, 2, 3, 4, 5, 7, 8, 9, 10]

def primaryFamily : Text := "@primary"

/-- The base and the ordinal of a shade name: what stands before and after its last hyphen. -/
def split? (name : Text) : Option (Text × Text) := do
  let (base, ordinal) ← Text.cutLast? '-' name
  if base.isEmpty || base.contains '\n' || ordinal.isEmpty || !ordinal.all Text.isDecimal then none
  else return (base, ordinal)

def isShadeName (name : Text) : Bool := (split? name).isSome

def nameOf (base : Text) (ordinal : Nat) : Text :=
  (if base = primaryVariable then primaryFamily else base) ++ '-' :: Text.ofNat ordinal

def withoutSigil (name : Text) : Text := name.dropWhile (· = '@')

def expression? (name : Text) : Option Text :=
  (split? name).map fun (base, ordinal) =>
    let base := if base = primaryFamily then primaryVariable else base
    "color(~`colorPalette(\"@\x7b" ++ withoutSigil base ++ "\x7d\", " ++ ordinal ++ ")`)"

end Shade
end ColorTheme
