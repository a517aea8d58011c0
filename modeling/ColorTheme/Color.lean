import ColorTheme.Text.Case
import ColorTheme.Text.Letter
import ColorTheme.Text.Search

/-!
Which expressions denote colors. The tests run in order, and the first that applies decides:
`rgb` before `px`, deferred functions before the hexadecimal form, and that before the
numeric notation and the color functions. -/
namespace ColorTheme

def colorFunctions : List Text :=
  ["color", "lighten", "darken", "saturate", "desaturate", "fadein", "fadeout", "fade", "spin",
    "mix", "hsv", "tint", "shade", "greyscale", "multiply", "contrast", "screen", "overlay",
    "average"]

/-- Calls that are evaluated only in the browser. -/
def deferredMarkers : List Text := ["colorPalette", "fade"]

/-- Digit counts of hexadecimal colors, in bytes. -/
def hexLengths : List Nat := [3, 4, 6, 8]

def isHexColor (digits : Text) : Bool :=
  hexLengths.contains (Text.byteLength digits) && digits.all Text.isHexDigit

namespace Notation

def keyword? : (word text : Text) → Option Text
  | [], text => some text
  | _ :: _, [] => none
  | a :: word, c :: text =>
    if (Text.caseVariants c).contains a then keyword? word text else none

def isSeparator (c : Char) : Bool := c = ',' || Text.isBlank c

def afterPercent : Text → Text
  | '%' :: text => text
  | text => text

def afterUnit (text : Text) : Text :=
  (([("deg" : Text), "rad", "grad", "turn"].findSome? (keyword? · text))).getD text

def afterComponent? (text : Text) : Option Text :=
  if text.head?.any Text.isDecimal then
    let text := afterUnit (afterPercent (text.dropWhile Text.isDecimal))
    if text.head?.any isSeparator then some (text.dropWhile isSeparator) else none
  else none

def isLast (text : Text) : Bool :=
  let text := text.dropWhile fun c => Text.isBlank c || c = '/'
  let isFigure (c : Char) := Text.isDecimal c || c = '.'
  text.head?.any isFigure && afterPercent (text.dropWhile isFigure) = [')']

def afterSpace? (text : Text) : Option Text := do
  let text ← [("rgb" : Text), "hsl", "hsv"].findSome? (keyword? · text)
  Text.after? "(" ((keyword? "a" text).getD text)

def isNumeric (text : Text) : Bool :=
  match afterSpace? text >>= afterComponent? >>= afterComponent? with
  | none => false
  | some text => isLast text || (afterComponent? text).any isLast

end Notation

/-- A call that starts here: the name is a word of its own, and the line closes the call. -/
def startsCall (name : Text) (before : Option Char) (text : Text) : Bool :=
  Text.atBoundary Text.isWordChar before &&
    (Text.after? (name ++ "(") text).any fun rest => (rest.takeWhile (· ≠ '\n')).contains ')'

def callsColorFunction (text : Text) : Bool :=
  colorFunctions.any fun name =>
    (Text.find? (fun before here => if startsCall name before here then some ((), here) else none)
      text).isSome

/-- An engine of patterns, which are written as texts. What it makes of a valid one tells whether
the pattern matches somewhere in a value. -/
abbrev PatternEngine := Text → Option (Text → Bool)

structure Classifier where
  custom : List (Text → Bool) := []

namespace Classifier

/-- The classifier for a list of patterns, or the first pattern that is not valid. -/
def ofPatterns (engine : PatternEngine) : List Text → Except Text Classifier
  | [] => .ok {}
  | pattern :: rest =>
    match engine pattern with
    | none => .error pattern
    | some test => (ofPatterns engine rest).map fun c => { custom := test :: c.custom }

def isColor (classifier : Classifier) (value : Text) : Bool :=
  if Text.includes "rgb" value then true
  else if value.isEmpty || Text.includes "px" value then false
  else if deferredMarkers.any (Text.includes · value) then true
  else match value with
    | '#' :: digits => isHexColor digits
    | _ => Notation.isNumeric value || classifier.custom.any (· value) ||
        callsColorFunction value

end Classifier
end ColorTheme
