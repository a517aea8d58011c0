import ColorTheme.Text.Letter

/-!
Values of a YAML document. A scalar keeps its text. A plain one may stand for nothing, a truth
value or a number, and is a text only if it stands for none of these; a tag may settle what a
node stands for. -/
namespace ColorTheme

/-- What a tag says about a node. Tags of one's own say what is not known here. -/
inductive Yaml.Tag
  | text | nothing | truth | whole | decimal | own
deriving DecidableEq, Repr

inductive Yaml
  | scalar (text : Text) (plain : Bool)
  | sequence (items : List Yaml)
  | mapping (entries : List (Yaml × Yaml))
  | tagged (tag : Yaml.Tag) (node : Yaml)
deriving Repr, Inhabited

namespace Yaml

def empty : Yaml := .scalar [] true

def untagged : Yaml → Yaml
  | .tagged _ node => node.untagged
  | node => node

def isEmpty (node : Yaml) : Bool :=
  match node.untagged with
  | .scalar text plain => plain && text.isEmpty
  | _ => false

def text? (node : Yaml) : Option Text :=
  match node.untagged with
  | .scalar text _ => some text
  | _ => none

def nothingTexts : List Text := ["~", "null", "Null", "NULL"]

def truthTexts : List Text := ["true", "True", "TRUE", "false", "False", "FALSE"]

def infinityTexts : List Text := [".inf", ".Inf", ".INF"]

def notANumberTexts : List Text := [".nan", ".NaN", ".NAN"]

def afterSign (text : Text) : Text :=
  match text with
  | '+' :: rest => rest
  | '-' :: rest => rest
  | rest => rest

/-- Digits after a leading zero spell a text and no number. -/
def hasLeadingZero (text : Text) : Bool :=
  let digits := afterSign text
  1 < digits.length && digits.head? = some '0' && digits.all Text.isDigit

/-- The amount of a whole number, in decimal or in a base that a letter after a zero
announces. -/
def amount? (text : Text) : Option Nat :=
  let within (base : Nat) (isDigit : Char → Bool) (digits : Text) : Option Nat :=
    if digits.isEmpty || !digits.all isDigit then none else some (Text.valueIn base digits)
  match afterSign text with
  | '0' :: 'x' :: digits => within 16 Text.isHexDigit digits
  | '0' :: 'o' :: digits => within 8 (fun c => '0' ≤ c && c ≤ '7') digits
  | '0' :: 'b' :: digits => within 2 (fun c => c = '0' || c = '1') digits
  | digits => if hasLeadingZero text then none else within 10 Text.isDigit digits

inductive Width
  | word | double | beyond
deriving DecidableEq, Repr

def width? (text : Text) : Option Width :=
  (amount? text).map fun n =>
    if text.head? = some '-' then
      if n ≤ 9223372036854775808 then .word
      else if n ≤ 170141183460469231731687303715884105728 then .double else .beyond
    else if n < 18446744073709551616 then .word
    else if n < 340282366920938463463374607431768211456 then .double else .beyond

/-- Half a unit above the greatest number that a floating point number of 64 bits can hold. -/
def decimalLimit : Nat := (Nat.pow 2 54 - 1) * Nat.pow 2 970

def isFinite (digits : Text) (power : Int) : Bool :=
  let digits := digits.dropWhile (· = '0')
  let places : Int := digits.length + power
  if digits.isEmpty || places < 309 then true
  else if 309 < places then false
  else
    let n := Text.valueIn 10 digits
    if power < 0 then n < decimalLimit * Nat.pow 10 power.natAbs
    else n * Nat.pow 10 power.toNat < decimalLimit

def isFiniteDecimal (text : Text) : Bool :=
  let text := afterSign text
  let whole := text.takeWhile Text.isDigit
  let text := text.drop whole.length
  let (fraction, text) := match text with
    | '.' :: rest => (rest.takeWhile Text.isDigit, rest.dropWhile Text.isDigit)
    | rest => ([], rest)
  let power? : Option Int := match text with
    | [] => some 0
    | e :: rest =>
      if e = 'e' || e = 'E' then
        (Text.number? (afterSign rest)).map fun n => if rest.head? = some '-' then -n else n
      else none
  !(whole.isEmpty && fraction.isEmpty) &&
    power?.any fun power => isFinite (whole ++ fraction) (power - fraction.length)

def isDecimal (text : Text) : Bool :=
  infinityTexts.contains (afterSign text) || notANumberTexts.contains text ||
    isFiniteDecimal text

inductive Sense
  | text | nothing | other
deriving DecidableEq, Repr

/-- The sense of a plain scalar without a tag. There is none for whole numbers that are wider
than a word but not than two. -/
def plainSense? (text : Text) : Option Sense :=
  if text.isEmpty || nothingTexts.contains text then some .nothing
  else if truthTexts.contains text then some .other
  else match width? text with
    | some .word => some .other
    | some .double => none
    | _ => some (if !hasLeadingZero text && isDecimal text then .other else .text)

def Tag.sense? (tag : Tag) (text : Text) : Option Sense :=
  match tag with
  | .text => some .text
  | .nothing => if nothingTexts.contains text then some .nothing else none
  | .truth => if truthTexts.contains text then some .other else none
  | .whole => if width? text = some .word then some .other else none
  | .decimal => if isDecimal text then some .other else none
  | .own => none

def sense? : Yaml → Option Sense
  | .scalar text plain => if plain then plainSense? text else some .text
  | .tagged tag node => do tag.sense? (← node.text?)
  | _ => none

/-- Whether a node only says that there is no value. A tag that says so must be right. -/
def isMissing? : Yaml → Option Bool
  | .scalar text plain => some (plain && (text.isEmpty || nothingTexts.contains text))
  | .tagged .nothing (.scalar text true) =>
    if nothingTexts.contains text then some true else none
  | _ => some false

def strictText? (node : Yaml) : Option Text :=
  if node.sense? = some .text then node.text? else none

mutual

def hasSense : Yaml → Bool
  | .scalar text plain => (Yaml.scalar text plain).sense?.isSome
  | .sequence items => allHaveSense items
  | .mapping entries => entriesHaveSense entries
  | .tagged tag (.scalar text _) => (tag.sense? text).isSome
  | .tagged tag node => tag ≠ .own && node.hasSense

def allHaveSense : List Yaml → Bool
  | [] => true
  | item :: rest => item.hasSense && allHaveSense rest

def entriesHaveSense : List (Yaml × Yaml) → Bool
  | [] => true
  | (key, value) :: rest => key.hasSense && value.hasSense && entriesHaveSense rest

end

end Yaml
end ColorTheme
