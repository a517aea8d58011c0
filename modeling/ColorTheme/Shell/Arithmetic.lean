import ColorTheme.Shell.Format

/-!
Whole-number expressions: comparisons, conjunctions, sums and products, with names for
variables. Truth is one and its contrary zero. -/
namespace ColorTheme.Shell.Arithmetic

inductive Symbol
  | number (n : Int)
  | operator (text : Text)
deriving DecidableEq, Repr

def operators : List Text :=
  ["&&", "||", "==", "!=", "<=", ">=", "<", ">", "+", "-", "*", "/", "%", "(", ")", "!"]

def symbols (lookup : Text → Text) : (fuel : Nat) → Text → Option (List Symbol)
  | _, [] => some []
  | 0, _ => none
  | n + 1, c :: rest =>
    let text := c :: rest
    if c = ' ' || c = '\t' || c = '\n' then symbols lookup n rest
    else if c.isDigit then do
      let value := Format.decimal (text.takeWhile Char.isDigit)
      return .number value :: (← symbols lookup n (text.dropWhile Char.isDigit))
    else if c.isAlpha || c = '_' then do
      let isPart (d : Char) : Bool := d.isAlphanum || d = '_'
      let value := lookup (text.takeWhile isPart)
      let value ← if value.isEmpty then some 0 else Format.integer? value
      return .number value :: (← symbols lookup n (text.dropWhile isPart))
    else do
      let operator ← operators.find? fun operator => Text.startsWith operator text
      return .operator operator :: (← symbols lookup n (text.drop operator.length))

def strength? : Symbol → Option Nat
  | .number _ => none
  | .operator text =>
    [("||".toList, 1), ("&&".toList, 2), ("==".toList, 3), ("!=".toList, 3), ("<".toList, 4),
      ("<=".toList, 4), (">".toList, 4), (">=".toList, 4), ("+".toList, 5), ("-".toList, 5),
      ("*".toList, 6), ("/".toList, 6), ("%".toList, 6)].lookup text

def truth (b : Bool) : Int := if b then 1 else 0

def combine? (operator : Text) (a b : Int) : Option Int :=
  if operator = "+" then some (a + b)
  else if operator = "-" then some (a - b)
  else if operator = "*" then some (a * b)
  else if operator = "/" then if b = 0 then none else some (a.tdiv b)
  else if operator = "%" then if b = 0 then none else some (a.tmod b)
  else if operator = "<" then some (truth (a < b))
  else if operator = "<=" then some (truth (a ≤ b))
  else if operator = ">" then some (truth (b < a))
  else if operator = ">=" then some (truth (b ≤ a))
  else if operator = "==" then some (truth (a = b))
  else if operator = "!=" then some (truth (a ≠ b))
  else if operator = "&&" then some (truth (a ≠ 0 && b ≠ 0))
  else if operator = "||" then some (truth (a ≠ 0 || b ≠ 0))
  else none

mutual

def operand : (fuel : Nat) → List Symbol → Option (Int × List Symbol)
  | 0, _ => none
  | _ + 1, [] => none
  | _ + 1, .number value :: rest => some (value, rest)
  | n + 1, .operator text :: rest => do
    if text = "(" then
      let (value, rest) ← expression n 0 rest
      match rest with
      | .operator closing :: rest => if closing = ")" then some (value, rest) else none
      | _ => none
    else
      let (value, rest) ← operand n rest
      if text = "-" then some (-value, rest)
      else if text = "+" then some (value, rest)
      else if text = "!" then some (truth (value = 0), rest)
      else none

/-- An expression whose operators bind at least as tightly as `least`. -/
def expression : (fuel : Nat) → (least : Nat) → List Symbol → Option (Int × List Symbol)
  | 0, _, _ => none
  | n + 1, least, text => do
    let (value, rest) ← operand n text
    further n least value rest

def further : (fuel : Nat) → (least : Nat) → Int → List Symbol → Option (Int × List Symbol)
  | 0, _, _, _ => none
  | n + 1, least, a, text =>
    match text with
    | .operator operator :: rest =>
      match strength? (.operator operator) with
      | none => some (a, text)
      | some strength =>
        if strength < least then some (a, text)
        else do
          let (b, rest) ← expression n (strength + 1) rest
          further n least (← combine? operator a b) rest
    | _ => some (a, text)

end

/-- The value of an expression; an empty one is zero. -/
def eval? (lookup : Text → Text) (text : Text) : Option Int := do
  let symbols ← symbols lookup text.length text
  if symbols.isEmpty then return 0
  let (value, rest) ← expression (3 * symbols.length + 3) 0 symbols
  if rest.isEmpty then return value else none

end ColorTheme.Shell.Arithmetic
