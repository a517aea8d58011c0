import ColorTheme.Shell.Regex.Parser

/-!
Formatted output: escapes, and formats whose directives consume arguments and are used again
until no argument is left. -/
namespace ColorTheme.Shell.Format

def isOctal (c : Char) : Bool := '0' ≤ c && c ≤ '7'

def byte (n : Nat) : Char := Char.ofNat (n % 256)

def escapeLetters : List (Char × Char) :=
  [('n', '\n'), ('t', '\t'), ('r', '\r'), ('a', '\x07'), ('b', '\x08'), ('f', '\x0c'),
    ('v', '\x0b'), ('\\', '\\')]

def octalDigits (text : Text) : Text × Text :=
  let digits := (text.take 3).takeWhile isOctal
  (digits, text.drop digits.length)

/-- What a backslash before a text stands for; an unknown escape stands for itself. -/
def escape (text : Text) : Text × Text :=
  match text with
  | [] => (['\\'], [])
  | c :: rest =>
    match escapeLetters.lookup c with
    | some d => ([d], rest)
    | none =>
      if isOctal c then
        let (digits, rest) := octalDigits text
        ([byte (Text.valueIn 8 digits)], rest)
      else (['\\', c], rest)

/-- Escapes in an argument, where octal numbers start with a zero; `\c` ends all output, which
is told by the flag. -/
def unescape : (fuel : Nat) → Text → Text × Bool
  | _, [] => ([], false)
  | 0, _ => ([], false)
  | n + 1, '\\' :: rest =>
    match rest with
    | 'c' :: _ => ([], true)
    | '0' :: rest =>
      let (digits, rest) := octalDigits rest
      let (text, stopped) := unescape n rest
      (byte (Text.valueIn 8 digits) :: text, stopped)
    | rest =>
      let (c, rest) := escape rest
      let (text, stopped) := unescape n rest
      (c ++ text, stopped)
  | n + 1, c :: rest =>
    let (text, stopped) := unescape n rest
    (c :: text, stopped)

def unescapeAll (text : Text) : Text × Bool := unescape text.length text

structure Directive where
  left : Bool := false
  zeros : Bool := false
  plus : Bool := false
  blank : Bool := false
  width : Nat := 0
  precision : Option Nat := none
  letter : Char

def decimal (digits : Text) : Nat := (Text.number? digits).getD 0

def directive? (text : Text) : Option (Directive × Text) :=
  let isFlag (c : Char) : Bool := "-+ 0#".toList.contains c
  let flags := text.takeWhile isFlag
  let rest := text.dropWhile isFlag
  let width := rest.takeWhile Char.isDigit
  let rest := rest.dropWhile Char.isDigit
  let (precision, rest) := match rest with
    | '.' :: rest => (some (decimal (rest.takeWhile Char.isDigit)), rest.dropWhile Char.isDigit)
    | rest => (none, rest)
  match rest with
  | [] => none
  | letter :: rest =>
    some ({ left := flags.contains '-', zeros := flags.contains '0', plus := flags.contains '+',
            blank := flags.contains ' ', width := decimal width, precision, letter }, rest)

def pad (d : Directive) (zeros : Bool) (sign text : Text) : Text :=
  let missing := d.width - (sign.length + text.length)
  if d.left then sign ++ text ++ List.replicate missing ' '
  else if zeros then sign ++ List.replicate missing '0' ++ text
  else List.replicate missing ' ' ++ sign ++ text

def integer? (text : Text) : Option Int :=
  match text with
  | '-' :: digits => (Text.number? digits).map fun n => -(n : Int)
  | '+' :: digits => (Text.number? digits).map Int.ofNat
  | '\'' :: c :: _ => some c.toNat
  | '"' :: c :: _ => some c.toNat
  | digits => (Text.number? digits).map Int.ofNat

def number (d : Directive) (n : Int) : Text :=
  let digits := match d.letter with
    | 'x' => Nat.toDigits 16 n.natAbs
    | 'X' => (Nat.toDigits 16 n.natAbs).map Char.toUpper
    | 'o' => Nat.toDigits 8 n.natAbs
    | _ => Nat.toDigits 10 n.natAbs
  let digits := match d.precision with
    | some p => List.replicate (p - digits.length) '0' ++ digits
    | none => digits
  let sign := if n < 0 then ['-'] else if d.plus then ['+'] else if d.blank then [' '] else []
  pad d (d.zeros && d.precision.isNone) sign digits

structure Printed where
  text : Text := []
  stopped : Bool := false
  bad : List Text := []

def Printed.before (text : Text) (p : Printed) : Printed := { p with text := text ++ p.text }

def once : (fuel : Nat) → (format : Text) → List Text → Printed × List Text
  | _, [], arguments => ({}, arguments)
  | 0, _, arguments => ({}, arguments)
  | n + 1, '\\' :: rest, arguments =>
    let (c, rest) := escape rest
    let (p, arguments) := once n rest arguments
    (p.before c, arguments)
  | n + 1, '%' :: '%' :: rest, arguments =>
    let (p, arguments) := once n rest arguments
    (p.before ['%'], arguments)
  | n + 1, '%' :: rest, arguments =>
    match directive? rest with
    | none => ({}, arguments)
    | some (d, rest) =>
      let argument := arguments.headD []
      let (text, stopped, bad) := match d.letter with
        | 's' => (pad d false [] (argument.take (d.precision.getD argument.length)), false, [])
        | 'c' => (pad d false [] (argument.take 1), false, [])
        | 'b' =>
          let (text, stopped) := unescapeAll argument
          (pad d false [] text, stopped, [])
        | _ =>
          match integer? argument with
          | some value => (number d value, false, [])
          | none => (number d 0, false, if argument.isEmpty then [] else [argument])
      if stopped then ({ text, stopped, bad }, [])
      else
        let (p, arguments) := once n rest arguments.tail
        ({ p.before text with bad := bad ++ p.bad }, arguments)
  | n + 1, c :: rest, arguments =>
    let (p, arguments) := once n rest arguments
    (p.before [c], arguments)

def print : (fuel : Nat) → (format : Text) → List Text → Printed
  | 0, _, _ => {}
  | n + 1, format, arguments =>
    let (p, left) := once format.length format arguments
    if p.stopped || left.isEmpty || left.length = arguments.length then p
    else
      let more := print n format left
      { more with text := p.text ++ more.text, bad := p.bad ++ more.bad }

def printAll (format : Text) (arguments : List Text) : Printed :=
  print (arguments.length + 1) format arguments

/-- The arguments with blanks between them and a line feed, which `-n` leaves out. -/
def echo (arguments : List Text) : Text :=
  let (quiet, arguments) : Bool × List Text := match arguments with
    | first :: rest => if first = "-n" then (true, rest) else (false, first :: rest)
    | [] => (false, [])
  let (text, stopped) := unescapeAll (List.intercalate [' '] arguments)
  if quiet || stopped then text else text ++ ['\n']

end ColorTheme.Shell.Format
