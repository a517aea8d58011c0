import ColorTheme.Text

/-!
JSON texts of objects, indented by two blanks a level. A text is escaped where JSON asks for it
and nowhere else. -/
namespace ColorTheme.Json

def unicodeEscape (n : Nat) : Text :=
  let digits := Nat.toDigits 16 n
  "\\u" ++ List.replicate (4 - digits.length) '0' ++ digits

def escapeLetters : List (Char × Char) :=
  [('"', '"'), ('\\', '\\'), ('\x08', 'b'), ('\x0c', 'f'), ('\n', 'n'), ('\r', 'r'), ('\t', 't')]

def escapeChar (c : Char) : Text :=
  match escapeLetters.lookup c with
  | some letter => ['\\', letter]
  | none => if c.toNat < 0x20 then unicodeEscape c.toNat else [c]

def quoted (text : Text) : Text := '"' :: text.flatMap escapeChar ++ ['"']

def indentation (depth : Nat) : Text := List.replicate (2 * depth) ' '

def object (depth : Nat) (fields : List (Text × Text)) : Text :=
  if fields.isEmpty then "\x7b\x7d"
  else
    let lines := fields.map fun (name, value) =>
      indentation (depth + 1) ++ quoted name ++ ": " ++ value
    "\x7b\n" ++ List.intercalate ",\n".toList lines ++ "\n" ++ indentation depth ++ "\x7d"

def record (depth : Nat) (entries : List (Text × Text)) : Text :=
  object depth (entries.map fun (name, value) => (name, quoted value))

end ColorTheme.Json
