import ColorTheme.Text

/-!
Numbers written with digits, the leading ones first. Digits above nine are letters of either
case. -/
namespace ColorTheme.Text

def isDigit (c : Char) : Bool := '0' ≤ c && c ≤ '9'

def isHexDigit (c : Char) : Bool :=
  isDigit c || ('a' ≤ c && c ≤ 'f') || ('A' ≤ c && c ≤ 'F')

def digitValue (c : Char) : Nat :=
  if isDigit c then c.toNat - '0'.toNat
  else if 'a' ≤ c then c.toNat - 'a'.toNat + 10 else c.toNat - 'A'.toNat + 10

def valueIn (base : Nat) (digits : Text) : Nat :=
  digits.foldl (fun n c => base * n + digitValue c) 0

def number? (text : Text) : Option Nat :=
  if text.isEmpty || !text.all isDigit then none else some (valueIn 10 text)

theorem valueIn_concat (base : Nat) (digits : Text) (c : Char) :
    valueIn base (digits ++ [c]) = base * valueIn base digits + digitValue c := by
  simp [valueIn]

end ColorTheme.Text
