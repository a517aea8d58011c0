import ColorTheme.Text

/-!
Left-to-right search with non-overlapping matches. A matcher looks at one place of a text:
it sees the character before it and the text from it on, and answers a value and the text
that it leaves over. Every place is tried in turn and the search goes on after each match. -/
namespace ColorTheme.Text

abbrev Matcher (α : Type) := (before : Option Char) → Text → Option (α × Text)

/-- The text cut into characters that no match covers and the values of the matches.
`skip` counts the characters that the last match still covers. -/
def pieces (m : Matcher α) : (skip : Nat) → (before : Option Char) → Text → List (Char ⊕ α)
  | _, _, [] => []
  | skip + 1, _, c :: rest => pieces m skip (some c) rest
  | 0, before, c :: rest =>
    match m before (c :: rest) with
    | some (value, left) => .inr value :: pieces m (rest.length - left.length) (some c) rest
    | none => .inl c :: pieces m 0 (some c) rest

def findAll (m : Matcher α) (text : Text) : List α :=
  (pieces m 0 none text).filterMap Sum.getRight?

def find? (m : Matcher α) (text : Text) : Option α := (findAll m text).head?

def replaceBy (m : Matcher Text) (text : Text) : Text :=
  (pieces m 0 none text).flatMap (Sum.elim ([·]) id)

def erase (m : Matcher Unit) (text : Text) : Text :=
  replaceBy (fun before here => (m before here).map fun (_, left) => ([], left)) text

def literal (needle : Text) : Matcher Unit := fun _ here =>
  if needle.isEmpty then none else (after? needle here).map ((), ·)

def replaceAll (needle replacement text : Text) : Text :=
  replaceBy (fun before here => (literal needle before here).map fun (_, left) =>
    (replacement, left)) text

/-- A word starts here: what stands before, if anything, is no word character. -/
def atBoundary (isWord : Char → Bool) (before : Option Char) : Bool := !before.any isWord

def atLineStart (before : Option Char) : Bool := before.all (· = '\n')

/-- The text up to the last `stop` of its first line, and what comes after that `stop`. -/
def cutLineLast? (stop : Char) (text : Text) : Option (Text × Text) :=
  let line := text.takeWhile (· ≠ '\n')
  (cutLast? stop line).map fun (head, tail) => (head, tail ++ text.dropWhile (· ≠ '\n'))

end ColorTheme.Text
