import ColorTheme.Text.Search

/-!
Compaction of style sheets by lines. Each pass rewrites the text as it stands and knows no
strings or addresses, so what looks like a comment inside one is removed as well. -/
namespace ColorTheme.Minify

def blockComment : Text.Matcher Unit := fun _ here => do
  let text ← Text.after? "/*" here
  let (_, rest) ← Text.cut? "*/" text
  return ((), rest)

def lineComment : Text.Matcher Unit := fun _ here => do
  let text ← Text.after? "//" here
  return ((), text.dropWhile (· ≠ '\n'))

def comment : Text.Matcher Unit := fun before here =>
  (blockComment before here).orElse fun _ => lineComment before here

/-- Blank lines from a line start on, as far as the last line feed among the blanks. -/
def blankLines : Text.Matcher Unit := fun before here => do
  if Text.atLineStart before then
    let blanks := here.takeWhile Text.isBlank
    let (_, tail) ← Text.cutLast? '\n' blanks
    return ((), tail ++ here.dropWhile Text.isBlank)
  else none

def lineEnd? : Text → Option Text
  | '\r' :: '\n' :: rest => some rest
  | '\r' :: rest => some rest
  | '\n' :: rest => some rest
  | _ => none

/-- A mark, a line end and at least one more blank; all blanks go. -/
def joinBlanks (mark : Char) : Text.Matcher Text := fun _ here =>
  match here with
  | c :: first :: second :: rest =>
    if c = mark && (first = '\n' || first = '\r') && Text.isBlank second then
      some ([mark], rest.dropWhile Text.isBlank)
    else none
  | _ => none

/-- A mark, a line end and another mark; the line end becomes `joint`. -/
def joinMarks (mark other : Char) (joint : Text) : Text.Matcher Text := fun _ here =>
  match here with
  | [] => none
  | c :: rest =>
    if c = mark then
      match lineEnd? rest with
      | some (d :: rest) => if d = other then some (mark :: joint ++ [other], rest) else none
      | _ => none
    else none

def minify (css : Text) : Text :=
  let css := Text.erase comment css
  let css := Text.erase blankLines css
  let css := Text.replaceBy (joinBlanks '{') css
  let css := Text.replaceBy (joinMarks ';' '}' []) css
  let css := Text.replaceBy (joinBlanks ';') css
  Text.replaceBy (joinMarks ',' '.' [' ']) css

def stripBlockComments (css : Text) : Text := Text.erase blockComment css

end ColorTheme.Minify
