import ColorTheme.Shell.Script.Word
import ColorTheme.Text.Numeral

/-!
Scripts as tokens: words, operators and redirections. -/
namespace ColorTheme.Shell

inductive Token
  | word (line : Nat) (word : Word)
  | operator (text : Text)
  | redirection (r : Redirection)

def redirection? : Text → Option (RedirectionKind × Nat × Text)
  | '>' :: '>' :: rest => some (.append, 1, rest)
  | '>' :: '&' :: rest => some (.duplicate, 1, rest)
  | '>' :: '|' :: rest => some (.write, 1, rest)
  | '>' :: rest => some (.write, 1, rest)
  | '<' :: '&' :: rest => some (.duplicate, 0, rest)
  | '<' :: rest => some (.read, 0, rest)
  | _ => none

def operator? : Text → Option (Text × Text)
  | '&' :: '&' :: rest => some ("&&", rest)
  | '|' :: '|' :: rest => some ("||", rest)
  | ';' :: ';' :: rest => some (";;", rest)
  | c :: rest => if ";&|()\n".toList.contains c then some ([c], rest) else none
  | [] => none

/-- The number of a handle, which is written right before an operator. -/
def handleNumber (text : Text) : Option Nat × Text :=
  let rest := text.dropWhile Char.isDigit
  match text, rest with
  | c :: _, d :: _ =>
    if c.isDigit && (d = '<' || d = '>') then (some (Text.digitValue c), rest) else (none, text)
  | _, _ => (none, text)

def tokens : (fuel : Nat) → (line : Nat) → Text → Option (List Token)
  | 0, _, _ => none
  | n + 1, line, text =>
    match text with
    | [] => some []
    | '\\' :: '\n' :: rest => tokens n (line + 1) rest
    | '#' :: rest => tokens n line (rest.dropWhile (· ≠ '\n'))
    | c :: rest =>
      if c = ' ' || c = '\t' then tokens n line rest
      else
        let (handle, after) := handleNumber text
        let here (stripTabs : Bool) (rest : Text) : Option (List Token) := do
          let (word, rest) ← Word.hereDocument? stripTabs rest
          return .redirection ⟨handle.getD 0, .here, word⟩ :: (← tokens n line rest)
        match after with
        | '<' :: '<' :: '-' :: rest => here true rest
        | '<' :: '<' :: rest => here false rest
        | after =>
          match redirection? after, operator? text with
          | some (kind, standard, rest), _ => do
            let rest := rest.dropWhile fun c => c = ' ' || c = '\t'
            let (word, rest) ← Word.pieces .bare (rest.length + 1) rest
            if word.isEmpty then none
            else return .redirection ⟨handle.getD standard, kind, word⟩ :: (← tokens n line rest)
          | none, some (operator, rest) => do
            let line := if operator = "\n" then line + 1 else line
            return .operator operator :: (← tokens n line rest)
          | none, none => do
            let (word, rest) ← Word.pieces .bare (text.length + 1) text
            let feeds := (text.take (text.length - rest.length)).count '\n'
            return .word line word :: (← tokens n (line + feeds) rest)

end ColorTheme.Shell
