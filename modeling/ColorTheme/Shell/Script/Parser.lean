import ColorTheme.Shell.Script.Token

/-!
The grammar of scripts. A reader takes tokens and answers what they mean; the words that
open and close commands count only where a command starts. -/
namespace ColorTheme.Shell

abbrev Reader := StateT (List Token) Option

namespace Reader

def peekWord : Reader (Option Text) := do
  match ← get with
  | .word _ word :: _ => return word.plain?
  | _ => return none

def peekOperator : Reader (Option Text) := do
  match ← get with
  | .operator text :: _ => return some text
  | _ => return none

def advance : Reader Unit := modify List.tail

def takeWord (text : Text) : Reader Bool := do
  if (← peekWord) = some text then
    advance
    return true
  else return false

def takeOperator (text : Text) : Reader Bool := do
  if (← peekOperator) = some text then
    advance
    return true
  else return false

def expectWord (text : Text) : Reader Unit := do guard (← takeWord text)
def expectOperator (text : Text) : Reader Unit := do guard (← takeOperator text)

def skipFeeds : Reader Unit :=
  modify fun tokens => tokens.dropWhile fun
    | .operator text => text = "\n"
    | _ => false

def skipSeparators : Reader Unit :=
  modify fun tokens => tokens.dropWhile fun
    | .operator text => text = "\n" || text = ";"
    | _ => false

def words : Reader (List Word) := do
  let tokens ← get
  let isWord : Token → Bool
    | .word _ _ => true
    | _ => false
  set (tokens.dropWhile isWord)
  return (tokens.takeWhile isWord).filterMap fun
    | .word _ word => some word
    | _ => none

def redirections : Reader (List Redirection) := do
  let tokens ← get
  let isRedirection : Token → Bool
    | .redirection _ => true
    | _ => false
  set (tokens.dropWhile isRedirection)
  return (tokens.takeWhile isRedirection).filterMap fun
    | .redirection r => some r
    | _ => none

def assignment? (word : Word) : Option (Text × Word) :=
  let isPart : Piece → Bool
    | .char c false => isNamePart c
    | _ => false
  match word.dropWhile isPart with
  | .char '=' false :: value => do
    let name ← Word.plain? (word.takeWhile isPart)
    match name with
    | c :: _ => if isNameStart c then some (name, value) else none
    | [] => none
  | _ => none

/-- The tokens of a simple command; words before the command itself may assign. -/
def simple (command : SimpleCommand) : List Token → SimpleCommand × List Token
  | .word _ word :: rest =>
    match if command.words.isEmpty then assignment? word else none with
    | some assigned =>
      simple { command with assignments := command.assignments ++ [assigned] } rest
    | none => simple { command with words := command.words ++ [word] } rest
  | .redirection r :: rest =>
    simple { command with redirections := command.redirections ++ [r] } rest
  | rest => (command, rest)

def closers : List Text :=
  ["then", "else", "elif", "fi", "do", "done", "esac", "\x7d", "in"]

def isClosed : Reader Bool := do
  match ← get with
  | [] => return true
  | .operator text :: _ => return text = ")" || text = ";;"
  | .word _ word :: _ => return (word.plain?).any closers.contains
  | .redirection _ :: _ => return false

def patterns : (fuel : Nat) → Reader (List Word)
  | 0 => failure
  | n + 1 => do
    match ← get with
    | .word _ word :: _ =>
      advance
      if ← takeOperator "|" then return word :: (← patterns n)
      else return [word]
    | _ => failure

def plainCommand : Reader Script := do
  let tokens ← get
  let line := match tokens with
    | .word line _ :: _ => line
    | _ => 1
  let (command, rest) := simple { line } tokens
  guard (rest.length < tokens.length)
  set rest
  return .simple command

mutual

def sequence : (fuel : Nat) → Reader Script
  | 0 => failure
  | n + 1 => do
    skipSeparators
    if ← isClosed then return .sequence []
    let first ← conditional n
    let first ← if ← takeOperator "&" then pure (Script.background first) else pure first
    match ← peekOperator with
    | some text => guard (text = ";" || text = "\n" || text = ")" || text = ";;")
    | none => pure ()
    match ← sequence n with
    | .sequence rest => return .sequence (first :: rest)
    | other => return .sequence [first, other]

def conditional : (fuel : Nat) → Reader Script
  | 0 => failure
  | n + 1 => do
    let first ← pipeline n
    furtherConditions n first

def furtherConditions : (fuel : Nat) → Script → Reader Script
  | 0, _ => failure
  | n + 1, first => do
    if ← takeOperator "&&" then
      skipFeeds
      furtherConditions n (.both first (← pipeline n))
    else if ← takeOperator "||" then
      skipFeeds
      furtherConditions n (.either first (← pipeline n))
    else return first

def pipeline : (fuel : Nat) → Reader Script
  | 0 => failure
  | n + 1 => do
    let negated ← takeWord "!"
    let parts ← pipelineParts n
    match negated, parts with
    | false, [part] => return part
    | negated, parts => return .pipeline negated parts

def pipelineParts : (fuel : Nat) → Reader (List Script)
  | 0 => failure
  | n + 1 => do
    let first ← command n
    if ← takeOperator "|" then
      skipFeeds
      return first :: (← pipelineParts n)
    else return [first]

def command : (fuel : Nat) → Reader Script
  | 0 => failure
  | n + 1 => do
    guard (!(← isClosed))
    match ← compound n with
    | some body =>
      match ← redirections with
      | [] => return body
      | redirections => return .redirected body redirections
    | none =>
      match ← get with
      | .word _ word :: .operator opening :: .operator closing :: rest =>
        if opening = "(" && closing = ")" then
          let name ← (word.plain? : Option Text)
          set rest
          skipFeeds
          return .define name (← command n)
        else plainCommand
      | _ => plainCommand

def compound : (fuel : Nat) → Reader (Option Script)
  | 0 => failure
  | n + 1 => do
    if ← takeOperator "(" then
      let body ← sequence n
      expectOperator ")"
      return some (.subshell body)
    else if ← takeWord "\x7b" then
      let body ← sequence n
      expectWord "\x7d"
      return some body
    else if ← takeWord "if" then return some (← branches n)
    else if ← takeWord "while" then return some (← loop n true)
    else if ← takeWord "until" then return some (← loop n false)
    else if ← takeWord "for" then
      match ← words with
      | name :: rest => do
        let name ← (name.plain? : Option Text)
        let items ← match rest with
          | [] => pure none
          | keyword :: items =>
            guard (keyword.plain? = some "in".toList)
            pure (some items)
        skipSeparators
        expectWord "do"
        let body ← sequence n
        expectWord "done"
        return some (.each name items body)
      | [] => failure
    else if ← takeWord "case" then
      match ← get with
      | .word _ subject :: _ =>
        advance
        skipFeeds
        expectWord "in"
        skipFeeds
        return some (.choose subject (← cases n))
      | _ => failure
    else return none

def branches : (fuel : Nat) → Reader Script
  | 0 => failure
  | n + 1 => do
    let condition ← sequence n
    expectWord "then"
    let yes ← sequence n
    if ← takeWord "elif" then return .branch condition yes (← branches n)
    else if ← takeWord "else" then
      let no ← sequence n
      expectWord "fi"
      return .branch condition yes no
    else
      expectWord "fi"
      return .branch condition yes (.sequence [])

def loop : (fuel : Nat) → (wanted : Bool) → Reader Script
  | 0, _ => failure
  | n + 1, wanted => do
    let condition ← sequence n
    expectWord "do"
    let body ← sequence n
    expectWord "done"
    return .loop wanted condition body

def cases : (fuel : Nat) → Reader (List (List Word × Script))
  | 0 => failure
  | n + 1 => do
    skipFeeds
    if ← takeWord "esac" then return []
    let _ ← takeOperator "("
    let alternatives ← patterns n
    expectOperator ")"
    let body ← sequence n
    if ← takeOperator ";;" then return (alternatives, body) :: (← cases n)
    else
      skipFeeds
      expectWord "esac"
      return [(alternatives, body)]

end

end Reader

def Script.parse? (text : Text) : Option Script := do
  let tokens ← tokens (text.length + 1) 1 text
  let (script, rest) ← (Reader.sequence (8 * tokens.length + 8)).run tokens
  guard rest.isEmpty
  return script

end ColorTheme.Shell
