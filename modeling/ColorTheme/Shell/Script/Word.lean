import ColorTheme.Shell.Script

/-!
The words of a script, read with their quotes and expansions. -/
namespace ColorTheme.Shell

def isNameStart (c : Char) : Bool := c.isAlpha || c = '_'
def isNamePart (c : Char) : Bool := c.isAlphanum || c = '_'

namespace Word

inductive Quote | none | single | double
deriving DecidableEq

/-- The text up to what closes `opening`, where quoted text is passed over. -/
def enclosed? (opening closing : Char) : (depth : Nat) → Quote → Text → Option (Text × Text)
  | _, _, [] => Option.none
  | depth, .single, c :: rest =>
    (enclosed? opening closing depth (if c = '\'' then .none else .single) rest).map
      fun (inside, rest) => (c :: inside, rest)
  | depth, quote, '\\' :: c :: rest =>
    (enclosed? opening closing depth quote rest).map fun (inside, rest) =>
      ('\\' :: c :: inside, rest)
  | depth, .double, c :: rest =>
    (enclosed? opening closing depth (if c = '"' then .none else .double) rest).map
      fun (inside, rest) => (c :: inside, rest)
  | depth, .none, c :: rest =>
    if c = closing && depth = 0 then some ([], rest)
    else
      let quote : Quote := if c = '\'' then .single else if c = '"' then .double else .none
      let depth := if c = opening then depth + 1 else if c = closing then depth - 1 else depth
      (enclosed? opening closing depth quote rest).map fun (inside, rest) => (c :: inside, rest)

def backquote : Char := '\x60'

def backquoted? : Text → Option (Text × Text)
  | [] => none
  | '\\' :: c :: rest => (backquoted? rest).map fun (inside, rest) =>
      (if c = backquote || c = '\\' || c = '$' then c :: inside else '\\' :: c :: inside, rest)
  | c :: rest =>
    if c = backquote then some ([], rest)
    else (backquoted? rest).map fun (inside, rest) => (c :: inside, rest)

def parameterName (text : Text) : Text × Text :=
  match text with
  | [] => ([], [])
  | c :: rest =>
    if isNameStart c then (text.takeWhile isNamePart, text.dropWhile isNamePart)
    else if c.isDigit || "@*#?$!-".toList.contains c then ([c], rest)
    else ([], text)

def usage? : Text → Option (Usage × Text)
  | [] => some (.value, [])
  | '#' :: '#' :: word => some (.withoutStart true, word)
  | '#' :: word => some (.withoutStart false, word)
  | '%' :: '%' :: word => some (.withoutEnd true, word)
  | '%' :: word => some (.withoutEnd false, word)
  | c :: rest =>
    let (orEmpty, text) : Bool × Text := if c = ':' then (true, rest) else (false, c :: rest)
    match text with
    | '-' :: word => some (.default orEmpty, word)
    | '=' :: word => some (.assign orEmpty, word)
    | '+' :: word => some (.alternative orEmpty, word)
    | '?' :: word => some (.required orEmpty, word)
    | _ => none

inductive Context
  | bare
  | doubled
  | whole (quoted : Bool)
deriving DecidableEq

def endsBare (c : Char) : Bool := " \t\n;&|<>()".toList.contains c

mutual

def pieces (context : Context) : (fuel : Nat) → Text → Option (Word × Text)
  | 0, _ => none
  | n + 1, text =>
    let quoted : Bool := context = .doubled || context = .whole true
    let go (piece : List Piece) (rest : Text) : Option (Word × Text) :=
      (pieces context n rest).map fun (word, rest) => (piece ++ word, rest)
    match text with
    | [] => if context = .doubled then none else some ([], [])
    | c :: rest =>
      if context = .bare && endsBare c then some ([], text)
      else if context = .doubled && c = '"' then some ([], rest)
      else if c = '\\' then
        match rest with
        | [] => go [.char c quoted] []
        | '\n' :: rest => go [] rest
        | d :: rest =>
          if quoted && !("$\"\\".toList.contains d || d = backquote || d = '\x7d') then
            go [.char c true, .char d true] rest
          else go [.char d true] rest
      else if c = '\'' && !quoted then do
        let (inside, rest) ← Text.cut? "'" rest
        go (.quotes :: inside.map (.char · true)) rest
      else if c = '"' && context ≠ .whole true then do
        let (inside, rest) ← pieces .doubled n rest
        go (.quotes :: inside) rest
      else if c = backquote then do
        let (script, rest) ← backquoted? rest
        go [.output script quoted] rest
      else if c = '$' then do
        let (piece, rest) ← dollar quoted n rest
        go [piece] rest
      else go [.char c quoted] rest

def dollar (quoted : Bool) : (fuel : Nat) → Text → Option (Piece × Text)
  | 0, _ => none
  | n + 1, text =>
    match text with
    | '(' :: rest => do
      let (inside, rest) ← enclosed? '(' ')' 0 .none rest
      match inside with
      | '(' :: expression =>
        if expression.getLast? = some ')' then do
          let (word, _) ← pieces (.whole true) n expression.dropLast
          return (.arithmetic word quoted, rest)
        else return (.output inside quoted, rest)
      | _ => return (.output inside quoted, rest)
    | '{' :: rest => do
      let (inside, rest) ← enclosed? '{' '}' 0 .none rest
      match inside with
      | '#' :: c :: name =>
        let (name, after) := parameterName (c :: name)
        if after.isEmpty then return (.parameter name .size [] quoted, rest) else none
      | _ =>
        let (name, after) := if inside.all Char.isDigit then (inside, []) else parameterName inside
        if name.isEmpty then none
        else
          let (usage, word) ← usage? after
          let (word, _) ← pieces (.whole quoted) n word
          return (.parameter name usage word quoted, rest)
    | _ =>
      let (name, rest) := parameterName text
      if name.isEmpty then return (.char '$' quoted, text)
      else return (.parameter name .value [] quoted, rest)

end

def delimiter (word : Word) : Text × Bool :=
  (word.filterMap fun
    | .char c _ => some c
    | _ => none,
   word.any fun
    | .char _ quoted => quoted
    | .quotes => true
    | _ => false)

def hereLines (stop : Text) (stripTabs : Bool) : List Text → Text × Text
  | [] => ([], [])
  | line :: rest =>
    let line := if stripTabs then line.dropWhile (· = '\t') else line
    if (line.reverse.dropWhile (· = '\n')).reverse = stop then ([], rest.flatten)
    else
      let (body, after) := hereLines stop stripTabs rest
      (line ++ body, after)

def hereDocument? (stripTabs : Bool) (text : Text) : Option (Word × Text) := do
  let text := text.dropWhile fun c => c = ' ' || c = '\t'
  let (word, rest) ← pieces .bare (text.length + 1) text
  let (stop, literal) := delimiter word
  let line := rest.takeWhile (· ≠ '\n')
  let below := (rest.dropWhile (· ≠ '\n')).tail
  let (body, after) := hereLines stop stripTabs (Text.linesWithEnds below)
  let word ← if literal then some (body.map (Piece.char · true))
    else (pieces (.whole true) (body.length + 1) body).map (·.1)
  return (word, line ++ '\n' :: after)

end Word
end ColorTheme.Shell
