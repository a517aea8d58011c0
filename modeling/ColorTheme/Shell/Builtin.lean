import ColorTheme.Shell.Condition
import ColorTheme.Shell.Session
import ColorTheme.Shell.Tool.Search
import ColorTheme.Shell.Tool.Tree

/-!
Commands that the shell itself carries out, and the table of all tools. -/
namespace ColorTheme.Shell

abbrev Builtin := (line : Nat) → List Text → Running Unit

namespace Builtin

def put (handle : Nat) (text : Text) : Running Unit := modify (Session.write handle text)

def echo : Builtin := fun _ arguments => do
  put 1 (Format.echo arguments)
  setStatus 0

def printf : Builtin := fun line arguments => do
  let arguments := if arguments.head? = some "--".toList then arguments.tail else arguments
  match arguments with
  | [] =>
    complain line "printf: usage: printf format [arg ...]"
    setStatus 2
  | format :: arguments =>
    let printed := Format.printAll format arguments
    put 1 printed.text
    for argument in printed.bad do
      complain line ("printf: " ++ argument ++ ": expected numeric value")
    setStatus (if printed.bad.isEmpty then 0 else 1)

def test : Builtin := fun line arguments => do
  match Condition.holds? (← get).files arguments with
  | some holds => setStatus (if holds then 0 else 1)
  | none =>
    complain line "test: unexpected operator"
    setStatus 2

def bracket : Builtin := fun line arguments => do
  if arguments.getLast? = some "]".toList then test line arguments.dropLast
  else
    complain line "[: missing ]"
    setStatus 2

def statusArgument (arguments : List Text) (status : Nat) : Nat :=
  ((arguments.head?.bind Text.number?).map (· % 256)).getD status

def exit : Builtin := fun line arguments => do
  match arguments with
  | [] => throw (.exit (← get).status)
  | argument :: _ =>
    match Text.number? argument with
    | some n => throw (.exit (n % 256))
    | none =>
      complain line ("exit: Illegal number: " ++ argument)
      throw (.exit 2)

def leaveFunction : Builtin := fun _ arguments => do
  setStatus (statusArgument arguments (← get).status)
  throw .fromFunction

def levels (arguments : List Text) : Nat :=
  ((arguments.head?.bind Text.number?).getD 1) - 1

def leaveLoop : Builtin := fun _ arguments => do
  setStatus 0
  if 0 < (← get).loops then throw (.fromLoop (levels arguments))

def nextRound : Builtin := fun _ arguments => do
  setStatus 0
  if 0 < (← get).loops then throw (.nextRound (levels arguments))

def configure : Builtin := fun _ arguments => do
  setStatus 0
  match arguments with
  | [] => pure ()
  | first :: rest =>
    match first with
    | '-' :: '-' :: [] => modify fun s => { s with arguments := rest }
    | '-' :: letters =>
      modify fun s => { s with stopOnError := s.stopOnError || letters.contains 'e' }
      if !rest.isEmpty && !letters.contains 'o' then
        modify fun s => { s with arguments := if rest.head? = some "--".toList then rest.tail else rest }
    | '+' :: letters =>
      modify fun s => { s with stopOnError := s.stopOnError && !letters.contains 'e' }
    | _ => modify fun s => { s with arguments }

def shift : Builtin := fun line arguments => do
  let n := (arguments.head?.bind Text.number?).getD 1
  let s ← get
  if s.arguments.length < n then
    complain line "shift: can't shift that many"
    throw (.exit 2)
  else
    set { s with arguments := s.arguments.drop n, status := 0 }

def distribute (separators : Text) : (names : List Text) → Text → List (Text × Text)
  | [], _ => []
  | [name], line =>
    let line := line.dropWhile separators.contains
    [(name, (line.reverse.dropWhile separators.contains).reverse)]
  | name :: names, line =>
    let line := line.dropWhile separators.contains
    let isPart (c : Char) : Bool := !separators.contains c
    (name, line.takeWhile isPart) :: distribute separators names (line.dropWhile isPart).tail

/-- Joins lines that a backslash continues and drops other backslashes. -/
def unescapeLine : Text → Text
  | [] => []
  | '\\' :: '\n' :: rest => unescapeLine rest
  | '\\' :: c :: rest => c :: unescapeLine rest
  | c :: rest => c :: unescapeLine rest

def read : Builtin := fun _ arguments => do
  let raw : Bool := arguments.head? = some "-r".toList
  let names := if raw then arguments.tail else arguments
  let s ← get
  let text := s.waiting
  let line := text.takeWhile (· ≠ '\n')
  let rest := text.dropWhile (· ≠ '\n')
  let s := s.leave rest.tail
  let line := if raw then line else unescapeLine line
  let names := if names.isEmpty then ["REPLY".toList] else names
  let s := (distribute s.separators names line).foldl (fun s (name, value) =>
    s.assign name value) s
  set { s with status := if rest.isEmpty then 1 else 0 }

def cd : Builtin := fun line arguments => do
  let s ← get
  let target := (arguments.head?.or (s.valueOf? "HOME")).getD "/"
  match s.files.locate (pathOf target) with
  | .ok place =>
    if s.files.isDirectory place then
      set { s with files := { s.files with current := place }, status := 0 }
    else
      complain line ("cd: can't cd to " ++ target)
      setStatus 2
  | .error _ =>
    complain line ("cd: can't cd to " ++ target)
    setStatus 2

def pwd : Builtin := fun _ _ => do
  put 1 (Octets.ofText (Files.spell (← get).files.current).text ++ "\n")
  setStatus 0

def declare (visible : Bool) : Builtin := fun _ arguments => do
  for argument in arguments do
    let name := argument.takeWhile (· ≠ '=')
    if argument.contains '=' then
      modify (Session.assign name (argument.dropWhile (· ≠ '=')).tail)
    if visible then modify fun s => { s with exported := name :: s.exported }
  setStatus 0

def unset : Builtin := fun _ arguments => do
  for name in arguments do
    modify (Session.unset name)
    modify fun s => { s with functions := s.functions.filter (·.1 ≠ name) }
  setStatus 0

def signal? (text : Text) : Option Nat :=
  match Text.number? text with
  | some n => some n
  | none =>
    let full := if Text.startsWith "SIG" text then text else "SIG" ++ text
    (External.signalNames.find? (·.2 = full)).map (·.1)

/-- The signals that a process passes over, and those that halt it for good. -/
def harmless : List Nat := [0, 17, 18, 23, 28]
def halting : List Nat := [19, 20, 21, 22]

def kill : Builtin := fun line arguments => do
  let (signal, targets) : Option Nat × List Text := match arguments with
    | ['-', 's'] :: name :: rest => (signal? name, rest)
    | ('-' :: name) :: rest => (signal? name, rest)
    | targets => (some 15, targets)
  match signal with
  | none =>
    complain line "kill: invalid signal number or name"
    setStatus 2
  | some signal =>
    let own := Text.ofNat (← get).number
    setStatus 0
    for target in targets do
      if target = own then
        if halting.contains signal then throw .stalled
        else if !harmless.contains signal then throw (.killed signal)
      else
        complain line "kill: No such process"
        setStatus 1

def trap : Builtin := fun _ arguments => do
  match arguments with
  | action :: events =>
    if events.any fun event => event = "EXIT" || event = "0" then
      modify fun s => { s with farewell := if action = "-" then none else some action }
  | [] => pure ()
  setStatus 0

def duration? (text : Text) : Option Nat := do
  let (digits, unit) ← match text.getLast? with
    | some 's' => some (text.dropLast, 1)
    | some 'm' => some (text.dropLast, 60)
    | some 'h' => some (text.dropLast, 3600)
    | some 'd' => some (text.dropLast, 86400)
    | some _ => some (text, 1)
    | none => none
  let (whole, part) := (Text.cut? "." digits).getD (digits, [])
  guard ((whole ++ part).all Char.isDigit && !(whole ++ part).isEmpty)
  let places := (part ++ List.replicate 9 '0').take 9
  return (Format.decimal whole * 1000000000 + Format.decimal places) * unit

def sleep : Builtin := fun _ arguments => do
  if arguments.isEmpty then
    put 2 "sleep: missing operand\nTry 'sleep --help' for more information.\n"
    setStatus 1
  else if arguments.any (· = "infinity".toList) then throw .stalled
  else
    match arguments.mapM duration? with
    | some times =>
      setStatus 0
      pass (times.foldl (· + ·) 0)
    | none =>
      let bad := ((arguments.filter fun a => (duration? a).isNone).headD [])
      put 2 ("sleep: invalid time interval '" ++ bad ++
        "'\nTry 'sleep --help' for more information.\n")
      setStatus 1

def environment : Builtin := fun _ _ => do
  let s ← get
  let lines := s.values.reverse.filterMap fun (name, value) =>
    if s.exported.contains name then some (name ++ "=" ++ value ++ "\n") else none
  put 1 lines.flatten
  setStatus 0

def table : List (Text × Builtin) :=
  [(":", fun _ _ => setStatus 0), ("true", fun _ _ => setStatus 0),
    ("false", fun _ _ => setStatus 1), ("echo", echo), ("printf", printf), ("test", test),
    ("[", bracket), ("exit", exit), ("return", leaveFunction), ("break", leaveLoop),
    ("continue", nextRound), ("set", configure), ("shift", shift), ("read", read), ("cd", cd),
    ("pwd", pwd), ("export", declare true), ("readonly", declare false),
    ("local", declare false), ("unset", unset), ("kill", kill), ("trap", trap),
    ("wait", fun _ _ => setStatus 0), ("umask", fun _ _ => setStatus 0)]

def programs : List (Text × Builtin) :=
  [("true", fun _ _ => setStatus 0), ("false", fun _ _ => setStatus 1), ("echo", echo),
    ("printf", printf), ("test", test), ("[", bracket), ("pwd", pwd), ("sleep", sleep),
    ("printenv", environment), ("yes", fun _ _ => throw .stalled)]

end Builtin

namespace Tool

def table : List (Text × Tool) :=
  [("cat", cat), ("wc", wc), ("tr", tr), ("head", head), ("tail", tail), ("sort", sort),
    ("uniq", uniq), ("cut", cut), ("rev", rev), ("tac", tac), ("tee", tee), ("grep", grep), ("sed", sed),
    ("basename", basename), ("dirname", dirname), ("seq", seq), ("ls", ls), ("mkdir", mkdir),
    ("rm", rm), ("touch", touch), ("cp", cp), ("mv", mv), ("chmod", chmod)]

def run (tool : Tool) (arguments : List Text) : Running Unit := do
  let s ← get
  let (reply, files) := (tool arguments s.waiting).run s.files
  let s := { s with files, status := reply.status }
  let s := if reply.readsInput then s.leave [] else s
  set ((s.write 1 reply.output).write 2 reply.errors)

end Tool
end ColorTheme.Shell
