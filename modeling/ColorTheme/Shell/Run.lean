import ColorTheme.Shell.Arithmetic
import ColorTheme.Shell.Builtin
import ColorTheme.Shell.Script.Parser

/-!
Running scripts. Every step uses up fuel, so a script that loops forever stalls. Parts of a
pipeline run one after another, which no output can tell from running side by side. -/
namespace ColorTheme.Shell

inductive Program
  | builtin (run : Builtin)
  | tool (run : Tool)
  | shell
  | environment
  /-- A script file with its interpreter and the argument given to it; without an interpreter,
  only a shell runs it. -/
  | script (interpreter : Option Text) (argument : Option Text)

def program? (name : Text) : Option Program :=
  if ["sh", "dash", "bash"].any fun shell : String => shell.toList = name then some .shell
  else if name = "env" then some .environment
  else
    match Builtin.programs.lookup name, Tool.table.lookup name with
    | some run, _ => some (.builtin run)
    | none, some run => some (.tool run)
    | none, none => none

def programDirectories : List Text := ["/bin/", "/usr/bin/"]

def interpreter? (content : Text) : Option (Text × Option Text) :=
  (Text.after? "#!" content).map fun rest =>
    let isBlank (c : Char) : Bool := c = ' ' || c = '\t'
    let line := (rest.takeWhile (· ≠ '\n')).dropWhile isBlank
    let line := (line.reverse.dropWhile isBlank).reverse
    let argument := (line.dropWhile (!isBlank ·)).dropWhile isBlank
    (line.takeWhile (!isBlank ·), if argument.isEmpty then none else some argument)

def programAt (fs : Files) (path : Text) : Except FileError Program :=
  match programDirectories.findSome? fun directory => (Text.after? directory path).bind program? with
  | some program => .ok program
  | none => do
    match fs.at? (← fs.locate (pathOf path)) with
    | some (.file bytes true) =>
      match interpreter? (Octets.ofBytes bytes) with
      | none => .ok (.script none none)
      | some (interpreter, argument) => .ok (.script (some interpreter) argument)
    | some _ => .error .permissionDenied
    | none => .error .notFound

def findProgram (fs : Files) (name : Text) : Except FileError Program :=
  if name.contains '/' then programAt fs name
  else
    match program? name with
    | some program => .ok program
    | none => .error .notFound

def withoutFeeds (text : Text) : Text := (text.reverse.dropWhile (· = '\n')).reverse

def withoutStart (longest : Bool) (glob : Glob) (value : Text) : Text :=
  let lengths := List.range (value.length + 1)
  let lengths := if longest then lengths.reverse else lengths
  match lengths.find? fun n => glob.covers (value.take n) with
  | some n => value.drop n
  | none => value

def withoutEnd (longest : Bool) (glob : Glob) (value : Text) : Text :=
  let lengths := List.range (value.length + 1)
  let lengths := if longest then lengths else lengths.reverse
  match lengths.find? fun n => glob.covers (value.drop n) with
  | some n => value.take n
  | none => value

def valueAtoms (quoted : Bool) (value : Text) : List Atom :=
  value.map fun c => if quoted then .char c true else .valueChar c

/-- The characters of a word that stands for a value separate fields as the value would. -/
def loosen : Atom → Atom
  | .char c false => .valueChar c
  | atom => atom

def argumentAtoms (quoted : Bool) (arguments : List Text) : List Atom :=
  if arguments.isEmpty then [.vanished]
  else List.intercalate [.boundary] (arguments.map fun a =>
    (if quoted then [.quotes] else []) ++ valueAtoms quoted a)

def childName (s : Session) (name : Text) (arguments : List Text) : Session :=
  { s with name, arguments, functions := [], stopOnError := false, farewell := none
           loops := 0
           number := s.number + 1
           values := s.values.filter fun (name, _) => s.exported.contains name }

def openHandle (kind : RedirectionKind) (word : Text) (s : Session) :
    Except FileError (Handle × Session) :=
  let path := pathOf word
  let write (files : Except FileError Files) : Except FileError (Handle × Session) :=
    files.map fun files => (.file path, { s with files })
  if word = "/dev/null" then .ok (.nothing, s)
  else if word = "/dev/stdout" then .ok (s.handleOf 1, s)
  else if word = "/dev/stderr" then .ok (s.handleOf 2, s)
  else
    match kind with
    | .read =>
      match s.files.read path with
      | .ok bytes => .ok (s.openChannel (Octets.ofBytes bytes))
      | .error .isADirectory => .ok (s.openChannel [])
      | .error e => .error e
    | .write => write (s.files.write path [])
    | .append => write (s.files.append path [])
    | .duplicate =>
      .ok (if word = "-" then .nothing else s.handleOf ((Text.number? word).getD 1), s)
    | .here => .ok (s.openChannel word)

def redirectionComplaint (kind : RedirectionKind) (word : Text) (e : FileError) : Text :=
  match kind with
  | .read => "cannot open " ++ word ++ ": " ++
      (if e = .notFound then "No such file".toList else FileError.reason e)
  | _ => "cannot create " ++ word ++ ": " ++
      (if e = .notFound then "Directory nonexistent".toList else FileError.reason e)

def statusNumber : External.Status → Nat
  | .exited code => code
  | .killed signal => 128 + signal

/-- Ends a script that stops on errors, where its status is not tested. -/
def stopIfFailed (tested : Bool) : Running Unit := do
  let s ← get
  if s.stopOnError && !tested && s.status ≠ 0 then throw (.exit s.status)

mutual

def expandPiece : (fuel : Nat) → Piece → Running (List Atom)
  | 0, _ => throw .stalled
  | n + 1, piece =>
    match piece with
    | .char c quoted => return [.char c quoted]
    | .quotes => return [.quotes]
    | .arithmetic expression quoted => do
      let text ← expandText n expression
      let s ← get
      match Arithmetic.eval? (fun name => (s.parameter? name).getD []) text with
      | some value => return valueAtoms quoted (toString value).toList
      | none =>
        complain 1 ("arithmetic expression: expecting primary: \"" ++ text ++ "\"")
        throw (.exit 2)
    | .output script quoted => do
      let text ← capture n script
      return valueAtoms quoted (withoutFeeds text)
    | .parameter name usage word quoted => do
      let s ← get
      let value := s.parameter? name
      let shown : List Atom :=
        if name = "@" || (name = "*" && !quoted) then argumentAtoms quoted s.arguments
        else valueAtoms quoted (value.getD [])
      let present (orEmpty : Bool) : Bool := value.any fun v => !(orEmpty && v.isEmpty)
      match usage with
      | .value => return shown
      | .size => return valueAtoms quoted (Text.ofNat (value.getD []).length)
      | .default orEmpty =>
        if present orEmpty then return shown else return (← expandPieces n word).map loosen
      | .alternative orEmpty =>
        if present orEmpty then return (← expandPieces n word).map loosen else return []
      | .assign orEmpty =>
        if present orEmpty then return shown
        else
          let text ← expandText n word
          modify (Session.assign name text)
          return valueAtoms quoted text
      | .required orEmpty =>
        if present orEmpty then return shown
        else
          let text ← expandText n word
          let reason : Text := if !text.isEmpty then text
            else if orEmpty then "parameter not set or null" else "parameter not set"
          complain 1 (name ++ ": " ++ reason)
          throw (.exit 2)
      | .withoutStart longest =>
        let marks := (← expandPieces n word).filterMap atomMark?
        return valueAtoms quoted (withoutStart longest (Glob.ofMarked marks) (value.getD []))
      | .withoutEnd longest =>
        let marks := (← expandPieces n word).filterMap atomMark?
        return valueAtoms quoted (withoutEnd longest (Glob.ofMarked marks) (value.getD []))

def expandPieces : (fuel : Nat) → Word → Running (List Atom)
  | 0, _ => throw .stalled
  | n + 1, word => do return (← word.mapM (expandPiece n)).flatten

def expandText : (fuel : Nat) → Word → Running Text
  | 0, _ => throw .stalled
  | n + 1, word => do return plainText ((← expandPieces n word).filterMap atomMark?)

def expandFields : (fuel : Nat) → Word → Running (List Text)
  | 0, _ => throw .stalled
  | n + 1, word => do
    let atoms ← expandPieces n word
    let s ← get
    return (splitFields s.separators {} atoms).flatMap (expandPaths s.files)

def capture : (fuel : Nat) → (script : Text) → Running Text
  | 0, _ => throw .stalled
  | n + 1, script => do
    let (handle, s) := (← get).openChannel []
    set s
    isolated (withHandles (Session.connect 1 handle s.handles) (runText n script))
    match handle with
    | .channel i => return (← get).channels.getD i []
    | _ => return []

def runText : (fuel : Nat) → (script : Text) → Running Unit
  | 0, _ => throw .stalled
  | n + 1, text => do
    match Script.parse? text with
    | some script =>
      setStatus 0
      run n false script
    | none =>
      complain 1 "Syntax error"
      throw (.exit 2)

def redirect : (fuel : Nat) → (line : Nat) → List Redirection → Running (Option Handles)
  | 0, _, _ => throw .stalled
  | _ + 1, _, [] => do return some (← get).handles
  | n + 1, line, r :: rest => do
    let word ← expandText n r.word
    match openHandle r.kind word (← get) with
    | .ok (handle, s) =>
      let old := s.handles
      set { s with handles := Session.connect r.handle handle s.handles }
      let handles ← redirect n line rest
      modify fun s => { s with handles := old }
      return handles
    | .error e =>
      complain line (redirectionComplaint r.kind word e)
      setStatus 2
      return none

/-- Runs a script. Where its status is tested, a failure ends nothing. -/
def run : (fuel : Nat) → (tested : Bool) → Script → Running Unit
  | 0, _, _ => throw .stalled
  | n + 1, tested, script =>
    match script with
    | .simple command => do
      runSimple n command
      stopIfFailed tested
    | .pipeline negated parts => do
      runParts n (← get).clock (← get).handles parts
      if negated then
        modify fun s => { s with status := if s.status = 0 then 1 else 0 }
      else stopIfFailed tested
    | .both a b => do
      run n true a
      if (← get).status = 0 then run n tested b
    | .either a b => do
      run n true a
      if (← get).status ≠ 0 then run n tested b
    | .sequence parts => parts.forM (run n tested)
    | .redirected body redirections => do
      match ← redirect n 1 redirections with
      | some handles => withHandles handles (run n tested body)
      | none => stopIfFailed tested
    | .subshell body => do
      isolated (run n tested body)
      stopIfFailed tested
    | .branch condition yes no => do
      run n true condition
      if (← get).status = 0 then run n tested yes
      else
        setStatus 0
        run n tested no
    | .loop wanted condition body => runLoop n tested wanted 0 condition body
    | .each name words body => do
      let items ← match words with
        | some words => pure (← words.mapM (expandFields n)).flatten
        | none => pure (← get).arguments
      setStatus 0
      runEach n tested name body items
    | .choose subject cases => do
      let text ← expandText n subject
      setStatus 0
      runCases n tested text cases
    | .define name body => do
      modify fun s => { s with functions := (name, body) :: s.functions, status := 0 }
    | .background body => do
      let before := (← get).clock
      isolated (run n true body)
      modify fun s => { s with clock := before, status := 0 }

def runRound : (fuel : Nat) → (tested : Bool) → Script → Running Bool
  | 0, _, _ => throw .stalled
  | n + 1, tested, body => do
    modify fun s => { s with loops := s.loops + 1 }
    let result ← observe (run n tested body)
    modify fun s => { s with loops := s.loops - 1 }
    match result with
    | .ok _ => return true
    | .error (.fromLoop 0) => return false
    | .error (.fromLoop (levels + 1)) => throw (.fromLoop levels)
    | .error (.nextRound 0) => return true
    | .error (.nextRound (levels + 1)) => throw (.nextRound levels)
    | .error other => throw other

def runLoop : (fuel : Nat) → (tested wanted : Bool) → (status : Nat) → (condition body : Script) →
    Running Unit
  | 0, _, _, _, _, _ => throw .stalled
  | n + 1, tested, wanted, status, condition, body => do
    let goesOn ← runRound n true condition
    if goesOn && ((← get).status = 0) = wanted then
      if ← runRound n tested body then
        runLoop n tested wanted (← get).status condition body
    else setStatus status

def runEach : (fuel : Nat) → (tested : Bool) → (name : Text) → Script → List Text → Running Unit
  | 0, _, _, _, _ => throw .stalled
  | _ + 1, _, _, _, [] => pure ()
  | n + 1, tested, name, body, item :: rest => do
    modify (Session.assign name item)
    if ← runRound n tested body then runEach n tested name body rest

def runCases : (fuel : Nat) → (tested : Bool) → Text → List (List Word × Script) → Running Unit
  | 0, _, _, _ => throw .stalled
  | _ + 1, _, _, [] => pure ()
  | n + 1, tested, text, (patterns, body) :: rest => do
    let globs ← patterns.mapM fun word => do
      return Glob.ofMarked ((← expandPieces n word).filterMap atomMark?)
    if globs.any (·.covers text) then run n tested body
    else runCases n tested text rest

/-- Runs the parts of a pipeline, each with what the one before it wrote. They take as long as
the slowest. -/
def runParts : (fuel : Nat) → (start : Nat) → Handles → List Script → Running Unit
  | 0, _, _, _ => throw .stalled
  | _ + 1, _, _, [] => pure ()
  | n + 1, start, handles, [last] => do
    let reached := (← get).clock
    modify fun s => { s with clock := start }
    isolated (withHandles handles (run n true last))
    modify fun s => { s with clock := max reached s.clock }
  | n + 1, start, handles, part :: rest => do
    let reached := (← get).clock
    let (pipe, s) := (← get).openChannel []
    set { s with clock := start }
    isolated (withHandles (Session.connect 1 pipe handles) (run n true part))
    modify fun s => { s with clock := max reached s.clock }
    runParts n start (Session.connect 0 pipe handles) rest

def runSimple : (fuel : Nat) → SimpleCommand → Running Unit
  | 0, _ => throw .stalled
  | n + 1, command => do
    let fields := (← command.words.mapM (expandFields n)).flatten
    let old ← get
    match fields with
    | [] =>
      setStatus 0
      let _ ← redirect n command.line command.redirections
      for (name, word) in command.assignments do
        let value ← expandText n word
        modify (Session.assign name value)
    | name :: arguments =>
      match ← redirect n command.line command.redirections with
      | none => pure ()
      | some handles =>
        for (assigned, word) in command.assignments do
          let value ← expandText n word
          modify (Session.assign assigned value)
          modify fun s => { s with exported := assigned :: s.exported }
        if name = "exec" then
          if arguments.isEmpty then modify fun s => { s with handles }
          else withHandles handles (replace n command.line arguments)
        else
          withHandles handles (call n command.line name arguments)
          for (assigned, _) in command.assignments do
            modify fun s =>
              let s := match old.valueOf? assigned with
                | some value => s.assign assigned value
                | none => s.unset assigned
              { s with exported := old.exported }

def replace : (fuel : Nat) → (line : Nat) → List Text → Running Unit
  | 0, _, _ => throw .stalled
  | _ + 1, _, [] => pure ()
  | n + 1, line, name :: arguments => do
    match findProgram (← get).files name with
    | .ok program =>
      match ← launch n program name arguments with
      | .exited code => throw (.exit code)
      | .killed signal => throw (.killed signal)
    | .error e =>
      complain line ("exec: " ++ name ++ ": " ++
        if e = .permissionDenied then "Permission denied" else "not found")
      throw (.exit (if e = .permissionDenied then 126 else 127))

def call : (fuel : Nat) → (line : Nat) → (name : Text) → List Text → Running Unit
  | 0, _, _, _ => throw .stalled
  | n + 1, line, name, arguments => do
    let s ← get
    match s.functions.lookup name, Builtin.table.lookup name with
    | some body, _ =>
      set { s with arguments }
      let result ← observe (run n false body)
      modify fun after => { after with arguments := s.arguments }
      match result with
      | .error .fromFunction | .ok _ => pure ()
      | .error other => throw other
    | none, some builtin => builtin line arguments
    | none, none =>
      if name = "eval" then runText n (List.intercalate [' '] arguments)
      else if name = "command" then
        match arguments with
        | first :: rest => call n line first rest
        | [] => setStatus 0
      else if name = "." then
        match s.files.read (pathOf (arguments.headD [])) with
        | .ok bytes => runText n (Octets.ofBytes bytes)
        | .error _ =>
          complain line (".: cannot open " ++ arguments.headD [] ++ ": No such file")
          throw (.exit 2)
      else
        match findProgram s.files name with
        | .ok program =>
          let status ← launch n program name arguments
          if status = .killed 9 then Builtin.put 2 "Killed\n"
          else if status = .killed 15 then Builtin.put 2 "Terminated\n"
          setStatus (statusNumber status)
        | .error e =>
          complain line (name ++ ": " ++
            if e = .permissionDenied then "Permission denied" else "not found")
          setStatus (if e = .permissionDenied then 126 else 127)

def launch : (fuel : Nat) → Program → (name : Text) → List Text → Running External.Status
  | 0, _, _, _ => throw .stalled
  | n + 1, program, name, arguments => do
    match program with
    | .builtin run =>
      run 1 arguments
      return .exited (← get).status
    | .tool run =>
      run.run arguments
      return .exited (← get).status
    | .environment =>
      let assignments := arguments.takeWhile (·.contains '=')
      match arguments.dropWhile (·.contains '=') with
      | [] => do
        Builtin.environment 1 []
        return .exited 0
      | first :: rest => do
        let s ← get
        for assignment in assignments do Builtin.declare true 1 [assignment]
        match findProgram s.files first with
        | .ok program => launch n program first rest
        | .error e =>
          Builtin.put 2 ("env: '" ++ first ++ "': " ++ FileError.reason e ++ "\n")
          return .exited (if e = .permissionDenied then 126 else 127)
    | .script interpreter argument =>
      let shell : Text := interpreter.getD "/bin/sh"
      match programAt (← get).files shell with
      | .ok program => launch n program shell (argument.toList ++ name :: arguments)
      | .error _ =>
        complain 1 (name ++ ": not found")
        return .exited 127
    | .shell =>
      let switches := arguments.takeWhile fun a => a.head? = some '-' && 1 < a.length
      let operands := arguments.drop switches.length
      let has (letter : Char) : Bool := switches.any (·.contains letter)
      let s ← get
      if has 'c' then
        match operands with
        | [] =>
          Builtin.put 2 (name ++ ": 0: -c requires an argument\n")
          return .exited 2
        | script :: rest =>
          child n (has 'e') (childName s (rest.headD name) rest.tail) script
      else
        match operands with
        | [] =>
          set (s.leave [])
          child n (has 'e') (childName (s.leave []) name []) s.waiting
        | file :: rest =>
          match s.files.read (pathOf file) with
          | .ok bytes => child n (has 'e') (childName s file rest) (Octets.ofBytes bytes)
          | .error _ =>
            Builtin.put 2 (name ++ ": 0: cannot open " ++ file ++ ": No such file\n")
            return .exited 2

def child : (fuel : Nat) → (stopOnError : Bool) → Session → (script : Text) → Running External.Status
  | 0, _, _, _ => throw .stalled
  | n + 1, stopOnError, s, script => do
    let outer ← get
    set { s with stopOnError }
    let result ← observe (runText n script)
    let status : External.Status ← match result with
      | .error (.exit code) => pure (.exited code)
      | .error (.killed signal) => pure (.killed signal)
      | .error .stalled => throw .stalled
      | _ => pure (.exited (← get).status)
    let status : External.Status ← match status, (← get).farewell with
      | .exited code, some action => do
        modify fun s => { s with farewell := none, status := code }
        match ← observe (runText n action) with
        | .error (.exit code) => pure (.exited code)
        | .error (.killed signal) => pure (.killed signal)
        | .error .stalled => throw .stalled
        | _ => pure status
      | status, _ => pure status
    modify fun inner =>
      { outer with files := { inner.files with current := outer.files.current }
                   channels := inner.channels, clock := inner.clock }
    return status

end

def fuel : Nat := 20000

def outcome (command : External.Command) (program : Program) (fs : Files) :
    External.Outcome × Files :=
  let start : Session :=
    { files := fs
      channels := #[Octets.ofBytes command.input, [], []]
      handles := [(0, .channel 0), (1, .channel 1), (2, .channel 2)]
      deadline := command.limit.map (·.nanoseconds) }
  let name := Octets.ofText command.program
  let act : Running External.Status := do
    let status ← launch fuel program name (command.arguments.map Octets.ofText)
    pass 0
    return status
  let (result, s) := act.run.run start
  let files := { s.files with current := fs.current }
  let finished (status : External.Status) : External.Outcome :=
    .finished { status
                stdout := Octets.toBytes (s.channels.getD 1 [])
                stderr := Octets.toBytes (s.channels.getD 2 []) }
  match result with
  | .ok status => (finished status, files)
  | .error (.exit code) => (finished (.exited code), files)
  | .error (.killed signal) => (finished (.killed signal), files)
  | .error _ => (.unfinished, files)

/-- Starts programs among the files and the tools. A script needs an interpreter that is there. -/
def runner : External.Runner Files := fun command => do
  let fs ← get
  let refuse (kind : Text) : StateM Files External.Outcome := return .notStarted kind
  if (command.program :: command.arguments).any (·.contains '\x00') then refuse "InvalidInput"
  else
    match findProgram fs (Octets.ofText command.program) with
    | .error e => refuse e.name
    | .ok (.script none _) => refuse "Uncategorized"
    | .ok program =>
      let interpreter := match program with
        | .script (some interpreter) _ => (programAt fs interpreter).map fun _ => ()
        | _ => .ok ()
      match interpreter with
      | .error e => refuse e.name
      | .ok _ =>
        let (outcome, files) := outcome command program fs
        set files
        return outcome

end ColorTheme.Shell
