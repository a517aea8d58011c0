import ColorTheme.External
import ColorTheme.Shell.Glob
import ColorTheme.Shell.Script
import ColorTheme.Shell.Tool

/-!
The state of a running script: its variables, the files, and channels that hold what was
written and is not yet read. Time is counted, not spent. -/
namespace ColorTheme.Shell

inductive Handle
  | channel (index : Nat)
  | file (path : Path)
  | nothing
deriving DecidableEq, Repr

abbrev Handles := List (Nat × Handle)

structure Session where
  files : Files
  channels : Array Text := #[]
  handles : Handles := []
  clock : Nat := 0
  deadline : Option Nat := none
  number : Nat := 4000
  name : Text := "sh"
  arguments : List Text := []
  values : List (Text × Text) := []
  exported : List Text := []
  functions : List (Text × Script) := []
  status : Nat := 0
  stopOnError : Bool := false
  loops : Nat := 0
  farewell : Option Text := none

inductive Leave
  | exit (status : Nat)
  | killed (signal : Nat)
  | stalled
  | fromFunction
  | fromLoop (levels : Nat)
  | nextRound (levels : Nat)

abbrev Running := ExceptT Leave (StateM Session)

namespace Session

def valueOf? (s : Session) (name : Text) : Option Text := s.values.lookup name

def assign (name value : Text) (s : Session) : Session :=
  { s with values := (name, value) :: s.values.filter (·.1 ≠ name) }

def unset (name : Text) (s : Session) : Session :=
  { s with values := s.values.filter (·.1 ≠ name)
           exported := s.exported.filter (· ≠ name) }

def parameter? (s : Session) (name : Text) : Option Text :=
  match Text.number? name with
  | some 0 => some s.name
  | some n => s.arguments[n - 1]?
  | none =>
    if name = "@" || name = "*" then some (List.intercalate [' '] s.arguments)
    else if name = "#" then some (Text.ofNat s.arguments.length)
    else if name = "?" then some (Text.ofNat s.status)
    else if name = "$" then some (Text.ofNat s.number)
    else if name = "!" || name = "-" then some []
    else s.valueOf? name

def separators (s : Session) : Text := (s.valueOf? "IFS").getD " \t\n"

def openChannel (text : Text) (s : Session) : Handle × Session :=
  (.channel s.channels.size, { s with channels := s.channels.push text })

def connect (handle : Nat) (target : Handle) (handles : Handles) : Handles :=
  (handle, target) :: handles.filter (·.1 ≠ handle)

def handleOf (s : Session) (handle : Nat) : Handle := (s.handles.lookup handle).getD .nothing

def write (handle : Nat) (text : Text) (s : Session) : Session :=
  match s.handleOf handle with
  | .channel i => { s with channels := s.channels.modify i (· ++ text) }
  | .file path =>
    match s.files.append path (Octets.toBytes text) with
    | .ok files => { s with files }
    | .error _ => s
  | .nothing => s

def waiting (s : Session) : Text :=
  match s.handleOf 0 with
  | .channel i => s.channels.getD i []
  | _ => []

def leave (rest : Text) (s : Session) : Session :=
  match s.handleOf 0 with
  | .channel i => { s with channels := s.channels.setIfInBounds i rest }
  | _ => s

end Session

/-- Complains as the shell does: with its name and the line. -/
def complain (line : Nat) (message : Text) : Running Unit :=
  modify fun s =>
    s.write 2 (s.name ++ ": " ++ Text.ofNat line ++ ": " ++ message ++ "\n")

def setStatus (status : Nat) : Running Unit := modify fun s => { s with status }

def observe (act : Running α) : Running (Except Leave α) := fun s =>
  let (result, s) := act.run s
  (.ok result, s)

def withHandles (handles : Handles) (act : Running α) : Running α := do
  let old := (← get).handles
  modify fun s => { s with handles }
  let result ← observe act
  modify fun s => { s with handles := old }
  liftExcept result
where
  liftExcept : Except Leave α → Running α
    | .ok a => pure a
    | .error e => throw e

/-- Runs an action whose effects on the shell itself are forgotten; files, channels and the clock
stay. An exit ends only the action, and its status counts. -/
def isolated (act : Running Unit) : Running Unit := do
  let old ← get
  let result ← observe act
  modify fun s =>
    { old with files := { s.files with current := old.files.current }
               channels := s.channels, clock := s.clock, status := s.status }
  match result with
  | .error (.exit status) => setStatus status
  | .error .stalled => throw .stalled
  | .error (.killed signal) => throw (.killed signal)
  | _ => pure ()

/-- Lets time pass; what does not end before the deadline stalls. -/
def pass (nanoseconds : Nat) : Running Unit := do
  modify fun s => { s with clock := s.clock + nanoseconds }
  let s ← get
  if s.deadline.any (· ≤ s.clock) then throw .stalled

/-! Fields. -/

inductive Atom
  | char (c : Char) (quoted : Bool)
  | valueChar (c : Char)
  | quotes
  | boundary
  /-- No field is made for the quotes around this. -/
  | vanished
deriving DecidableEq, Repr

structure Field where
  text : List Glob.Marked := []
  present : Bool := false
  vanishes : Bool := false

/-- A field counts if it has characters, or quotes that were not around an empty list. -/
def Field.close (f : Field) : List (List Glob.Marked) :=
  if !f.text.isEmpty || (f.present && !f.vanishes) then [f.text.reverse] else []

def splitFields (separators : Text) : Field → List Atom → List (List Glob.Marked)
  | field, [] => field.close
  | field, atom :: rest =>
    match atom with
    | .char c quoted => splitFields separators { field with text := (c, quoted) :: field.text } rest
    | .valueChar c =>
      if !separators.contains c then
        splitFields separators { field with text := (c, false) :: field.text } rest
      else if c = ' ' || c = '\t' || c = '\n' then
        field.close ++ splitFields separators {} rest
      else [field.text.reverse] ++ splitFields separators {} rest
    | .quotes => splitFields separators { field with present := true } rest
    | .vanished => splitFields separators { field with vanishes := true } rest
    | .boundary => field.close ++ splitFields separators {} rest

def atomMark? : Atom → Option Glob.Marked
  | .char c quoted => some (c, quoted)
  | .valueChar c => some (c, false)
  | .boundary => some (' ', true)
  | _ => none

def plainText (field : List Glob.Marked) : Text := field.map (·.1)

def fieldParts (field : List Glob.Marked) : List (List Glob.Marked) :=
  field.splitOnP fun (c, _) => c = '/'

def extendPaths (fs : Files) (part : List Glob.Marked) (start : Text) : List Text :=
  if Glob.hasWildcards part then
    let directory : Text := if start.isEmpty then ['.'] else start
    let names := ((fs.list (pathOf directory)).toOption.getD []).map Octets.ofText
    let visible := names.filter fun name =>
      name.head? != some '.' || (part.head?.map (·.1)) = some '.'
    (visible.filter (Glob.covers (Glob.ofMarked part))).map (start ++ ·)
  else [start ++ plainText part]

def joinParts (fs : Files) : List (List Glob.Marked) → List Text → List Text
  | [], paths => paths
  | [part], paths => paths.flatMap (extendPaths fs part)
  | part :: rest, paths =>
    joinParts fs rest ((paths.flatMap (extendPaths fs part)).map (· ++ ['/']))

def expandPaths (fs : Files) (field : List Glob.Marked) : List Text :=
  if !Glob.hasWildcards field then [plainText field]
  else
    let paths := (joinParts fs (fieldParts field) [[]]).filter fun path =>
      (fs.locate (pathOf path)).toOption.isSome
    if paths.isEmpty then [plainText field] else Text.sortBy Text.before paths

end ColorTheme.Shell
