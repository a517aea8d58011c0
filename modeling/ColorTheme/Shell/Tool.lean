import ColorTheme.Files
import ColorTheme.Text.Octets

/-!
Tools that a script can call. A tool sees its arguments, its input and the files; it answers
what it writes and its status. -/
namespace ColorTheme.Shell

structure Reply where
  output : Text := []
  errors : Text := []
  status : Nat := 0
  readsInput : Bool := false

abbrev Tool := (arguments : List Text) → (input : Text) → StateM Files Reply

def FileError.reason : FileError → Text
  | .notFound => "No such file or directory"
  | .invalidData => "Invalid or incomplete multibyte or wide character"
  | .isADirectory => "Is a directory"
  | .notADirectory => "Not a directory"
  | .permissionDenied => "Permission denied"
  | .alreadyExists => "File exists"

def pathOf (octets : Text) : Path := ⟨Octets.toText octets⟩

namespace Tool

def fail (tool message : Text) (status : Nat) : Reply :=
  { errors := tool ++ ": " ++ message ++ "\n", status }

structure Call where
  options : List (Char × Text) := []
  operands : List Text := []

def Call.has (c : Call) (option : Char) : Bool := c.options.any (·.1 = option)
def Call.value? (c : Call) (option : Char) : Option Text :=
  (c.options.reverse.find? (·.1 = option)).map (·.2)

/-- Cuts a group of option letters; one that takes a value takes the rest of the group, or else
the argument after it. -/
def letters (plain valued : Text) (next : List Text) :
    Text → Except Char (List (Char × Text) × List Text)
  | [] => .ok ([], next)
  | c :: rest =>
    if valued.contains c then
      match rest, next with
      | [], [] => .error c
      | [], value :: next => .ok ([(c, value)], next)
      | rest, next => .ok ([(c, rest)], next)
    else if plain.contains c then
      (letters plain valued next rest).map fun (options, next) => ((c, []) :: options, next)
    else .error c

def read (plain valued : Text) : (fuel : Nat) → List Text → Except Char Call
  | _, [] => .ok {}
  | 0, _ => .ok {}
  | n + 1, argument :: rest =>
    match argument with
    | '-' :: c :: group =>
      if c = '-' && group.isEmpty then .ok { operands := rest }
      else do
        let (options, rest) ← letters plain valued rest (c :: group)
        let call ← read plain valued n rest
        return { call with options := options ++ call.options }
    | operand => do
      let call ← read plain valued n rest
      return { call with operands := operand :: call.operands }

def withOptions (name plain valued : Text) (status : Nat)
    (body : Call → (input : Text) → StateM Files Reply) : Tool := fun arguments input =>
  match read plain valued arguments.length arguments with
  | .ok call => body call input
  | .error '-' => return fail name "unrecognized option" status
  | .error c => return { fail name ("invalid option -- '" ++ [c] ++ "'") status with
      errors := name ++ ": invalid option -- '" ++ [c] ++ "'\nTry '" ++ name ++
        " --help' for more information.\n" }

structure Sources where
  contents : List (Text × Text) := []
  errors : Text := []
  readsInput : Bool := false

def Sources.text (s : Sources) : Text := s.contents.flatMap (·.2)

def Sources.add (complaint : Text → Text → Text) (input : Text) (fs : Files)
    (s : Sources) (name : Text) : Sources :=
  if name = "-" then
    { s with contents := s.contents ++ [(name, if s.readsInput then [] else input)]
             readsInput := true }
  else if name = "/dev/null" then { s with contents := s.contents ++ [(name, [])] }
  else
    match fs.read (pathOf name) with
    | .ok bytes => { s with contents := s.contents ++ [(name, Octets.ofBytes bytes)] }
    | .error e => { s with errors := s.errors ++ complaint name (FileError.reason e) ++ "\n" }

def sources (complaint : Text → Text → Text) (names : List Text) (input : Text) :
    StateM Files Sources := do
  let fs ← get
  return (if names.isEmpty then ["-".toList] else names).foldl
    (Sources.add complaint input fs) {}

def named (tool name reason : Text) : Text := tool ++ ": " ++ name ++ ": " ++ reason

/-- A tool that turns the text of its sources into its output; `failed` is its status where a
source cannot be read. -/
def filter (failed : Nat) (names : List Text) (complaint : Text → Text → Text)
    (f : Text → Text) (input : Text) : StateM Files Reply := do
  let s ← sources complaint names input
  return { output := f s.text, errors := s.errors, readsInput := s.readsInput
           status := if s.errors.isEmpty then 0 else failed }

end Tool

/-- The lines of a text, where a last line feed ends a line and starts none. -/
def linesOf (text : Text) : List Text :=
  let lines := Text.lines text
  if lines.getLast? = some [] then lines.dropLast else lines

def unlines (lines : List Text) : Text := lines.flatMap (· ++ ['\n'])

end ColorTheme.Shell
