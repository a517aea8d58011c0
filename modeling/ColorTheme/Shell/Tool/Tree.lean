import ColorTheme.Shell.Format
import ColorTheme.Shell.Tool

/-!
Tools for names and for the tree of files. -/
namespace ColorTheme.Shell.Tool

def withoutSlashes (path : Text) : Text :=
  let kept := (path.reverse.dropWhile (· = '/')).reverse
  if kept.isEmpty && !path.isEmpty then ['/'] else kept

def lastPart (path : Text) : Text :=
  let path := withoutSlashes path
  match Text.cutLast? '/' path with
  | some (_, name) => if name.isEmpty then path else name
  | none => path

def basename : Tool := fun arguments _ =>
  match arguments with
  | [] => return fail "basename" "missing operand" 1
  | path :: rest =>
    let name := lastPart path
    let ending := rest.headD []
    let name := if Text.endsWith ending name && name.length != ending.length then
      name.take (name.length - ending.length) else name
    return { output := name ++ "\n" }

def dirname : Tool := fun arguments _ =>
  match arguments with
  | [] => return fail "dirname" "missing operand" 1
  | path :: _ =>
    let output := match Text.cutLast? '/' (withoutSlashes path) with
      | some (directory, _) => if directory.isEmpty then ['/'] else withoutSlashes directory
      | none => ['.']
    return { output := output ++ "\n" }

def count (step : Int) (last : Int) : (fuel : Nat) → (first : Int) → List Int
  | 0, _ => []
  | n + 1, first =>
    if (0 < step && last < first) || (step < 0 && first < last) then []
    else first :: count step last n (first + step)

def seq : Tool := fun arguments _ =>
  let answer (first step last : Int) : Reply :=
    if step = 0 then fail "seq" "invalid Zero increment value: '0'" 1
    else
      let numbers := count step last ((last - first).natAbs + 1) first
      { output := unlines (numbers.map fun n => (toString n).toList) }
  match arguments.mapM Format.integer? with
  | some [last] => return answer 1 1 last
  | some [first, last] => return answer first 1 last
  | some [first, step, last] => return answer first step last
  | _ => return fail "seq" "missing operand" 1

def onEach (names : List Text) (complaint : Text → Text → Text)
    (change : Files → Text → Except FileError Files) : StateM Files Reply := do
  let fs ← get
  let (fs, errors) := names.foldl (fun (fs, errors) name =>
    match change fs name with
    | .ok fs => (fs, errors)
    | .error e => (fs, errors ++ complaint name (FileError.reason e) ++ "\n")) (fs, ([] : Text))
  set fs
  return { errors, status := if errors.isEmpty then 0 else 1 }

def ls : Tool := withOptions "ls" "1a" "" 2 fun call _ => do
  let fs ← get
  let complaint (name : Text) (e : FileError) : Text :=
    "ls: cannot access '" ++ name ++ "': " ++ FileError.reason e ++ "\n"
  let shown (name : Text) : Text × Text :=
    match fs.list (pathOf name) with
    | .ok names =>
      (unlines ((names.filter fun n => call.has 'a' || n.head? != some '.').map Octets.ofText), [])
    | .error .notADirectory => (name ++ "\n", [])
    | .error e => ([], complaint name e)
  let results := (if call.operands.isEmpty then [".".toList] else call.operands).map shown
  let errors := results.flatMap (·.2)
  return { output := results.flatMap (·.1), errors, status := if errors.isEmpty then 0 else 2 }

def quoted (start name reason : Text) : Text := start ++ " '" ++ name ++ "': " ++ reason

def mkdir : Tool := withOptions "mkdir" "p" "m" 1 fun call _ =>
  onEach call.operands (quoted "mkdir: cannot create directory") fun fs name =>
    let path := pathOf name
    if call.has 'p' then fs.makeDirectories path
    else
      match fs.locate path with
      | .ok _ => .error .alreadyExists
      | .error .notFound => do
        let place ← fs.target ⟨Octets.toText (withoutSlashes name)⟩
        return fs.put place .directory
      | .error e => .error e

def rm : Tool := withOptions "rm" "rRf" "" 1 fun call _ =>
  onEach call.operands (quoted "rm: cannot remove") fun fs name =>
    let path := pathOf name
    match fs.locate path with
    | .error e => if call.has 'f' then .ok fs else .error e
    | .ok place =>
      if fs.isDirectory place && !(call.has 'r' || call.has 'R') then .error .isADirectory
      else .ok (fs.remove path)

def touch : Tool := withOptions "touch" "" "" 1 fun call _ =>
  onEach call.operands (quoted "touch: cannot touch") fun fs name =>
    match fs.locate (pathOf name) with
    | .ok _ => .ok fs
    | .error _ => fs.append (pathOf name) []

/-- Where a copy goes: into the target if it is a directory. -/
def goal (fs : Files) (target source : Text) : Path :=
  match fs.locate (pathOf target) with
  | .ok place =>
    if fs.isDirectory place then (pathOf target).join (pathOf (lastPart source)) else pathOf target
  | .error _ => pathOf target

def transfer (tool : Text) (keep : Bool) (operands : List Text) : StateM Files Reply :=
  match operands.getLast?, operands.dropLast with
  | some target, source :: sources =>
    onEach (source :: sources) (quoted (tool ++ ": cannot stat")) fun fs name => do
      let bytes ← fs.read (pathOf name)
      let written ← fs.write (goal fs target name) bytes
      return if keep then written else written.remove (pathOf name)
  | _, _ => return fail tool "missing file operand" 1

def cp : Tool := withOptions "cp" "rRfpa" "" 1 fun call _ => transfer "cp" true call.operands
def mv : Tool := withOptions "mv" "f" "" 1 fun call _ => transfer "mv" false call.operands

def chmod : Tool := fun arguments _ =>
  match arguments with
  | mode :: names =>
    let executable : Bool := (Text.includes "x" mode && !Text.includes "-" mode) ||
      mode.any fun c => c = '5' || c = '7' || c = '1' || c = '3'
    onEach names (quoted "chmod: cannot access") fun fs name => do
      let place ← fs.locate (pathOf name)
      match fs.at? place with
      | some (.file bytes _) => return fs.put place (.file bytes executable)
      | _ => return fs
  | [] => return fail "chmod" "missing operand" 1

end ColorTheme.Shell.Tool
