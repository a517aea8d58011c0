import ColorTheme.Shell.Edit
import ColorTheme.Shell.Tool.Filter

/-!
Search for lines and editing of lines. -/
namespace ColorTheme.Shell.Tool

def covered (regex : Regex) : (fuel : Nat) → Place → List Text
  | 0, _ => []
  | n + 1, p =>
    let skip : List Text := match p.2 with
      | [] => []
      | c :: rest => covered regex n (some c, rest)
    match regex.matchAt? p with
    | none => skip
    | some stop =>
      let text := p.2.take (p.2.length - stop.place.2.length)
      if text.isEmpty then skip else text :: covered regex n stop.place

/-- The expression that a search asks for: one of its lines, literally or read, in whole lines or
words. -/
def searched? (call : Call) (text : Text) : Option Regex := do
  let spelling : Regex.Spelling := if call.has 'E' then .extended else .basic
  let read (line : Text) : Option Regex :=
    if call.has 'F' then some (line.foldr (fun c rest => .seq (.one (.single c)) rest) .empty)
    else Regex.parse? spelling line
  let parts ← (Text.lines text).mapM read
  let regex := match parts with
    | [] => .empty
    | first :: rest => rest.foldl .alt first
  let regex := if call.has 'i' then regex.foldCase else regex
  if call.has 'x' then
    return .seq (.anchor .textStart) (.seq regex (.anchor .textEnd))
  else if call.has 'w' then
    return .seq (.anchor (.wordStartHalf .word)) (.seq regex (.anchor (.wordEndHalf .word)))
  else return regex

def found (call : Call) (regex : Regex) (label text : Text) : Text × Bool :=
  let rows := (linesOf text).zipIdx.filter fun (line, _) => regex.occurs line != call.has 'v'
  let limited := match call.value? 'm' with
    | some n => rows.take (amount (some n))
    | none => rows
  let shown := if call.has 'q' then []
    else if call.has 'c' then label ++ Text.ofNat limited.length ++ ['\n']
    else if call.has 'l' then []
    else limited.flatMap fun (line, i) =>
      let start := label ++ (if call.has 'n' then Text.ofNat (i + 1) ++ ":" else [])
      if call.has 'o' then
        (covered regex (line.length + 1) (none, line)).flatMap fun part => start ++ part ++ ['\n']
      else start ++ line ++ ['\n']
  (shown, !limited.isEmpty)

def grep : Tool := withOptions "grep" "EFGvicnqxwolsh" "em" 2 fun call input => do
  let given := call.options.filterMap fun (c, value) => if c = 'e' then some value else none
  let (patterns, names) := if given.isEmpty then (call.operands.take 1, call.operands.drop 1)
    else (given, call.operands)
  if patterns.isEmpty then return fail "grep" "no pattern" 2
  match searched? call (Text.joinLines patterns) with
  | none => return fail "grep" "invalid pattern" 2
  | some regex =>
    let s ← sources (named "grep") names input
    let results := s.contents.map fun (name, text) =>
      let label := if 1 < names.length && !call.has 'h' then name ++ ":" else []
      (found call regex label text, if name = "-" then "(standard input)".toList else name)
    let listed := if call.has 'l' then unlines ((results.filter (·.1.2)).map (·.2)) else []
    let hit : Bool := results.any (·.1.2)
    return { output := results.flatMap (·.1.1) ++ listed
             errors := if call.has 's' then [] else s.errors
             readsInput := s.readsInput
             status := if call.has 'q' && hit then 0 else if !s.errors.isEmpty then 2
               else if hit then 0 else 1 }

def sed : Tool := withOptions "sed" "nErsu" "e" 1 fun call input => do
  let given := call.options.filterMap fun (c, value) => if c = 'e' then some value else none
  let (scripts, names) := if given.isEmpty then (call.operands.take 1, call.operands.drop 1)
    else (given, call.operands)
  if scripts.isEmpty then return fail "sed" "no script specified" 1
  let spelling : Regex.Spelling := if call.has 'E' || call.has 'r' then .extended else .basic
  match Edit.parse? spelling (Text.joinLines scripts) with
  | none => return fail "sed" "-e expression #1, char 1: unknown command" 1
  | some script =>
    let unreadable (name reason : Text) : Text := "sed: can't read " ++ name ++ ": " ++ reason
    filter 2 names unreadable (Edit.edit (call.has 'n') script) input

end ColorTheme.Shell.Tool
