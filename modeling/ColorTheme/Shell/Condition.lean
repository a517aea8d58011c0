import ColorTheme.Shell.Format
import ColorTheme.Shell.Tool

/-!
Conditions on texts, numbers and files, written as arguments. -/
namespace ColorTheme.Shell.Condition

def unary (fs : Files) (operator argument : Text) : Option Bool :=
  let entry := (fs.locate (pathOf argument)).toOption.bind fs.at?
  let isFile : Bool := entry.any fun e => e matches .file _ _
  match operator with
  | ['-', 'z'] => some argument.isEmpty
  | ['-', 'n'] => some !argument.isEmpty
  | ['-', 'f'] => some isFile
  | ['-', 'd'] => some (entry = some .directory)
  | ['-', 'e'] | ['-', 'r'] | ['-', 'w'] => some entry.isSome
  | ['-', 's'] => some (entry.any fun
      | .file bytes _ => !bytes.isEmpty
      | .directory => true)
  | ['-', 'x'] => some (entry.any fun
      | .file _ executable => executable
      | .directory => true)
  | ['-', 't'] | ['-', 'L'] | ['-', 'h'] => some false
  | _ => none

def compare? (operator : Text) (a b : Int) : Option Bool :=
  [("-eq".toList, decide (a = b)), ("-ne".toList, decide (a ≠ b)), ("-lt".toList, decide (a < b)),
    ("-le".toList, decide (a ≤ b)), ("-gt".toList, decide (b < a)),
    ("-ge".toList, decide (b ≤ a))].lookup operator

def isBinary (operator : Text) : Bool :=
  ["=", "==", "!=", "-eq", "-ne", "-lt", "-le", "-gt", "-ge"].any fun known : String =>
    known.toList = operator

def binary (operator a b : Text) : Option Bool :=
  if operator = "=" || operator = "==" then some (a = b)
  else if operator = "!=" then some (a != b)
  else do compare? operator (← Format.integer? a) (← Format.integer? b)

mutual

def single (fs : Files) : (fuel : Nat) → List Text → Option (Bool × List Text)
  | 0, _ => none
  | _, [] => none
  | n + 1, first :: rest =>
    match rest with
    | operator :: b :: after =>
      if isBinary operator then do return (← binary operator first b, after)
      else prefixed fs n first rest
    | _ => prefixed fs n first rest

def prefixed (fs : Files) : (fuel : Nat) → Text → List Text → Option (Bool × List Text)
  | 0, _, _ => none
  | n + 1, first, rest =>
    if first = "!" && !rest.isEmpty then do
      let (value, after) ← single fs n rest
      return (!value, after)
    else if first = "(" then do
      let (value, after) ← any fs n rest
      match after with
      | closing :: after => if closing = ")" then some (value, after) else none
      | [] => none
    else
      match rest with
      | argument :: after =>
        match unary fs first argument with
        | some value => some (value, after)
        | none => some (!first.isEmpty, rest)
      | [] => some (!first.isEmpty, [])

def all (fs : Files) : (fuel : Nat) → List Text → Option (Bool × List Text)
  | 0, _ => none
  | n + 1, arguments => do
    let (value, rest) ← single fs n arguments
    match rest with
    | operator :: rest' =>
      if operator = "-a" then
        let (other, after) ← all fs n rest'
        return (value && other, after)
      else return (value, rest)
    | [] => return (value, [])

def any (fs : Files) : (fuel : Nat) → List Text → Option (Bool × List Text)
  | 0, _ => none
  | n + 1, arguments => do
    let (value, rest) ← all fs n arguments
    match rest with
    | operator :: rest' =>
      if operator = "-o" then
        let (other, after) ← any fs n rest'
        return (value || other, after)
      else return (value, rest)
    | [] => return (value, [])

end

def holds? (fs : Files) (arguments : List Text) : Option Bool :=
  if arguments.isEmpty then some false
  else
    match any fs (4 * arguments.length + 4) arguments with
    | some (value, []) => some value
    | _ => none

end ColorTheme.Shell.Condition
