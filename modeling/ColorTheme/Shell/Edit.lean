import ColorTheme.Shell.Regex.Parser

/-!
Line editing by script: every line passes the instructions in order, each of which applies to
the lines that its addresses select. -/
namespace ColorTheme.Shell.Edit

inductive Address
  | line (number : Nat)
  | last
  | matching (regex : Regex)

inductive Part
  | char (c : Char)
  | group (number : Nat)

structure Substitution where
  regex : Regex
  parts : List Part
  start : Nat := 1
  all : Bool := false
  print : Bool := false

inductive Action
  | delete | print | quit | showNumber
  | substitute (s : Substitution)
  | translate (table : List (Char × Char))
  | before (line : Text)
  | after (line : Text)
  | replace (line : Text)

structure Instruction where
  addresses : List Address := []
  negated : Bool := false
  action : Action

/-! Reading. -/

/-- The text up to the next delimiter that no backslash precedes; an escaped delimiter stands
for itself. -/
def delimited? (delimiter : Char) : Text → Option (Text × Text)
  | [] => none
  | '\\' :: c :: rest => (delimited? delimiter rest).map fun (inside, rest) =>
      (if c = delimiter then c :: inside else '\\' :: c :: inside, rest)
  | c :: rest =>
    if c = delimiter then some ([], rest)
    else (delimited? delimiter rest).map fun (inside, rest) => (c :: inside, rest)

def replacementParts : Text → List Part
  | [] => []
  | '\\' :: c :: rest =>
    let part : Part :=
      if c.isDigit then .group (Text.digitValue c)
      else .char (if c = 'n' then '\n' else if c = 't' then '\t' else c)
    part :: replacementParts rest
  | c :: rest => (if c = '&' then .group 0 else .char c) :: replacementParts rest

def skipBlanks (text : Text) : Text := text.dropWhile fun c => c = ' ' || c = '\t'

def ended? (text : Text) : Option Text :=
  match skipBlanks text with
  | [] => some []
  | c :: rest => if c = ';' || c = '\n' then some rest else none

def address? (spelling : Regex.Spelling) (text : Text) : Option (Address × Text) :=
  match text with
  | '$' :: rest => some (.last, rest)
  | '/' :: rest => do
    let (inside, rest) ← delimited? '/' rest
    return (.matching (← Regex.parse? spelling inside), rest)
  | c :: _ =>
    if c.isDigit then
      some (.line (Text.valueIn 10 (text.takeWhile Char.isDigit)), text.dropWhile Char.isDigit)
    else none
  | [] => none

def addresses (spelling : Regex.Spelling) (text : Text) : Option (List Address × Text) :=
  match address? spelling text with
  | none => some ([], text)
  | some (first, rest) =>
    match skipBlanks rest with
    | ',' :: rest => do
      let (second, rest) ← address? spelling (skipBlanks rest)
      return ([first, second], rest)
    | rest => some ([first], rest)

def switches (s : Substitution) : Text → Option (Substitution × Text)
  | [] => some (s, [])
  | c :: rest =>
    if c = 'g' then switches { s with all := true } rest
    else if c = 'p' then switches { s with print := true } rest
    else if c = 'i' || c = 'I' then switches { s with regex := s.regex.foldCase } rest
    else if c.isDigit && c != '0' then switches { s with start := Text.digitValue c } rest
    else (ended? (c :: rest)).map (s, ·)

def lineArgument (text : Text) : Text × Text :=
  let text := skipBlanks text
  let text := match text with
    | '\\' :: '\n' :: rest => rest
    | '\\' :: rest => rest
    | rest => rest
  (text.takeWhile (· ≠ '\n'), (text.dropWhile (· ≠ '\n')).tail)

def action? (spelling : Regex.Spelling) : Text → Option (Action × Text)
  | [] => none
  | 's' :: delimiter :: rest => do
    let (pattern, rest) ← delimited? delimiter rest
    let (replacement, rest) ← delimited? delimiter rest
    let s : Substitution :=
      { regex := ← Regex.parse? spelling pattern, parts := replacementParts replacement }
    let (s, rest) ← switches s rest
    return (.substitute s, rest)
  | 'y' :: delimiter :: rest => do
    let (source, rest) ← delimited? delimiter rest
    let (target, rest) ← delimited? delimiter rest
    if source.length = target.length then
      return (.translate (source.zip target), ← ended? rest)
    else none
  | c :: rest =>
    let simple (action : Action) : Option (Action × Text) := (ended? rest).map (action, ·)
    let withLine (action : Text → Action) : Option (Action × Text) :=
      let (line, rest) := lineArgument rest
      some (action line, rest)
    if c = 'd' then simple .delete
    else if c = 'p' then simple .print
    else if c = 'q' then simple .quit
    else if c = '=' then simple .showNumber
    else if c = 'i' then withLine .before
    else if c = 'a' then withLine .after
    else if c = 'c' then withLine .replace
    else none

def instruction? (spelling : Regex.Spelling) (text : Text) : Option (Instruction × Text) := do
  let (addresses, rest) ← addresses spelling text
  let rest := skipBlanks rest
  let negated : Bool := rest.head? = some '!'
  let (action, rest) ← action? spelling (if negated then skipBlanks rest.tail else rest)
  return ({ addresses, negated, action }, rest)

def instructions (spelling : Regex.Spelling) : (fuel : Nat) → Text → Option (List Instruction)
  | 0, _ => none
  | n + 1, text =>
    match text.dropWhile fun c => c = ' ' || c = '\t' || c = ';' || c = '\n' with
    | [] => some []
    | '#' :: rest => instructions spelling n (rest.dropWhile (· ≠ '\n'))
    | text => do
      let (instruction, rest) ← instruction? spelling text
      return instruction :: (← instructions spelling n rest)

def parse? (spelling : Regex.Spelling) (script : Text) : Option (List Instruction) :=
  instructions spelling (script.length + 1) script

/-! Running. -/

def fill (parts : List Part) (covered : Text) (groups : List (Nat × Text)) : Text :=
  parts.flatMap fun
    | .char c => [c]
    | .group 0 => covered
    | .group number => (groups.lookup number).getD []

/-- Replaces matches from a place on, of which `seen` were found already; an empty match right
behind the last one does not count. Answers whether anything was replaced. -/
def Substitution.replaceFrom (s : Substitution) :
    (fuel : Nat) → (seen : Nat) → (behind : Bool) → Place → Text × Bool
  | 0, _, _, p => (p.2, false)
  | n + 1, seen, behind, p =>
    let skip (seen : Nat) : Text × Bool :=
      match p.2 with
      | [] => ([], false)
      | c :: rest =>
        let (text, changed) := s.replaceFrom n seen false (some c, rest)
        (c :: text, changed)
    match s.regex.matchAt? p with
    | none => skip seen
    | some stop =>
      let covered := p.2.take (p.2.length - stop.place.2.length)
      if covered.isEmpty && behind then skip seen
      else
        let chosen : Bool := s.start ≤ seen + 1
        let written := if chosen then fill s.parts covered stop.groups else covered
        if chosen && !s.all then (written ++ stop.place.2, true)
        else if covered.isEmpty then
          let (text, changed) := skip (seen + 1)
          (written ++ text, chosen || changed)
        else
          let (text, changed) := s.replaceFrom n (seen + 1) true stop.place
          (written ++ text, chosen || changed)

def Substitution.apply (s : Substitution) (line : Text) : Text × Bool :=
  s.replaceFrom (2 * line.length + 2) 0 false (none, line)

abbrev Written := Text × Bool

structure Passage where
  line : Text
  ended : Bool
  number : Nat
  isLast : Bool
  deleted : Bool := false
  quit : Bool := false
  written : List Written := []
  following : List Written := []

def Address.selects (p : Passage) : Address → Bool
  | .line number => p.number = number
  | .last => p.isLast
  | .matching regex => regex.occurs p.line

def Instruction.selected (i : Instruction) (inside : Bool) (p : Passage) : Bool × Bool :=
  let (hit, inside) := match i.addresses with
    | [] => (true, false)
    | [a] => (a.selects p, false)
    | start :: stop :: _ =>
      if inside then
        match stop with
        | .line number => (true, p.number < number)
        | stop => (true, !stop.selects p)
      else if start.selects p then
        match stop with
        | .line number => (true, p.number < number)
        | .last => (true, !p.isLast)
        | .matching _ => (true, true)
      else (false, false)
  (hit != i.negated, inside)

def Action.run (p : Passage) : Action → Passage
  | .delete => { p with deleted := true }
  | .print => { p with written := (p.line, p.ended) :: p.written }
  | .quit => { p with quit := true }
  | .showNumber => { p with written := (Text.ofNat p.number, true) :: p.written }
  | .substitute s =>
    let (line, changed) := s.apply p.line
    let p := { p with line }
    if changed && s.print then { p with written := (line, p.ended) :: p.written } else p
  | .translate table =>
    { p with line := p.line.map fun c => (table.lookup c).getD c }
  | .before line => { p with written := (line, true) :: p.written }
  | .after line => { p with following := p.following ++ [(line, true)] }
  | .replace line => { p with written := (line, true) :: p.written, deleted := true }

/-- Passes a line through the instructions until it is deleted or the run ends; each has its own
range, which may be open. -/
def pass : List (Instruction × Bool) → Passage → List (Instruction × Bool) × Passage
  | [], p => ([], p)
  | (i, inside) :: rest, p =>
    if p.deleted || p.quit then ((i, inside) :: rest, p)
    else
      let (hit, inside) := i.selected inside p
      let (rest, p) := pass rest (if hit then i.action.run p else p)
      ((i, inside) :: rest, p)

def editLines (quiet ended : Bool) :
    List (Instruction × Bool) → (number : Nat) → List Text → List Written
  | _, _, [] => []
  | script, number, line :: rest =>
    let isLast := rest.isEmpty
    let (script, p) := pass script { line, number, isLast, ended := ended || !isLast }
    let own := if quiet || p.deleted then [] else [(p.line, p.ended)]
    p.written.reverse ++ own ++ p.following ++
      (if p.quit then [] else editLines quiet ended script (number + 1) rest)

/-- A line feed that is missing is missing only at the very end. -/
def joinWritten : List Written → Text
  | [] => []
  | [(line, ended)] => if ended then line ++ ['\n'] else line
  | (line, _) :: rest => line ++ '\n' :: joinWritten rest

def edit (quiet : Bool) (script : List Instruction) (text : Text) : Text :=
  let ended := text.getLast?.all (· = '\n')
  let lines := Text.lines text
  let lines := if ended then lines.dropLast else lines
  joinWritten (editLines quiet ended (script.map (·, false)) 1 lines)

end ColorTheme.Shell.Edit
