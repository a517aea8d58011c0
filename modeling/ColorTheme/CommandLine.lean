import ColorTheme.Lessc
import ColorTheme.Options

/-!
The command line. Some options are known before and after the command, where the one behind
counts; all others belong to a command. No option may stand twice in one place, and what looks
like an option is never the value of one. -/
namespace ColorTheme.CommandLine

inductive Action
  | generate (config : Path) (output : Option Path) (asPlugin : Bool)
  | symbols (file : Path) (libraryDir : Path)
  | manifest (config : Path)
deriving DecidableEq, Repr

structure Invocation where
  lessc : Lessc := {}
  action : Action
deriving DecidableEq, Repr

inductive Stop
  | usage
  | help
  | version
deriving DecidableEq, Repr

structure Flag where
  name : Text
  letter : Option Char := none
  takesValue : Bool := true
  valid : Text → Bool := fun _ => true

def isPath (text : Text) : Bool := !text.isEmpty

/-- A number of 64 bits; a plus sign may stand before it. -/
def count? (text : Text) : Option Nat :=
  let digits := match text with
    | '+' :: digits => digits
    | digits => digits
  (Text.number? digits).filter (· < 18446744073709551616)

def lesscFlag : Flag := { name := "lessc" }
def timeoutFlag : Flag := { name := "timeout-secs", valid := fun text => (count? text).isSome }
def configFlag : Flag := { name := "config", letter := some 'c', valid := isPath }
def outputFlag : Flag := { name := "output", letter := some 'o', valid := isPath }
def pluginFlag : Flag := { name := "plugin", takesValue := false }
def libraryFlag : Flag := { name := "ant-dir", valid := isPath }
def helpFlag : Flag := { name := "help", letter := some 'h', takesValue := false }
def versionFlag : Flag := { name := "version", letter := some 'V', takesValue := false }

def sharedFlags : List Flag := [lesscFlag, timeoutFlag, helpFlag]

structure Given where
  values : List (Text × Text) := []
  operands : List Text := []
deriving DecidableEq, Repr

def Given.value? (g : Given) (flag : Flag) : Option Text := g.values.lookup flag.name

/-- Takes the value of a flag. Help and version are answered at once. -/
def Given.add (g : Given) (flag : Flag) (value : Text) : Except Stop Given :=
  if flag.name = helpFlag.name then .error .help
  else if flag.name = versionFlag.name then .error .version
  else if !flag.valid value || (g.value? flag).isSome then .error .usage
  else .ok { g with values := g.values ++ [(flag.name, value)] }

abbrev Progress := Given × Option Flag

def longOption (flags : List Flag) (g : Given) (text : Text) : Except Stop Progress := do
  let (name, value) := match Text.cut? "=" text with
    | some (name, value) => (name, some value)
    | none => (text, none)
  match flags.find? (·.name = name), value with
  | none, _ => throw .usage
  | some flag, some value =>
    if flag.takesValue then return (← g.add flag value, none) else throw .usage
  | some flag, none =>
    if flag.takesValue then return (g, some flag) else return (← g.add flag [], none)

/-- The letters after one hyphen; a letter that takes a value takes the rest. -/
def shortOptions (flags : List Flag) (g : Given) : Text → Except Stop Progress
  | [] => .ok (g, none)
  | c :: rest =>
    match flags.find? (·.letter = some c) with
    | none => .error .usage
    | some flag =>
      if flag.takesValue then
        match rest with
        | [] => .ok (g, some flag)
        | '=' :: value => (g.add flag value).map (·, none)
        | value => (g.add flag value).map (·, none)
      else do shortOptions flags (← g.add flag []) rest

def looksLikeOption (argument : Text) : Bool :=
  argument.head? = some '-' && 1 < argument.length

/-- How many operands a place takes; where commands are expected, the first one ends it. -/
inductive Operands
  | command
  | paths (most : Nat)
deriving DecidableEq, Repr

def addOperand (most : Nat) (g : Given) (operand : Text) : Except Stop Given :=
  if g.operands.length < most && isPath operand then
    .ok { g with operands := g.operands ++ [operand] }
  else .error .usage

def scan (flags : List Flag) (operands : Operands) :
    Progress → List Text → Except Stop (Given × List Text)
  | (g, none), [] => .ok (g, [])
  | (_, some _), [] => .error .usage
  | (g, some flag), argument :: rest =>
    if looksLikeOption argument then .error .usage
    else do scan flags operands (← g.add flag argument, none) rest
  | (g, none), argument :: rest =>
    match argument with
    | ['-', '-'] =>
      match operands with
      | .command => .error .usage
      | .paths most => do return (← rest.foldlM (addOperand most) g, [])
    | '-' :: '-' :: text => do scan flags operands (← longOption flags g text) rest
    | '-' :: c :: text => do scan flags operands (← shortOptions flags g (c :: text)) rest
    | operand =>
      match operands with
      | .command => .ok (g, operand :: rest)
      | .paths most => do scan flags operands (← addOperand most g operand, none) rest

def need (g : Given) (flag : Flag) : Except Stop Path :=
  match g.value? flag with
  | some value => .ok ⟨value⟩
  | none => .error .usage

def lesscOf (outer inner : Given) : Lessc :=
  let value? (flag : Flag) : Option Text := (inner.value? flag).or (outer.value? flag)
  { program := (value? lesscFlag).getD "lessc"
    limit := ((value? timeoutFlag).bind count?).map External.Duration.ofSeconds }

def command? (name : Text) : Option (List Flag × Nat × (Given → Except Stop Action)) :=
  if name = "generate" then some ([configFlag, outputFlag, pluginFlag], 0, fun g => do
    return .generate (← need g configFlag) ((g.value? outputFlag).map Path.mk)
      (g.value? pluginFlag).isSome)
  else if name = "vars" then some ([libraryFlag], 1, fun g =>
    match g.operands with
    | file :: _ => .ok (.symbols ⟨file⟩
        (((g.value? libraryFlag).map Path.mk).getD defaultLibraryDir))
    | [] => .error .usage)
  else if name = "manifest" then some ([configFlag], 0, fun g => do
    return .manifest (← need g configFlag))
  else none

def helpCommand : Text := "help"

def helpOn (names : List Text) : Stop :=
  match names with
  | [] => .help
  | [name] => if name = helpCommand || (command? name).isSome then .help else .usage
  | _ => .usage

def parse (arguments : List Text) : Except Stop Invocation := do
  match ← scan (versionFlag :: sharedFlags) .command ({}, none) arguments with
  | (_, []) => throw .usage
  | (outer, name :: rest) =>
    if name = helpCommand then throw (helpOn rest)
    match command? name with
    | none => throw .usage
    | some (flags, most, action) =>
      let (inner, _) ← scan (flags ++ sharedFlags) (.paths most) ({}, none) rest
      return { lessc := lesscOf outer inner, action := ← action inner }

end ColorTheme.CommandLine
