import ColorTheme.Text.Utf8

/-!
Results of external commands. A command is started or not, and ends or is stopped; its output
counts only if it ended well and is text. How commands run is left to a runner. -/
namespace ColorTheme.External

structure Duration where
  nanoseconds : Nat
deriving DecidableEq, Repr

namespace Duration

def ofMilliseconds (n : Nat) : Duration := ⟨n * 1000000⟩
def ofSeconds (n : Nat) : Duration := ⟨n * 1000000000⟩

def fraction (width n : Nat) : Text :=
  let digits := Nat.toDigits 10 n
  let padded := List.replicate (width - digits.length) '0' ++ digits
  let kept := (padded.reverse.dropWhile (· = '0')).reverse
  if kept.isEmpty then [] else '.' :: kept

/-- In the largest unit of seconds, milli-, micro- and nanoseconds that leaves a whole part. -/
def render (d : Duration) : Text :=
  let inUnit (width : Nat) (unit : Text) : Text :=
    let size := Nat.pow 10 width
    Text.ofNat (d.nanoseconds / size) ++ fraction width (d.nanoseconds % size) ++ unit
  if 1000000000 ≤ d.nanoseconds then inUnit 9 "s"
  else if 1000000 ≤ d.nanoseconds then inUnit 6 "ms"
  else if 1000 ≤ d.nanoseconds then inUnit 3 "µs"
  else inUnit 0 "ns"

end Duration

inductive Status
  | exited (code : Nat)
  | killed (signal : Nat)
deriving DecidableEq, Repr

def signalNames : List (Nat × Text) :=
  [(1, "SIGHUP"), (2, "SIGINT"), (3, "SIGQUIT"), (4, "SIGILL"), (5, "SIGTRAP"), (6, "SIGABRT"),
    (7, "SIGBUS"), (8, "SIGFPE"), (9, "SIGKILL"), (10, "SIGUSR1"), (11, "SIGSEGV"),
    (12, "SIGUSR2"), (13, "SIGPIPE"), (14, "SIGALRM"), (15, "SIGTERM"), (16, "SIGSTKFLT"),
    (17, "SIGCHLD"), (18, "SIGCONT"), (19, "SIGSTOP"), (20, "SIGTSTP"), (21, "SIGTTIN"),
    (22, "SIGTTOU"), (23, "SIGURG"), (24, "SIGXCPU"), (25, "SIGXFSZ"), (26, "SIGVTALRM"),
    (27, "SIGPROF"), (28, "SIGWINCH"), (29, "SIGIO"), (30, "SIGPWR"), (31, "SIGSYS")]

def Status.render : Status → Text
  | .exited code => "exit status: " ++ Text.ofNat code
  | .killed signal => "signal: " ++ Text.ofNat signal ++
      match signalNames.lookup signal with
      | some name => " (" ++ name ++ ")"
      | none => []

def Status.code? : Status → Option Nat
  | .exited code => some code
  | .killed _ => none

structure Completion where
  status : Status
  stdout : Bytes := []
  stderr : Bytes := []

inductive Outcome
  | notStarted (kind : Text)
  | unfinished
  | finished (run : Completion)

structure Command where
  program : Text
  arguments : List Text
  input : Bytes
  limit : Option Duration := none

abbrev Runner (σ : Type) := Command → StateM σ Outcome

inductive Failure
  | io (kind : Text)
  | timeout (program : Text) (limit : Duration)
  | failed (program : Text) (status : Status) (stderr : Text)
  | invalidUtf8
deriving DecidableEq, Repr

def Failure.message : Failure → Text
  | .io kind => "IO error: " ++ kind
  | .timeout program limit => "Command `" ++ program ++ "` timed out after " ++ limit.render
  | .failed program status stderr =>
      "Command `" ++ program ++ "` failed with status " ++ status.render ++ ": " ++ stderr
  | .invalidUtf8 => "Command output was not valid UTF-8"

/-- The output of a command that ended well, or why there is none. A failure is described by
the trimmed text of the error output, whatever its bytes are. -/
def judge (command : Command) : Outcome → Except Failure Text
  | .notStarted kind => .error (.io kind)
  | .unfinished => .error (.timeout command.program (command.limit.getD ⟨0⟩))
  | .finished run =>
    if run.status = .exited 0 then
      match Utf8.decode? run.stdout with
      | some text => .ok text
      | none => .error .invalidUtf8
    else .error (.failed command.program run.status (Text.trim (Utf8.decodeLossy run.stderr)))

def execute (runner : Runner σ) (command : Command) : StateM σ (Except Failure Text) := do
  return judge command (← runner command)

end ColorTheme.External
