import ColorTheme.CommandLine.Run
import ColorTheme.Shell.Run

/-!
The program. It takes in the files below the working directory, carries out its command on them
and puts back those that have changed. Commands are run by the shell of this library, so a
compiler is a script among the files. -/
namespace ColorTheme.Program

def bytesOf (array : ByteArray) : Bytes := array.data.toList

def arrayOf (bytes : Bytes) : ByteArray := ⟨bytes.toArray⟩

def isScript (bytes : Bytes) : Bool := Text.startsWith "#!" (Octets.ofBytes (bytes.take 2))

def ancestors (place : Location) : List Location :=
  (List.range place.length).map fun n => place.take (n + 1)

def emptyTree (place : Location) : Files :=
  { entries := (ancestors place).map (·, .directory), current := place }

partial def load (directory : IO.FS.DirEntry) (place : Location) (fs : Files) : IO Files := do
  let mut fs := fs
  for entry in ← directory.path.readDir do
    let inner := place ++ [entry.fileName.toList]
    if ← entry.path.isDir then fs ← load entry inner (fs.put inner .directory)
    else
      let bytes := bytesOf (← IO.FS.readBinFile entry.path)
      fs := fs.put inner (.file bytes (isScript bytes))
  return fs

def store (before after : Files) : IO Unit := do
  for (place, entry) in after.entries do
    if before.at? place ≠ some entry then
      let path := String.ofList (Files.spell place).text
      match entry with
      | .directory => IO.FS.createDirAll path
      | .file bytes _ => IO.FS.writeBinFile path (arrayOf bytes)

def draws : Draws := Draws.ofList #[]

def run (arguments : List String) : IO UInt32 := do
  let root ← IO.currentDir
  let place := (root.toString.toList.splitOn '/').filter (!·.isEmpty)
  let before ← load { root, fileName := "." } place (emptyTree place)
  match CommandLine.run Shell.runner draws (arguments.map String.toList) before with
  -- A run without a result does not come to an end, so there is nothing to report.
  | none => return 1
  | some (report, after) =>
    store before after
    (← IO.getStdout).putStr (String.ofList report.output)
    match report.failure with
    | some message => (← IO.getStderr).putStrLn ("Error: " ++ String.ofList message)
    | none => pure ()
    return report.exit.toUInt32

end ColorTheme.Program

def main (arguments : List String) : IO UInt32 := ColorTheme.Program.run arguments
