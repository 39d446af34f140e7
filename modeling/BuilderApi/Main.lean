import BuilderApi.CommandLine.Run

/-!
# The program

The outer layer: the disk of the machine, and the command line.
-/

namespace BuilderApi

/-- Is this the number of an error? Some operations give it with a minus. -/
def isNumber (number found : UInt32) : Bool := found == number || found == 0 - number

/-- The file error that an error of the machine stands for. -/
def FileError.ofIO (e : IO.Error) : FileError :=
  match e with
  | .noFileOrDirectory .. => .notFound
  | .alreadyExists .. => .alreadyExists
  | .inappropriateType _ number _ => if isNumber 20 number then .notDirectory else .isDirectory
  | .invalidArgument _ number _ =>
    if isNumber 36 number then .nameTooLong
    else if isNumber 22 number then .nulInPath
    else .other (toString e)
  | _ => .other (toString e)

/-- Runs a file operation. -/
def attempt {α : Type} (operation : IO α) : IO (Except FileError α) := do
  try return .ok (← operation)
  catch e => return .error (.ofIO e)

/-- The disk of the machine. A directory is what has an entry for itself. -/
def machineDisk : Disk IO where
  read path := attempt (IO.FS.readBinFile path)
  makeDir path := attempt (IO.FS.createDir path)
  isDir path := do return (← attempt (IO.FS.Handle.mk (path ++ "/.") .read)).isOk
  write path content := attempt (IO.FS.writeBinFile path content)

/-- The usage of the program. -/
def usageText : String :=
  "usage: (build | check) [-v] [--schema FILE] [--api FILE] [--src DIR] [--docs DIR] " ++
    "[--prefix TEXT] [--title TEXT]\n"

end BuilderApi

/-- The program. -/
def main (args : List String) : IO UInt32 := do
  match BuilderApi.CommandLine.parse args with
  | .ok line =>
    let result ← line.run BuilderApi.machineDisk
    (← IO.getStderr).putStr result.line
    return result.exitCode.toUInt32
  | .error usage =>
    let stream ← if usage.exitCode = 0 then IO.getStdout else IO.getStderr
    stream.putStr BuilderApi.usageText
    return usage.exitCode.toUInt32
