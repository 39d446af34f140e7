import BuilderApi.CommandLine.Parse

/-!
# Running a command

A command ends with one line: a summary of what was built, or the error with the file error behind
it.
-/

namespace BuilderApi

/-- How a command ends. -/
structure CommandResult where
  /-- The exit status. -/
  exitCode : Nat
  /-- The last line. -/
  line : String
deriving DecidableEq, Inhabited

/-- The command in the past tense. -/
def Command.done : Command → String
  | .build => "built"
  | .check => "checked"

/-- What failed. -/
def Command.failure (schema : String) : Command → String
  | .build => "build from '" ++ schema ++ "' failed"
  | .check => "check of '" ++ schema ++ "' failed"

/-- The summary of a command. -/
def Command.summary (command : Command) (report : BuildReport) : String :=
  command.done ++ " " ++ toString report.entries ++ " entries: " ++ toString report.modules ++
    " modules, " ++ toString report.pages ++ " pages\n"

/-- The error of a command; a file error is named once more at the end. -/
def Command.errorLine (command : Command) (schema : String) (e : BuildError) : String :=
  "error: " ++ ": ".intercalate
    ([command.failure schema, e.message] ++ e.cause.toList.map FileError.message) ++ "\n"

namespace CommandLine

variable {m : Type → Type} [Monad m]

/-- Runs a command on a disk. -/
def run (line : CommandLine) (disk : Disk m) : m CommandResult := do
  let result ← match line.command with
    | .build => (disk.build line.config).run
    | .check => (disk.check line.config).run
  match result with
  | .ok report => return ⟨0, line.command.summary report⟩
  | .error e => return ⟨1, line.command.errorLine line.config.schema e⟩

end CommandLine

end BuilderApi
