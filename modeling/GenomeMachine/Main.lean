import GenomeMachine.Command.Task

/-!
# The program

Reads the file a command asks for, carries the command out, and prints the report.
-/

namespace GenomeMachine

/-- The reason of a failed access, as far as a disk tells reasons apart. -/
def fileError : IO.Error → FileError
  | .inappropriateType _ code _ => if code = 21 then .isDirectory else .notDirectory
  | .invalidArgument .. => .nameTooLong
  | _ => .notFound

def readFile (path : String) : IO Contents := do
  try
    let bytes ← IO.FS.readBinFile path
    return .ok bytes.toList
  catch e => return .error (fileError e)

def writeFile (path : String) (bytes : List UInt8) : IO (Except FileError Unit) := do
  try
    IO.FS.writeBinFile path ⟨bytes.toArray⟩
    return .ok ()
  catch e => return .error (fileError e)

/-- Carries out a command on the files of the system. -/
def performCommand : Command → IO Report
  | .onFile path task => do
      match task.effect path (← readFile path) with
      | .answer report => return report
      | .write target bytes report =>
          match ← writeFile target bytes with
          | .ok () => return report
          | .error e => return writeFailure target e
  | command => return (command.perform ⟨∅⟩).1

/-- What a refused command line is told. -/
def usageReport (error : UsageError) : Report where
  code := 1
  diagnostics := "error: " ++ error.message.getD "invalid command line" ++ "\n\n" ++ helpText

end GenomeMachine

open GenomeMachine

def main (arguments : List String) : IO UInt32 := do
  let report ← match Command.parse arguments with
    | .ok command => performCommand command
    | .error error => pure (usageReport error)
  IO.print report.output
  IO.eprint report.diagnostics
  return .ofNat report.code
