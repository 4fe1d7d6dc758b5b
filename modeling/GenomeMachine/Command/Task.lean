import GenomeMachine.Catalog.Standard
import GenomeMachine.Command.Arguments
import GenomeMachine.Command.Disk
import GenomeMachine.Genome.Codec
import GenomeMachine.Listing.Assemble
import GenomeMachine.Listing.Print
import GenomeMachine.Machine.Trace

/-!
# Commands

A command reads at most one file, then answers or writes one file. Genomes are listings, unless
the extension of the file says that they are binary.
-/

namespace GenomeMachine

/-- The answer of a command: its exit code and what it prints. -/
structure Report where
  code : Nat
  output : String := ""
  diagnostics : String := ""
  deriving DecidableEq

/-- Something is wrong with the files. -/
def Report.failure (message : String) : Report where
  code := 1
  diagnostics := "error: " ++ message ++ "\n"

/-- What a command does after it has read its file. -/
inductive Effect where
  | answer (report : Report)
  | write (path : String) (bytes : List UInt8) (report : Report)

/-- The extension of binary genomes. -/
def binaryExtension : String := "gpb"

/-- Where a listing is assembled to if nothing else is said. -/
def defaultOutput (path : String) : String :=
  withExtension path binaryExtension

def isBinary (path : String) : Bool :=
  extension? path == some binaryExtension

/-- A file, or why it could not be read. -/
abbrev Contents := Except FileError (List UInt8)

/-- The bytes of a file. Errors are texts from here on. -/
def readBytes (path : String) (contents : Contents) : Except String (List UInt8) :=
  contents.mapError fun e => "cannot read '" ++ path ++ "': " ++ e.message

/-- The text of a file. -/
def readText (path : String) (contents : Contents) : Except String String := do
  let bytes ← readBytes path contents
  match String.fromUTF8? ⟨bytes.toArray⟩ with
  | some text => return text
  | none => throw ("cannot read '" ++ path ++ "': stream did not contain valid UTF-8")

def readBinary (path : String) (contents : Contents) : Except String Genome := do
  let bytes ← readBytes path contents
  (Genome.decode bytes).mapError fun e => "invalid binary: " ++ e.message

def readListing (path : String) (contents : Contents) : Except String Genome := do
  let text ← readText path contents
  (Catalog.standard.assemble text).mapError ListingError.message

def readGenome (path : String) (contents : Contents) : Except String Genome :=
  if isBinary path then readBinary path contents else readListing path contents

/-- The machine for a genome with preset inputs; of two presets for one input the last counts. -/
def prepare (genome : Genome) (inputs : List (Int64 × Float)) : Machine :=
  inputs.foldl (fun m (key, value) => m.setInput key value) (.new .standard genome)

/-- What a run reports about the machine at its end. -/
def runText (steps : Nat) (m : Machine) : String :=
  let registers := m.registers.toList.map numberText
  let outputs := m.outputs.toList.map fun (key, value) =>
    toString key.toInt ++ "=" ++ numberText value
  "steps: " ++ toString steps
    ++ "\nregs: " ++ " ".intercalate registers
    ++ "\noutputs: " ++ " ".intercalate outputs
    ++ "\nerrors: " ++ toString m.errors
    ++ "\nhalted: " ++ (if m.halted then "true" else "false") ++ "\n"

/-- A fault ended the run. -/
def faultReport (output : String) (fault : Fault) : Report :=
  ⟨3, output, "runtime error: " ++ fault.message ++ "\n"⟩

def runReport (steps : Nat) (m : Machine) : Report :=
  match m.run steps with
  | .ok done m => { code := 0, output := runText done m }
  | .error fault _ => faultReport "" fault

def traceReport (steps : Nat) (m : Machine) : Report :=
  let trace := m.trace steps
  match trace.error with
  | none => { code := 0, output := trace.text }
  | some (.fault fault) => faultReport trace.text fault
  | some .write => { Report.failure Machine.TraceError.write.message with output := trace.text }

/-- What to do with the contents of the file at a path. -/
def Task.perform (path : String) (contents : Contents) : Task → Except String Effect
  | .run steps inputs => do
      let genome ← readGenome path contents
      return .answer (runReport steps (prepare genome inputs))
  | .trace steps inputs => do
      let genome ← readGenome path contents
      return .answer (traceReport steps (prepare genome inputs))
  | .print => do
      let genome ← readGenome path contents
      return .answer { code := 0, output := Catalog.standard.print genome }
  | .disassemble => do
      let genome ← readBinary path contents
      return .answer { code := 0, output := Catalog.standard.disassemble genome }
  | .assemble output => do
      let genome ← readListing path contents
      let bytes := genome.encode
      let target := output.getD (defaultOutput path)
      return .write target bytes
        { code := 0
          diagnostics := "assembled " ++ toString genome.size ++ " instructions ("
            ++ toString bytes.length ++ " bytes) -> " ++ target ++ "\n" }

/-- What to do with the contents of the file at a path; errors become reports. -/
def Task.effect (path : String) (contents : Contents) (task : Task) : Effect :=
  match task.perform path contents with
  | .ok effect => effect
  | .error message => .answer (.failure message)

/-- A file could not be written. -/
def writeFailure (path : String) (e : FileError) : Report :=
  .failure ("cannot write '" ++ path ++ "': " ++ e.message)

/-- The entries of a catalog as a table of names, arities and descriptions. -/
def catalogText (c : Catalog) : String :=
  let entries := c.entries.toList
  let width := (entries.map (·.name.length)).foldl max 0
  String.join (entries.map fun e =>
    String.ofList (e.name.toList.rightpad width ' ') ++ "  " ++ toString e.arity ++ "  "
      ++ e.description ++ "\n")

def versionText : String :=
  "evocpu 0.1.0\n"

def helpText : String :=
  "Usage: evocpu [OPTIONS] <COMMAND>\n\nCommands:\n"
    ++ "  run          Execute a genome and print the final state\n"
    ++ "  trace        Print the CPU state before every step\n"
    ++ "  print        Print a genome indented by scope\n"
    ++ "  assemble     Assemble a listing into a binary genome\n"
    ++ "  disassemble  Print a binary genome as a flat listing\n"
    ++ "  list         List the default instruction set\n"

/-- Carries out a command on a disk. -/
def Command.perform (disk : Disk) : Command → Report × Disk
  | .list => ({ code := 0, output := catalogText .standard }, disk)
  | .version => ({ code := 0, output := versionText }, disk)
  | .help => ({ code := 0, output := helpText }, disk)
  | .onFile path task =>
      match task.effect path (disk.read path) with
      | .answer report => (report, disk)
      | .write target bytes report =>
          match disk.write target bytes with
          | .ok disk => (report, disk)
          | .error e => (writeFailure target e, disk)

end GenomeMachine
