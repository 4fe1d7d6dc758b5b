import GenomeMachine.Text.Blank
import GenomeMachine.Text.Decimal

/-!
# The command line

A subcommand, a file for all but one of them, and options. Long options may carry their value
behind an equals sign and short ones directly; otherwise the next argument is the value. Behind
`--` there are no options.
-/

namespace GenomeMachine

/-- What can be done with a file. -/
inductive Task where
  | run (steps : Nat) (inputs : List (Int64 × Float))
  | trace (steps : Nat) (inputs : List (Int64 × Float))
  | print
  | assemble (output : Option String)
  | disassemble

/-- What a command line asks for. -/
inductive Command where
  | onFile (path : String) (task : Task)
  | list
  | version
  | help

/-- A command line that makes no sense, with the reason if a preset value is the cause. -/
structure UsageError where
  message : Option String := none
  deriving DecidableEq

/-- The value of an input before the first step, as `ID=VALUE`. -/
def readPreset (text : List Char) : Except String (Int64 × Float) :=
  match text.span (· ≠ '=') with
  | (_, []) => .error ("expected ID=VALUE, got '" ++ String.ofList text ++ "'")
  | (id, _ :: value) =>
      match int64? (trimBlanks id) with
      | none => .error ("invalid input id '" ++ String.ofList id ++ "'")
      | some key =>
          match number? (trimBlanks value) with
          | none => .error ("invalid input value '" ++ String.ofList value ++ "'")
          | some number => .ok (key, number)

inductive Subcommand where
  | run
  | trace
  | print
  | assemble
  | disassemble
  | list
  deriving DecidableEq

namespace Subcommand

def all : List (String × Subcommand) :=
  [("run", run), ("trace", trace), ("print", print), ("assemble", assemble),
    ("disassemble", disassemble), ("list", list)]

def named? (name : String) : Option Subcommand :=
  all.lookup name

def takesFile (s : Subcommand) : Bool :=
  s != list

end Subcommand

/-- Options with a value. -/
inductive Setting where
  | steps
  | input
  | output
  deriving DecidableEq

def Subcommand.settings : Subcommand → List Setting
  | run | trace => [.steps, .input]
  | assemble => [.output]
  | print | disassemble | list => []

def Setting.long : Setting → List Char
  | steps => "steps".toList
  | input => "input".toList
  | output => "output".toList

def Setting.short : Setting → Option Char
  | steps | input => none
  | output => some 'o'

/-- What the arguments of a subcommand have said so far. -/
structure Draft where
  path : Option String := none
  steps : Option Nat := none
  inputs : List (Int64 × Float) := []
  output : Option String := none
  /-- Whether a log was asked for. This may be done once and has no other effect here: a log is not
  part of a report. -/
  verbose : Bool := false
  /-- The last option, if its value is still to come or still to be read. -/
  waiting : Option (Setting × Option (List Char)) := none
  /-- Whether options are over. -/
  plain : Bool := false

/-- Why reading the arguments stops: they ask for something that needs no more of them, or they
make no sense. -/
inductive Stop where
  | answer (command : Command)
  | usage (error : UsageError)

/-- A command line refused without a reason. -/
def Stop.refused : Stop :=
  .usage {}

namespace Draft

/-- Reads the value of an option. Steps and output can be given once. -/
def set (d : Draft) (setting : Setting) (value : List Char) : Except Stop Draft :=
  match setting with
  | .steps =>
      match d.steps, word? 10 value with
      | none, some steps => .ok { d with steps := some steps }
      | _, _ => .error .refused
  | .input =>
      match readPreset value with
      | .ok preset => .ok { d with inputs := d.inputs ++ [preset] }
      | .error message => .error (.usage ⟨some message⟩)
  | .output =>
      if d.output.isSome || value.isEmpty then .error .refused
      else .ok { d with output := some (String.ofList value) }

/-- Reads the value that is still waiting. This happens when the next argument has been
recognised, so that an argument that does not belong there is noticed first. -/
def settle (d : Draft) : Except Stop Draft :=
  match d.waiting with
  | none => .ok d
  | some (_, none) => .error .refused
  | some (setting, some value) => { d with waiting := none }.set setting value

def setVerbose (d : Draft) : Except Stop Draft := do
  let d ← d.settle
  if d.verbose then throw .refused
  return { d with verbose := true }

/-- An option with its value, or with the value to come in the next argument. -/
def option (d : Draft) (setting : Setting) (value : Option (List Char)) : Except Stop Draft := do
  let d ← d.settle
  match value with
  | none => return { d with waiting := some (setting, none) }
  | some value => d.set setting value

/-- Letters behind one dash. The first that is an option with a value takes all the rest. -/
def shortOptions (subcommand : Subcommand) (d : Draft) : List Char → Except Stop Draft
  | [] => .ok d
  | letter :: rest =>
      if letter = 'v' then do
        (← d.setVerbose).shortOptions subcommand rest
      else if letter = 'h' then do
        let _ ← d.settle
        throw (.answer .help)
      else
        match subcommand.settings.find? (·.short = some letter) with
        | none => .error .refused
        | some setting =>
            match rest with
            | [] => d.option setting none
            | '=' :: value => d.option setting (some value)
            | value => d.option setting (some value)

/-- A name behind two dashes, with a value if there is an equals sign. -/
def longOption (subcommand : Subcommand) (d : Draft) (text : List Char) : Except Stop Draft :=
  let (name, tail) := text.span (· ≠ '=')
  let value := match tail with
    | [] => none
    | _ :: value => some value
  match subcommand.settings.find? (·.long = name) with
  | some setting => d.option setting value
  | none =>
      if value.isSome then .error .refused
      else if name = "verbose".toList then d.setVerbose
      else if name = "help".toList then do
        let _ ← d.settle
        throw (.answer .help)
      else .error .refused

/-- An argument that is no option: the file. -/
def positional (subcommand : Subcommand) (d : Draft) (text : List Char) : Except Stop Draft := do
  if d.path.isSome || !subcommand.takesFile then throw .refused
  let d ← d.settle
  if text.isEmpty then throw .refused
  return { d with path := some (String.ofList text) }

/-- Reads one argument. -/
def read (subcommand : Subcommand) (d : Draft) (argument : List Char) : Except Stop Draft :=
  if d.plain then d.positional subcommand argument
  else match argument with
    | ['-', '-'] => .ok { d with plain := true }
    | '-' :: '-' :: text => d.longOption subcommand text
    | '-' :: letter :: rest => d.shortOptions subcommand (letter :: rest)
    | text =>
        match d.waiting with
        | some (setting, none) => .ok { d with waiting := some (setting, some text) }
        | _ => d.positional subcommand text

/-- The command that the arguments describe. -/
def command (d : Draft) (subcommand : Subcommand) : Except Stop Command := do
  let d ← d.settle
  let steps := d.steps.getD 100
  match subcommand, d.path with
  | .list, _ => return .list
  | _, none => throw .refused
  | .run, some path => return .onFile path (.run steps d.inputs)
  | .trace, some path => return .onFile path (.trace steps d.inputs)
  | .print, some path => return .onFile path .print
  | .assemble, some path => return .onFile path (.assemble d.output)
  | .disassemble, some path => return .onFile path .disassemble

end Draft

namespace Command

/-- Reads the arguments behind a subcommand. -/
def ofSubcommand (subcommand : Subcommand) (arguments : List String) : Except Stop Command := do
  let d ← arguments.foldlM (fun d argument => d.read subcommand argument.toList) ({} : Draft)
  d.command subcommand

/-- Reads letters behind one dash in front of the subcommand, and tells whether `v` has been
given by then. -/
def leadingLetters (verbose : Bool) : List Char → Except Stop Bool
  | [] => .ok verbose
  | 'v' :: rest => if verbose then .error .refused else leadingLetters true rest
  | 'V' :: _ => .error (.answer .version)
  | 'h' :: _ => .error (.answer .help)
  | _ => .error .refused

/-- Help is for the whole program or for one subcommand. -/
def readHelp : List String → Except Stop Command
  | [] => .ok .help
  | [name] =>
      if name = "help" ∨ (Subcommand.named? name).isSome then .ok .help else .error .refused
  | _ => .error .refused

/-- Reads a command line up to its subcommand and leaves the rest to that. -/
def readFrom (verbose : Bool) : List String → Except Stop Command
  | [] => .error .refused
  | argument :: rest =>
      match Subcommand.named? argument with
      | some subcommand => ofSubcommand subcommand rest
      | none =>
          if argument = "help" then readHelp rest
          else if argument = "--help" then .ok .help
          else if argument = "--version" then .ok .version
          else if argument = "--verbose" then
            if verbose then .error .refused else readFrom true rest
          else match argument.toList with
            | '-' :: letter :: letters => do
                let verbose ← leadingLetters verbose (letter :: letters)
                readFrom verbose rest
            | _ => .error .refused

/-- Reads a command line. -/
def parse (arguments : List String) : Except UsageError Command :=
  match readFrom false arguments with
  | .ok command | .error (.answer command) => .ok command
  | .error (.usage error) => .error error

end Command

end GenomeMachine
