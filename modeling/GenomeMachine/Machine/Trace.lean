import GenomeMachine.Machine.Step
import GenomeMachine.Number.Decimal

/-!
# Showing a machine

The text of a state shows registers, inputs, outputs and the next instruction. A trace is the
text of every state before its step.
-/

namespace GenomeMachine.Machine

/-- An instruction as a state shows it. -/
def instructionText (m : Machine) (i : Instruction) : String :=
  (m.catalog.text? i).getD s!"<unknown {i.id}>"

def nextInstructionText (m : Machine) : String :=
  match m.instruction? m.nextPosition with
  | some i => m.instructionText i
  | none => "none"

/-! ## The text of a state

A state is written piece by piece: the fixed parts, and between them each number or name. -/

def registersPieces (m : Machine) : List String :=
  " REGS: " :: m.registers.toList.flatMap fun value => ["[", numberText value, "] "]

/-- The entries of a store in order of their keys, under a title. -/
def cellsPieces (title : String) (cells : Cells) : List String :=
  ("\n " ++ title ++ ": ") :: cells.toList.flatMap fun (key, value) =>
    ["[", toString key.toInt, ",", numberText value, "] "]

/-- The pointer, and where the next step goes if that is elsewhere. -/
def pointerPieces (m : Machine) : List String :=
  let next := m.nextPosition
  "IP:" :: toString m.pointer :: if m.pointer = next then [] else ["(-> ", toString next, ")"]

/-- What is written to show a state. -/
def statePieces (m : Machine) : List String :=
  m.registersPieces ++ cellsPieces "INPUTS" m.inputs ++ cellsPieces "OUTPUTS" m.outputs ++ ["\n"]
    ++ m.pointerPieces
    ++ [" scope:", toString m.innermost.depth, " (", m.nextInstructionText, ") errors: ",
      toString m.errors, "\n"]

/-- The text of a state. -/
def stateText (m : Machine) : String :=
  String.join m.statePieces

/-! ## Traces -/

/-- A sink that has taken the text `written` is given a piece more. If it has a limit, it takes no
more than `room` bytes in all: a piece that goes beyond is refused, and the sink is left with what
it took before. -/
def put (room : Option Nat) (written piece : String) : Except String String :=
  if room.any (· < written.utf8ByteSize + piece.utf8ByteSize) then .error written
  else .ok (written ++ piece)

/-- Writes a state to a sink, up to the first piece that is refused. -/
def writeState (room : Option Nat) (written : String) (m : Machine) : Except String String :=
  m.statePieces.foldlM (put room) written

/-- Why a trace ended early. -/
inductive TraceError where
  | write
  | fault (cause : Fault)
  deriving DecidableEq

def TraceError.message : TraceError → String
  | write => "trace output failed"
  | fault cause => cause.message

/-- A trace: what was written, how it ended, and the machine then. -/
structure Trace where
  text : String
  error : Option TraceError
  machine : Machine

/-- Writes each state and makes a step, `count` times or until a fault, into a sink that has taken
`written` and takes no more than `room` bytes in all, if it has a limit. A state that could not be
written as a whole makes no step. -/
def traceFrom (room : Option Nat) (written : String) : Nat → Machine → Trace
  | 0, m => ⟨written, none, m⟩
  | count + 1, m =>
      match m.writeState room written with
      | .error written => ⟨written, some .write, m⟩
      | .ok written =>
          match step m with
          | .error fault m => ⟨written, some (.fault fault), m⟩
          | .ok () m => traceFrom room written count m

/-- Shows each state and makes a step, `count` times or until a fault. -/
def trace (m : Machine) (count : Nat) : Trace :=
  traceFrom none "" count m

/-- A trace into a sink that takes at most `room` bytes. -/
def traceInto (room : Nat) (m : Machine) (count : Nat) : Trace :=
  traceFrom (some room) "" count m

end GenomeMachine.Machine
