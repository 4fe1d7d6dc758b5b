import GenomeMachine.Catalog.Basic
import GenomeMachine.Machine.Cells

/-!
# The machine

A machine runs a genome on sixteen registers. Control flow is kept on three stacks: the open
scopes, the register values to restore when scopes close, and the positions to return to.
-/

namespace GenomeMachine

/-- A register, a memory block or a function slot: there are sixteen of each. -/
abbrev Slot := Fin 16

/-- The slot with a number. -/
def slot? (n : Nat) : Option Slot :=
  if h : n < 16 then some ⟨n, h⟩ else none

/-- An open scope: how deep it is, its kind, and the position it was opened at. -/
structure Frame where
  depth : Nat
  kind : ScopeKind
  start : Nat
  deriving DecidableEq

/-- The scope around everything, which never closes. -/
def Frame.root : Frame := ⟨0, .root, 0⟩

/-- A register value to restore when the scope of the given depth closes. -/
structure Backup where
  depth : Nat
  register : Slot
  value : Float

/-- The state of a machine. All three stacks have their newest element first. -/
structure Machine where
  catalog : Catalog
  genome : Genome
  registers : Vector Float 16
  inputs : Cells
  outputs : Cells
  memory : Vector Cells 16
  functions : Vector (Option Nat) 16
  pointer : Nat
  /-- The open scopes inside the root scope. -/
  opened : List Frame
  backups : List Backup
  calls : List Nat
  board : Vector Float 64
  /-- Whether the instruction at the pointer is still due in this step. -/
  pending : Bool
  errors : Nat
  traits : Array Float

/-- Why an instruction cannot be carried out, and at which position. -/
inductive Fault where
  | unknownInstruction (position : Nat) (id : UInt16)
  | scopeOverflow (position depth : Nat)
  | registerOutOfRange (position : Nat) (number : UInt16)
  | blockOutOfRange (position : Nat) (number : UInt16)
  | functionOutOfRange (position : Nat) (number : UInt16)
  deriving DecidableEq

def Fault.message : Fault → String
  | unknownInstruction position id => s!"unknown instruction id {id} at instruction {position}"
  | scopeOverflow position depth =>
      s!"scope stack overflow opening depth {depth} at instruction {position}"
  | registerOutOfRange position number =>
      s!"register {number} out of range at instruction {position}"
  | blockOutOfRange position number =>
      s!"memory block {number} out of range at instruction {position}"
  | functionOutOfRange position number =>
      s!"function slot {number} out of range at instruction {position}"

/-- Actions on a machine. A fault leaves the machine as it was when the fault arose. -/
abbrev Action := EStateM Fault Machine

/-- The trait that tells whether the program has ended its turn. -/
def haltTrait : Nat := 100

namespace Machine

/-- Register `n` starts with the value `n`. -/
def initialRegisters : Vector Float 16 :=
  .ofFn fun r => Float.ofNat r.val

/-- The machine before its first step. -/
def new (catalog : Catalog) (genome : Genome) : Machine where
  catalog := catalog
  genome := genome
  registers := initialRegisters
  inputs := ∅
  outputs := ∅
  memory := .replicate 16 ∅
  functions := .replicate 16 none
  pointer := 0
  opened := []
  backups := []
  calls := []
  board := .replicate 64 0.0
  pending := false
  errors := 0
  traits := .replicate (haltTrait + 1) 0.0

/-- Back to the start with the same genome and traits. -/
def resetHardware (m : Machine) : Machine :=
  { m with
    registers := initialRegisters
    inputs := ∅
    outputs := ∅
    memory := .replicate 16 ∅
    functions := .replicate 16 none
    pointer := 0
    opened := []
    backups := []
    calls := []
    board := .replicate 64 0.0
    pending := false
    errors := 0 }

/-! ## Reading -/

/-- All open scopes, the innermost first. -/
def frames (m : Machine) : List Frame :=
  m.opened ++ [.root]

/-- The innermost open scope. -/
def innermost (m : Machine) : Frame :=
  m.opened.headD .root

def register (m : Machine) (r : Slot) : Float :=
  m.registers.get r

def block (m : Machine) (b : Slot) : Cells :=
  m.memory.get b

def instruction? (m : Machine) (position : Nat) : Option Instruction :=
  m.genome[position]?

/-- The number in a cell of a block, and zero where there is no such block. -/
def cell (m : Machine) (block : Nat) (key : Int64) : Float :=
  (m.memory[block]?.map (·.read key)).getD 0.0

/-- The position a function was defined at. -/
def function? (m : Machine) (slot : Nat) : Option Nat :=
  m.functions[slot]?.join

def traitValue (m : Machine) (n : Nat) : Float :=
  m.traits[n]?.getD 0.0

/-- Whether the program has ended its turn. -/
def halted (m : Machine) : Bool :=
  m.traitValue haltTrait == 1.0

/-! ## Writing -/

/-- Replaces an instruction. Positions past the end of the genome have none to replace. -/
def setInstruction (m : Machine) (position : Nat) (i : Instruction) : Machine :=
  { m with genome := m.genome.setIfInBounds position i }

def pushInstruction (m : Machine) (i : Instruction) : Machine :=
  { m with genome := m.genome.push i }

def setRegister (m : Machine) (r : Slot) (value : Float) : Machine :=
  { m with registers := m.registers.set r value }

def setInput (m : Machine) (key : Int64) (value : Float) : Machine :=
  { m with inputs := m.inputs.insert key value }

def setOutput (m : Machine) (key : Int64) (value : Float) : Machine :=
  { m with outputs := m.outputs.insert key value }

def setCell (m : Machine) (block : Slot) (key : Int64) (value : Float) : Machine :=
  { m with memory := m.memory.set block ((m.block block).insert key value) }

def copyBlock (m : Machine) (source target : Slot) : Machine :=
  { m with memory := m.memory.set target (m.block source) }

def shiftBlock (m : Machine) (block : Slot) (distance : Int64) : Machine :=
  { m with memory := m.memory.set block ((m.block block).shift distance) }

def setFunction (m : Machine) (slot : Slot) (position : Option Nat) : Machine :=
  { m with functions := m.functions.set slot position }

/-- Keeps the value of a register until the scope of the given depth closes. -/
def pushBackup (m : Machine) (depth : Nat) (r : Slot) : Machine :=
  { m with backups := ⟨depth, r, m.register r⟩ :: m.backups }

def pushCall (m : Machine) (position : Nat) : Machine :=
  { m with calls := position :: m.calls }

def countError (m : Machine) : Machine :=
  { m with errors := m.errors + 1 }

/-- Sets a trait. Traits up to it that were missing are zero. -/
def setTrait (m : Machine) (n : Nat) (value : Float) : Machine :=
  let padding := Array.replicate (n + 1 - m.traits.size) 0.0
  { m with traits := (m.traits ++ padding).setIfInBounds n value }

def pushTrait (m : Machine) (value : Float) : Machine :=
  { m with traits := m.traits.push value }

def endTurn (m : Machine) : Machine :=
  m.setTrait haltTrait 1.0

/-- Back to the start with an empty genome and no traits. -/
def reset (m : Machine) : Machine :=
  ({ m with genome := #[], traits := #[] }.setTrait haltTrait 0.0).resetHardware

/-- Adds an instruction by its name and tells its id; an unknown name changes nothing. -/
def pushNamed (m : Machine) (name : String) (a b c : UInt16) : Option UInt16 × Machine :=
  match m.catalog.id? name with
  | none => (none, m)
  | some id => (some id, m.pushInstruction ⟨id, a, b, c⟩)

/-! ## Arguments -/

/-- An argument as a register. -/
def registerArg (m : Machine) (arg : UInt16) : Except Fault Slot :=
  match slot? arg.toNat with
  | some r => .ok r
  | none => .error (.registerOutOfRange m.pointer arg)

/-- An argument as a memory block. -/
def blockArg (m : Machine) (arg : UInt16) : Except Fault Slot :=
  match slot? arg.toNat with
  | some b => .ok b
  | none => .error (.blockOutOfRange m.pointer arg)

end Machine

end GenomeMachine
