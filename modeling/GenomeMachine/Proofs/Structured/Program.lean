import GenomeMachine.Proofs.Catalog.Standard
import GenomeMachine.Proofs.Store

/-! # Structured programs

Programs as nested nodes, and the genome that lists a program in the order of its text. In the
genome nothing is left of the nesting but the level that every opener carries. -/

namespace GenomeMachine

/-- The argument slots of an operation that name a register or a memory block. -/
def DataOp.operands : DataOp → List Nat
  | idle | loadBoard | endTurn => []
  | increment | decrement | negate | literal | saveRegister => [0]
  | copyRegister | copyBlock | shiftBlock | readInput | writeOutput | readSquare | testFlank _ =>
      [0, 1]
  | combine _ | divide _ | storeCell | loadCell => [0, 1, 2]

def Opcode.operands : Opcode → List Nat
  | data op => op.operands
  | control _ => []

/-- The instructions that are not plain. -/
def controlNames : List String :=
  ["If", "While", "Countdown", "Break", "Scope", "Define", "Call"]

/-- An instruction of the standard catalog that is none of these, and whose registers and blocks
exist. -/
structure PlainInstruction where
  instruction : Instruction
  entry : Entry
  known : Catalog.standard.entry? instruction.id = some entry
  plain : entry.name ∉ controlNames
  inRange : ∀ slot ∈ entry.opcode.operands, (instruction.arg slot).toNat < 16

/-- What a plain instruction does. -/
def PlainInstruction.op (i : PlainInstruction) : DataOp :=
  match i.entry.opcode with
  | .data op => op
  | .control _ => .idle

/-- What a node begins with. -/
inductive Opener where
  | block
  | guarded (guard : Guard) (test : Slot)

namespace Opener

def kind : Opener → ScopeKind
  | block => .basic
  | guarded guard _ => guard.kind

def op : Opener → ControlOp
  | block => .block
  | guarded guard _ => .guarded guard

def name : Opener → String
  | block => "Scope"
  | guarded .once _ => "If"
  | guarded .repeated _ => "While"
  | guarded .countdown _ => "Countdown"

/-- The instruction of an opener at a level. -/
def instruction (level : Nat) : Opener → Instruction
  | block => ⟨16, .ofNat level, 0, 0⟩
  | guarded .once test => ⟨12, .ofNat test, .ofNat level, 0⟩
  | guarded .repeated test => ⟨13, .ofNat test, .ofNat level, 0⟩
  | guarded .countdown test => ⟨14, .ofNat test, .ofNat level, 0⟩

end Opener

/-- Nodes side by side. Each has an opener, a body of data instructions and the nodes inside. -/
inductive Nodes where
  | none
  | node (opener : Opener) (body : List PlainInstruction) (children rest : Nodes)

/-- The instructions of a body. -/
def bodyInstructions (body : List PlainInstruction) : List Instruction :=
  body.map (·.instruction)

namespace Nodes

/-- How many levels there are. -/
def height : Nodes → Nat
  | none => 0
  | node _ _ children rest => max (children.height + 1) rest.height

/-- The instructions of nodes at a level, in the order of the text. -/
def layout (level : Nat) : Nodes → List Instruction
  | none => []
  | node opener body children rest =>
      opener.instruction level ::
        (bodyInstructions body ++ (children.layout (level + 1) ++ rest.layout level))

end Nodes

/-- A body, and nodes of at most fifteen levels. -/
structure Program where
  body : List PlainInstruction
  nodes : Nodes
  height_le : nodes.height ≤ 15

/-- The program as a genome. The opener at the end finishes whatever is still open. -/
def Program.genome (p : Program) : Genome :=
  (bodyInstructions p.body ++ (p.nodes.layout 0 ++ [Opener.block.instruction 0])).toArray

/-! ## The depths that instructions open -/

theorem entry_plain (i : PlainInstruction) :
    i.entry.opcode = .data i.op ∧ i.entry.scope = none := by
  have hdata : ∀ e ∈ standardEntries, e.name ∉ controlNames →
      (e.opcode matches .data _) ∧ e.scope = none := by decide
  obtain ⟨hop, hscope⟩ := hdata i.entry (Catalog.mem_standardEntries i.known) i.plain
  refine ⟨?_, hscope⟩
  unfold PlainInstruction.op
  cases h : i.entry.opcode with
  | data op => rfl
  | control op => simp [h] at hop

theorem inRange_op (i : PlainInstruction) :
    ∀ slot ∈ i.op.operands, (i.instruction.arg slot).toNat < 16 := by
  have hrange := i.inRange
  rwa [(entry_plain i).1] at hrange

theorem entry?_opener (opener : Opener) (level : Nat) :
    ∃ e slot, Catalog.standard.entry? (opener.instruction level).id = some e ∧
      e.name = opener.name ∧ e.opcode = .control opener.op ∧ e.scope = some ⟨opener.kind, slot⟩ ∧
      (opener.instruction level).arg slot = .ofNat level := by
  rw [Catalog.entry?_standard]
  cases opener with
  | block => exact ⟨_, _, rfl, rfl, rfl, rfl, rfl⟩
  | guarded guard test => cases guard <;> exact ⟨_, _, rfl, rfl, rfl, rfl, rfl⟩

theorem openedDepth_plain (i : PlainInstruction) :
    Catalog.standard.openedDepth i.instruction = 0 := by
  simp [Catalog.openedDepth, Catalog.scopeRule?, i.known, (entry_plain i).2]

theorem openedDepth_opener (opener : Opener) {level : Nat} (hlevel : level < 65536) :
    Catalog.standard.openedDepth (opener.instruction level) = level + 1 := by
  obtain ⟨e, slot, he, _, _, hscope, harg⟩ := entry?_opener opener level
  simp [Catalog.openedDepth, Catalog.scopeRule?, he, hscope, harg, Nat.mod_eq_of_lt hlevel]

theorem openedDepth_body {body : List PlainInstruction} {i : Instruction}
    (hi : i ∈ bodyInstructions body) : Catalog.standard.openedDepth i = 0 := by
  obtain ⟨plain, _, rfl⟩ := List.mem_map.mp hi
  exact openedDepth_plain plain

/-- Nothing inside the nodes of a level is less deep than the level. -/
theorem openedDepth_layout {nodes : Nodes} {level : Nat} (hlevel : level + nodes.height ≤ 65536)
    {i : Instruction} (hi : i ∈ nodes.layout level) :
    Catalog.standard.openedDepth i = 0 ∨ level < Catalog.standard.openedDepth i := by
  induction nodes generalizing level with
  | none => simp [Nodes.layout] at hi
  | node opener body children rest ihChildren ihRest =>
      simp only [Nodes.height] at hlevel
      simp only [Nodes.layout, List.mem_cons, List.mem_append] at hi
      rcases hi with rfl | hi | hi | hi
      · exact .inr (by rw [openedDepth_opener opener (by omega)]; omega)
      · exact .inl (openedDepth_body hi)
      · rcases ihChildren (by omega) hi with h | h
        · exact .inl h
        · exact .inr (by omega)
      · exact ihRest (by omega) hi

end GenomeMachine
