import GenomeMachine.Machine.Dispatch

/-! # The store of a machine

Data operations work on a part of the machine, its store. The rest, which decides what runs next,
they neither read nor change, apart from one thing: a saved register is kept under the depth of
the innermost scope. `dataApply_eq` says so for all of them at once. -/

namespace GenomeMachine

/-- Sixteen registers or blocks after one of them was set. -/
theorem get_set {α : Type} (xs : Vector α 16) (r s : Slot) (value : α) :
    (xs.set r value r.isLt).get s = if r = s then value else xs.get s := by
  change (xs.set r value r.isLt)[s.val] = if r = s then value else xs[s.val]
  simp only [Vector.getElem_set, Fin.ext_iff]

/-- What data operations work on. -/
@[ext] structure Store where
  registers : Vector Float 16
  inputs : Cells
  outputs : Cells
  memory : Vector Cells 16
  board : Vector Float 64
  errors : Nat
  traits : Array Float

/-- The same fault at another position. -/
def Fault.moveTo (position : Nat) : Fault → Fault
  | unknownInstruction _ id => unknownInstruction position id
  | scopeOverflow _ depth => scopeOverflow position depth
  | registerOutOfRange _ number => registerOutOfRange position number
  | blockOutOfRange _ number => blockOutOfRange position number
  | functionOutOfRange _ number => functionOutOfRange position number

namespace Machine

def store (m : Machine) : Store where
  registers := m.registers
  inputs := m.inputs
  outputs := m.outputs
  memory := m.memory
  board := m.board
  errors := m.errors
  traits := m.traits

/-- The machine with another store, at the same point of its program. -/
def withStore (m : Machine) (s : Store) : Machine :=
  { m with
    registers := s.registers
    inputs := s.inputs
    outputs := s.outputs
    memory := s.memory
    board := s.board
    errors := s.errors
    traits := s.traits }

/-- Backups taken over as ones of the innermost scope. -/
def claim (m : Machine) (saved : List Backup) : List Backup :=
  saved.map fun b => { b with depth := m.innermost.depth }

/-- The machine with the store of another one, and with that one's backups claimed for its own
innermost scope. -/
def absorb (m b : Machine) : Machine :=
  { m.withStore b.store with backups := m.claim b.backups ++ m.backups }

end Machine

open Machine

/-- A machine that has a store and nothing to do. -/
def Store.machine (s : Store) : Machine :=
  (Machine.new .empty #[]).withStore s

/-- What a machine makes of a result that was computed from its store alone. -/
def Machine.resume (m : Machine) : Except Fault Machine → Except Fault Machine
  | .ok b => .ok (m.absorb b)
  | .error fault => .error (fault.moveTo m.pointer)

theorem resume_bind {α : Type} (m : Machine) (x : Except Fault α) (f : α → Except Fault Machine) :
    m.resume (x >>= f) = x.mapError (·.moveTo m.pointer) >>= fun a => m.resume (f a) := by
  cases x <;> rfl

theorem registerArg_eq (m : Machine) (arg : UInt16) :
    m.registerArg arg = (m.store.machine.registerArg arg).mapError (·.moveTo m.pointer) := by
  unfold registerArg
  split <;> rfl

theorem blockArg_eq (m : Machine) (arg : UInt16) :
    m.blockArg arg = (m.store.machine.blockArg arg).mapError (·.moveTo m.pointer) := by
  unfold blockArg
  split <;> rfl

section Absorb

variable (m : Machine)

@[simp] theorem register_machine (r : Slot) : m.store.machine.register r = m.register r := rfl

@[simp] theorem block_machine (b : Slot) : m.store.machine.block b = m.block b := rfl

@[simp] theorem traits_machine : m.store.machine.traits = m.traits := rfl

@[simp] theorem absorb_machine : m.absorb m.store.machine = m := rfl

@[simp] theorem absorb_setRegister (r : Slot) (value : Float) :
    m.absorb (m.store.machine.setRegister r value) = m.setRegister r value := rfl

@[simp] theorem absorb_pushBackup (depth : Nat) (r : Slot) :
    m.absorb (m.store.machine.pushBackup depth r) = m.pushBackup m.innermost.depth r := rfl

@[simp] theorem absorb_setCell (b : Slot) (key : Int64) (value : Float) :
    m.absorb (m.store.machine.setCell b key value) = m.setCell b key value := rfl

@[simp] theorem absorb_copyBlock (source target : Slot) :
    m.absorb (m.store.machine.copyBlock source target) = m.copyBlock source target := rfl

@[simp] theorem absorb_shiftBlock (b : Slot) (distance : Int64) :
    m.absorb (m.store.machine.shiftBlock b distance) = m.shiftBlock b distance := rfl

@[simp] theorem absorb_setOutput (key : Int64) (value : Float) :
    m.absorb (m.store.machine.setOutput key value) = m.setOutput key value := rfl

theorem absorb_board (board : Vector Float 64) :
    m.absorb { m.store.machine with board := board } = { m with board := board } := rfl

@[simp] theorem absorb_loadBoard : m.absorb m.store.machine.loadBoard = m.loadBoard :=
  absorb_board m m.loadBoard.board

@[simp] theorem absorb_setTrait (n : Nat) (value : Float) :
    m.absorb (m.store.machine.setTrait n value) = m.setTrait n value := by
  simp only [setTrait, traits_machine]
  rfl

@[simp] theorem absorb_endTurn : m.absorb m.store.machine.endTurn = m.endTurn := by
  rw [endTurn, endTurn, absorb_setTrait]

end Absorb

@[simp] theorem resume_pure (m b : Machine) : m.resume (pure b) = pure (m.absorb b) := rfl

/-- A data operation needs no more than the store. -/
theorem dataApply_eq (op : DataOp) (i : Instruction) (m : Machine) :
    op.apply i m = m.resume (op.apply i m.store.machine) := by
  cases op with
  | divide op =>
      simp only [DataOp.apply, registerArg_eq m, resume_bind]
      refine bind_congr fun a => bind_congr fun b => bind_congr fun target => ?_
      change _ = m.resume (if m.register b == 0.0 then _ else _)
      split <;> rfl
  | readInput | readSquare | testFlank =>
      simp only [DataOp.apply, registerArg_eq m, resume_bind]
      rfl
  | _ =>
      simp only [DataOp.apply, registerArg_eq m, blockArg_eq m, resume_bind, resume_pure,
        register_machine, block_machine, absorb_machine, absorb_setRegister, absorb_pushBackup,
        absorb_setCell, absorb_copyBlock, absorb_shiftBlock, absorb_setOutput, absorb_loadBoard,
        absorb_endTurn]

end GenomeMachine
