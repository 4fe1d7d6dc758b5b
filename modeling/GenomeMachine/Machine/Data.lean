import GenomeMachine.Machine.Board

/-!
# Data operations

All arguments of an operation are checked from left to right before anything changes.
-/

namespace GenomeMachine

open Machine

/-- The machine after a data operation. -/
def DataOp.apply (op : DataOp) (i : Instruction) (m : Machine) : Except Fault Machine :=
  match op with
  | .idle => return m
  | .increment => do
      let r ← m.registerArg i.first
      return m.setRegister r (m.register r + 1.0)
  | .decrement => do
      let r ← m.registerArg i.first
      return m.setRegister r (m.register r - 1.0)
  | .negate => do
      let r ← m.registerArg i.first
      return m.setRegister r (truth (m.register r == 0.0))
  | .literal => do
      let r ← m.registerArg i.first
      return m.setRegister r (Float.ofNat i.second.toNat)
  | .combine op => do
      let a ← m.registerArg i.first
      let b ← m.registerArg i.second
      let target ← m.registerArg i.third
      return m.setRegister target (op.apply (m.register a) (m.register b))
  | .divide op => do
      let a ← m.registerArg i.first
      let b ← m.registerArg i.second
      let target ← m.registerArg i.third
      if m.register b == 0.0 then return m.countError
      else return m.setRegister target (op.apply (m.register a) (m.register b))
  | .copyRegister => do
      let source ← m.registerArg i.first
      let target ← m.registerArg i.second
      return m.setRegister target (m.register source)
  | .saveRegister => do
      let r ← m.registerArg i.first
      return m.pushBackup m.innermost.depth r
  | .storeCell => do
      let block ← m.blockArg i.first
      let key ← m.registerArg i.second
      let source ← m.registerArg i.third
      return m.setCell block (keyOf (m.register key)) (m.register source)
  | .loadCell => do
      let block ← m.blockArg i.first
      let key ← m.registerArg i.second
      let target ← m.registerArg i.third
      return m.setRegister target ((m.block block).read (keyOf (m.register key)))
  | .copyBlock => do
      let source ← m.blockArg i.first
      let target ← m.blockArg i.second
      return m.copyBlock source target
  | .shiftBlock => do
      let block ← m.blockArg i.first
      let distance ← m.registerArg i.second
      return m.shiftBlock block (keyOf (m.register distance))
  | .readInput => do
      let key ← m.registerArg i.first
      let target ← m.registerArg i.second
      return m.setRegister target (m.inputs.read (keyOf (m.register key)))
  | .writeOutput => do
      let source ← m.registerArg i.first
      let key ← m.registerArg i.second
      return m.setOutput (keyOf (m.register key)) (m.register source)
  | .loadBoard => return m.loadBoard
  | .readSquare => do
      let position ← m.registerArg i.first
      let target ← m.registerArg i.second
      return m.setRegister target (m.square (keyOf (m.register position)))
  | .testFlank direction => do
      let position ← m.registerArg i.first
      let target ← m.registerArg i.second
      return m.setRegister target (truth (m.flanks (keyOf (m.register position)) direction))
  | .endTurn => return m.endTurn

end GenomeMachine
