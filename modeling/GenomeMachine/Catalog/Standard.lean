import GenomeMachine.Catalog.Basic

/-!
# The standard catalog

Arithmetic, control flow, memory, inputs, outputs and the board game, with `0` to `15` and `RegA` to
`RegP` as symbolic arguments.
-/

namespace GenomeMachine

/-- An entry that works on data and opens no scope. -/
private def dataEntry (name : String) (op : DataOp) (arity : Nat) (description : String) : Entry :=
  ⟨name, .data op, arity, description, none⟩

/-- An entry that works on the scope stack. -/
private def controlEntry (name : String) (op : ControlOp) (arity : Nat) (description : String)
    (scope : Option ScopeRule) : Entry :=
  ⟨name, .control op, arity, description, scope⟩

def arithmeticEntries : List Entry := [
  dataEntry "Inc" .increment 1 "Increment value in reg Arg1",
  dataEntry "Dec" .decrement 1 "Decrement value in reg Arg1",
  dataEntry "Not" .negate 1 "Logically toggle value in reg Arg1",
  dataEntry "SetReg" .literal 2 "Set reg Arg1 to numerical value Arg2",
  dataEntry "Add" (.combine .add) 3 "regs: Arg3 = Arg1 + Arg2",
  dataEntry "Sub" (.combine .subtract) 3 "regs: Arg3 = Arg1 - Arg2",
  dataEntry "Mult" (.combine .multiply) 3 "regs: Arg3 = Arg1 * Arg2",
  dataEntry "Div" (.divide .quotient) 3 "regs: Arg3 = Arg1 / Arg2",
  dataEntry "Mod" (.divide .remainder) 3 "regs: Arg3 = Arg1 % Arg2",
  dataEntry "TestEqu" (.combine .equal) 3 "regs: Arg3 = (Arg1 == Arg2)",
  dataEntry "TestNEqu" (.combine .unequal) 3 "regs: Arg3 = (Arg1 != Arg2)",
  dataEntry "TestLess" (.combine .less) 3 "regs: Arg3 = (Arg1 < Arg2)"]

def controlEntries : List Entry := [
  controlEntry "If" (.guarded .once) 2 "If reg Arg1 != 0, scope -> Arg2; else skip scope"
    (some ⟨.basic, 1⟩),
  controlEntry "While" (.guarded .repeated) 2 "Until reg Arg1 != 0, repeat scope Arg2; else skip"
    (some ⟨.loop, 1⟩),
  controlEntry "Countdown" (.guarded .countdown) 2 "Countdown reg Arg1 to zero; scope to Arg2"
    (some ⟨.loop, 1⟩),
  controlEntry "Break" .leave 1 "Break out of scope Arg1" none,
  controlEntry "Scope" .block 1 "Enter scope Arg1" (some ⟨.basic, 0⟩),
  controlEntry "Define" .define 2 "Build function Arg1 in scope Arg2" (some ⟨.function, 1⟩),
  controlEntry "Call" .call 1 "Call previously defined function Arg1" none]

def memoryEntries : List Entry := [
  dataEntry "SetMem" .storeCell 3 "Put reg Arg3 into mem block Arg1 at position reg Arg2",
  dataEntry "GetMem" .loadCell 3 "Get from block Arg1 position reg Arg2 into reg Arg3",
  dataEntry "CopyMem" .copyBlock 2 "Copy memory block Arg1 into memory block Arg2",
  dataEntry "ShiftMem" .shiftBlock 2 "Shift positions in memory block Arg1 by reg Arg2"]

def boardEntries : List Entry := [
  dataEntry "SetBoard" .loadBoard 1 "Sets board state in board memory",
  dataEntry "EndTurn" .endTurn 1 "Signals that the organism is done with computation",
  dataEntry "GetSquareCurr" .readSquare 2
    "Gets piece from reg Arg1 in board and puts it in reg Arg2",
  dataEntry "GetValidAbove" (.testFlank .up) 2
    "Check if reg Arg1 flanks a piece above, bool put in reg Arg2",
  dataEntry "GetValidBelow" (.testFlank .down) 2
    "Check if reg Arg1 flanks a piece below, bool put in reg Arg2",
  dataEntry "GetValidLeft" (.testFlank .left) 2
    "Check if reg Arg1 flanks a piece left, bool put in reg Arg2",
  dataEntry "GetValidRight" (.testFlank .right) 2
    "Check if reg Arg1 flanks a piece right, bool put in reg Arg2",
  dataEntry "GetValidUL" (.testFlank .upLeft) 2
    "Check if reg Arg1 flanks a piece upper left, bool put in reg Arg2",
  dataEntry "GetValidUR" (.testFlank .upRight) 2
    "Check if reg Arg1 flanks a piece upper right, bool put in reg Arg2",
  dataEntry "GetValidLL" (.testFlank .downLeft) 2
    "Check if reg Arg1 flanks a piece lower left, bool put in reg Arg2",
  dataEntry "GetValidLR" (.testFlank .downRight) 2
    "Check if reg Arg1 flanks a piece lower right, bool put in reg Arg2"]

def transferEntries : List Entry := [
  dataEntry "Input" .readInput 2 "Pull next value from input Arg1 into reg Arg2",
  dataEntry "Output" .writeOutput 2 "Push reg Arg1 into output Arg2",
  dataEntry "CopyVal" .copyRegister 2 "Copy reg Arg1 into reg Arg2",
  dataEntry "ScopeReg" .saveRegister 1 "Backup reg Arg1; restore at end of scope"]

/-- The entries of the standard catalog in order of their ids. -/
def standardEntries : List Entry :=
  arithmeticEntries ++ controlEntries ++ memoryEntries ++ boardEntries ++ transferEntries

/-- The letters that name the registers. -/
def registerLetters : List Char :=
  "ABCDEFGHIJKLMNOP".toList

namespace Catalog

/-- Each register number, and the name of that register, stand for the number. -/
def withRegisterNames (c : Catalog) : Catalog :=
  registerLetters.zipIdx.foldl (fun c (letter, n) =>
    (c.setSymbol (toString n) (.ofNat n)).setSymbol ("Reg".push letter) (.ofNat n)) c

def standard : Catalog :=
  (empty.registerAll standardEntries).withRegisterNames

end Catalog

end GenomeMachine
