import GenomeMachine.Number.Binary

/-!
# What instructions do

The behaviours a catalog entry can have. Each reads fixed argument slots, whatever the entry
declares. Data operations work on registers, memory, inputs, outputs and the board; control
operations go through the scope stack. There are no others: what is said of every catalog is said
of catalogs with these operations, none of which touches the genome.
-/

namespace GenomeMachine

/-- What a scope does when it is finished: a loop goes back to its opener, a function returns,
and the others just close. -/
inductive ScopeKind where
  | root
  | basic
  | loop
  | function
  deriving DecidableEq

/-- One of the eight lines out of a square of the board. -/
inductive Direction where
  | up
  | down
  | left
  | right
  | upLeft
  | upRight
  | downLeft
  | downRight
  deriving DecidableEq

/-- The row and column step of a direction. Rows count downward. -/
def Direction.step : Direction → Int × Int
  | up => (-1, 0)
  | down => (1, 0)
  | left => (0, -1)
  | right => (0, 1)
  | upLeft => (-1, -1)
  | upRight => (-1, 1)
  | downLeft => (1, -1)
  | downRight => (1, 1)

/-- Truth as a register value. -/
def truth (b : Bool) : Float :=
  if b then 1.0 else 0.0

/-- Operations on two registers that always have a result. -/
inductive Combination where
  | add
  | subtract
  | multiply
  | equal
  | unequal
  | less
  deriving DecidableEq

def Combination.apply : Combination → Float → Float → Float
  | add, a, b => a + b
  | subtract, a, b => a - b
  | multiply, a, b => a * b
  | equal, a, b => truth (a == b)
  | unequal, a, b => truth (a != b)
  | less, a, b => truth (decide (a < b))

/-- Operations on two registers that need a divisor. -/
inductive Division where
  | quotient
  | remainder
  deriving DecidableEq

def Division.apply : Division → Float → Float → Float
  | quotient, a, b => a / b
  | remainder, a, b => GenomeMachine.remainder a b

/-- Operations that leave the pointer and the scopes alone. -/
inductive DataOp where
  | idle
  | increment
  | decrement
  | negate
  | literal
  | combine (op : Combination)
  | divide (op : Division)
  | copyRegister
  | saveRegister
  | storeCell
  | loadCell
  | copyBlock
  | shiftBlock
  | readInput
  | writeOutput
  | loadBoard
  | readSquare
  | testFlank (direction : Direction)
  | endTurn
  deriving DecidableEq

/-- How the test register of an opener guards the body. -/
inductive Guard where
  | once
  | repeated
  | countdown
  deriving DecidableEq

/-- The kind of scope a guarded opener opens. -/
def Guard.kind : Guard → ScopeKind
  | once => .basic
  | repeated | countdown => .loop

/-- Operations on the scope stack. -/
inductive ControlOp where
  | guarded (guard : Guard)
  | leave
  | block
  | define
  | call
  deriving DecidableEq

/-- The behaviour of a catalog entry. -/
inductive Opcode where
  | data (op : DataOp)
  | control (op : ControlOp)
  deriving DecidableEq

end GenomeMachine
