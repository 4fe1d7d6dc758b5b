import GenomeMachine.Machine.Basic

/-!
# Scopes

Control flow has no jump targets. An instruction that opens a scope carries a depth, and the
stack of open scopes decides what that depth means when it is reached: deeper than the innermost
scope, a new scope opens; otherwise the innermost scope is finished first, and its kind decides
what follows.
-/

namespace GenomeMachine

/-- Whether a finished scope of this kind just closes. -/
def ScopeKind.closesSilently : ScopeKind → Bool
  | root | basic => true
  | loop | function => false

/-- The registers after each backup was put back, in the order given. -/
def restore (registers : Vector Float 16) (backups : List Backup) : Vector Float 16 :=
  backups.foldl (fun registers b => registers.set b.register b.value) registers

namespace Machine

/-- Closes the innermost scope and restores the registers it backed up, the latest first. The
root scope stays. -/
def closeScope (m : Machine) : Machine :=
  match m.opened with
  | [] => m
  | frame :: rest =>
      { m with
        registers := restore m.registers (m.backups.takeWhile (·.depth == frame.depth))
        backups := m.backups.dropWhile (·.depth == frame.depth)
        opened := rest }

/-- Goes back to the first instruction, out of all scopes, with every backup restored. -/
def rewind (m : Machine) : Machine :=
  { m with
    registers := restore m.registers m.backups
    pointer := 0
    opened := []
    backups := []
    calls := [] }

/-- Where the innermost call returns to. There is no way back to a position that the genome does
not have. -/
def returnPosition? (m : Machine) : Option Nat :=
  m.calls.head?.filter (· < m.genome.size)

/-- Closes the scopes of at least the given depth from the innermost outward, up to the first
that does more than close. -/
def closeSilent (depth : Nat) : List Frame → Machine → Machine
  | [], m => m
  | frame :: rest, m =>
      if depth ≤ frame.depth ∧ frame.kind.closesSilently then
        closeSilent depth rest m.closeScope
      else m

/-- Finishes the innermost scope: a loop goes back to its opener, a function returns. Either way
the instruction arrived at is due in the same step. -/
def finishScope (m : Machine) (frame : Frame) : Machine :=
  if frame.kind = .function then
    match m.returnPosition? with
    | some position =>
        { m.closeScope with pointer := position, calls := m.calls.tail, pending := true }
    | none => { m.rewind with pending := true }
  else { m.closeScope with pointer := frame.start, pending := true }

/-- Reaches an opener whose argument is `level`. The answer is whether its scope was opened; if
not, another scope was finished instead and the opener has to do nothing more. -/
def enterScope (level : Nat) (kind : ScopeKind) : Action Bool := fun m =>
  let depth := level + 1
  let m := closeSilent depth m.opened m
  match m.opened.head?.filter (depth ≤ ·.depth) with
  | some frame => .ok false (m.finishScope frame)
  | none =>
      if m.frames.length < 16 then
        .ok true { m with opened := ⟨depth, kind, m.pointer⟩ :: m.opened }
      else .error (.scopeOverflow m.pointer depth) m

/-- The next position past the pointer with an opener of at most the given depth. -/
def nextOpener? (m : Machine) (depth : Nat) : Option Nat :=
  (m.genome.extract (m.pointer + 1) m.genome.size).findIdx?
    (fun i => 0 < m.catalog.openedDepth i && m.catalog.openedDepth i ≤ depth)
      |>.map (m.pointer + 1 + ·)

/-- Leaves the innermost scope, whatever its depth, and skips to just before the next opener
that is no deeper than `level`, or else to the last instruction. If no scope that deep is open,
nothing happens. -/
def leaveScope (m : Machine) (level : Nat) : Machine :=
  let depth := level + 1
  if m.innermost.depth < depth then m
  else
    { m.closeScope with
      pointer := match m.nextOpener? depth with
        | some position => position - 1
        | none => max m.pointer (m.genome.size - 1) }

end Machine

end GenomeMachine
