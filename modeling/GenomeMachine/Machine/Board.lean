import GenomeMachine.Machine.Basic

/-!
# The board

Eight rows of eight squares, row by row from the upper left. A piece of the player is `1`, one
of the opponent `-1`, and an empty square `0`. A move to an empty square flanks in a direction
when a run of one or more opponent pieces leads from it to a piece of the player.
-/

namespace GenomeMachine

/-- The square at a row and column, if both are on the board. -/
def square? (row column : Int) : Option (Fin 64) :=
  if h : (0 ≤ row ∧ row < 8) ∧ 0 ≤ column ∧ column < 8 then
    some ⟨(row * 8 + column).toNat, by omega⟩
  else none

/-- The squares on the line out of a square, up to the edge of the board. -/
def Direction.ray (direction : Direction) (row column : Int) : List (Fin 64) :=
  ((List.range 7).map fun (i : Nat) =>
    square? (row + (i + 1) * direction.step.1) (column + (i + 1) * direction.step.2))
      |>.takeWhile (·.isSome) |>.filterMap id

/-- Whether pieces on a line begin with one or more of the opponent, and then one of the
player. -/
def flankedRun (pieces : List Float) : Bool :=
  pieces.head?.any (· == -1.0) && (pieces.dropWhile (· == -1.0)).head?.any (· == 1.0)

namespace Machine

/-- Takes the pieces over from the first sixty-four inputs. -/
def loadBoard (m : Machine) : Machine :=
  { m with board := .ofFn fun i => m.inputs.read (.ofNat i.val) }

/-- The piece at a position, counted around the board. -/
def square (m : Machine) (position : Int64) : Float :=
  m.board.get (Fin.ofNat 64 (position.toInt % 64).toNat)

/-- Whether a move flanks in a direction. Only moves to empty squares of the board do. -/
def flanks (m : Machine) (position : Int64) (direction : Direction) : Bool :=
  let n := position.toInt
  if h : 0 ≤ n ∧ n < 64 then
    m.board.get ⟨n.toNat, by omega⟩ == 0.0
      && flankedRun ((direction.ray (n / 8) (n % 8)).map m.board.get)
  else false

end Machine

end GenomeMachine
