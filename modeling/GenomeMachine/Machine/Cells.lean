import Std.Data.ExtTreeMap

/-!
# Sparse storage

Numbers under 64-bit integer keys. A key that was never written reads as zero. Two stores with
the same entries are equal.
-/

namespace GenomeMachine

abbrev Cells := Std.ExtTreeMap Int64 Float

namespace Cells

/-- The number under a key. -/
def read (cells : Cells) (key : Int64) : Float :=
  cells[key]?.getD 0.0

/-- Moves every entry by a distance. Keys wrap around at the ends of the 64-bit range, so that
no two entries meet. -/
def shift (cells : Cells) (distance : Int64) : Cells :=
  .ofList (cells.toList.map fun (key, value) => (key + distance, value))

end Cells

end GenomeMachine
