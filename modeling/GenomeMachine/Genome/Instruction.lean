/-!
# Instructions and genomes

An instruction names an entry of a catalog by its id and carries three argument slots. What an
argument means, and how many slots count, is for the catalog entry to say.
-/

namespace GenomeMachine

/-- An instruction. Slots that are not given hold zero. -/
structure Instruction where
  id : UInt16
  first : UInt16 := 0
  second : UInt16 := 0
  third : UInt16 := 0
  deriving DecidableEq

namespace Instruction

/-- The argument slots in order. -/
def args (i : Instruction) : List UInt16 :=
  [i.first, i.second, i.third]

/-- The argument in a slot. There are three slots, and past them nothing but zero. -/
def arg (i : Instruction) : Nat → UInt16
  | 0 => i.first
  | 1 => i.second
  | 2 => i.third
  | _ => 0

/-- An instruction from its leading arguments; later slots hold zero. -/
def ofArgs (id : UInt16) (args : List UInt16) : Instruction :=
  ⟨id, args.getD 0 0, args.getD 1 0, args.getD 2 0⟩

end Instruction

/-- A program: instructions at consecutive positions from zero. -/
abbrev Genome := Array Instruction

end GenomeMachine
