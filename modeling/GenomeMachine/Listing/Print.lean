import GenomeMachine.Catalog.Basic
import GenomeMachine.Listing.Token

/-!
# From genome to listing

Two layouts: the flat one has an instruction on each line and nothing else, the indented one
shows how deep each line stands when the genome is read from top to bottom.
-/

namespace GenomeMachine.Catalog

/-- The line of an instruction. One that the catalog does not know becomes a comment. -/
def instructionLine (c : Catalog) (i : Instruction) : String :=
  (c.text? i).getD s!"; unknown instruction {i.id}"

/-- The flat listing. -/
def disassemble (c : Catalog) (g : Genome) : String :=
  g.foldl (fun text i => text ++ c.instructionLine i ++ "\n") ""

/-- A line with its indentation and its end. -/
def indented (depth : Nat) (line : String) : String :=
  String.ofList (List.replicate depth ' ') ++ line ++ "\n"

/-- The lines of an instruction that is reached at a depth, and the depth after it. An opener of
the depth already reached stands behind a line that divides it from the scope it ends. -/
def indentedLines (c : Catalog) (depth : Nat) (i : Instruction) : String × Nat :=
  let line := c.instructionLine i
  let opened := c.openedDepth i
  if opened = 0 then (indented depth line, depth)
  else if opened = depth then
    (indented depth (String.ofList siblingMark) ++ indented depth line, opened)
  else
    (indented (min depth (opened - 1)) (line ++ " " ++ String.ofList openMark), opened)

/-- The indented listing. -/
def print (c : Catalog) (g : Genome) : String :=
  (g.foldl (fun (text, depth) i =>
    let (added, depth) := c.indentedLines depth i
    (text ++ added, depth)) ("", 0)).1

end GenomeMachine.Catalog
