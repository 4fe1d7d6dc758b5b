import GenomeMachine.Genome.Instruction

/-!
# Genomes as bytes

An instruction takes eight bytes: the id and the three arguments, each with its low byte first.
A genome is its instructions one after another.
-/

namespace GenomeMachine

/-- The two bytes of a word, low byte first. -/
def wordBytes (w : UInt16) : List UInt8 :=
  [.ofNat (w.toNat % 256), .ofNat (w.toNat / 256)]

/-- The word with the given bytes. -/
def wordOfBytes (low high : UInt8) : UInt16 :=
  .ofNat (low.toNat + 256 * high.toNat)

/-- The eight bytes of an instruction. -/
def Instruction.encode (i : Instruction) : List UInt8 :=
  wordBytes i.id ++ wordBytes i.first ++ wordBytes i.second ++ wordBytes i.third

/-- The instructions in the whole groups of eight bytes. -/
def Instruction.decodeAll : List UInt8 → List Instruction
  | a :: b :: c :: d :: e :: f :: g :: h :: rest =>
      ⟨wordOfBytes a b, wordOfBytes c d, wordOfBytes e f, wordOfBytes g h⟩ :: decodeAll rest
  | _ => []

/-- Why bytes are not a genome. -/
inductive DecodeError where
  | invalidLength (length : Nat)
  deriving DecidableEq

def DecodeError.message : DecodeError → String
  | invalidLength length => s!"invalid byte stream length: {length} (must be multiple of 8)"

/-- The bytes of a genome. -/
def Genome.encode (g : Genome) : List UInt8 :=
  g.toList.flatMap Instruction.encode

/-- The genome with the given bytes. Any eight bytes are an instruction. -/
def Genome.decode (bytes : List UInt8) : Except DecodeError Genome :=
  if bytes.length % 8 = 0 then .ok (Instruction.decodeAll bytes).toArray
  else .error (.invalidLength bytes.length)

end GenomeMachine
