import GenomeMachine.Catalog.Basic
import GenomeMachine.Listing.Token

/-!
# From listing to genome

Names, arities and symbolic arguments come from the catalog. The first bad line decides the
error.
-/

namespace GenomeMachine

/-- The first error of a listing. Lines count from one. -/
structure ListingError where
  line : Nat
  cause : LineError
  deriving DecidableEq

def ListingError.message (e : ListingError) : String :=
  s!"line {e.line}: {e.cause.message}"

namespace Catalog

/-- The value of an argument: a number of at most 16 bits, or a symbolic argument. -/
def readArgument (c : Catalog) : Token → Except LineError UInt16
  | .number value =>
      if value < 65536 then .ok (.ofNat value) else .error (.invalidNumber (toString value))
  | .name text =>
      match c.symbol? text with
      | some value => .ok value
      | none => .error (.unexpectedToken text)

/-- Exactly as many arguments as `missing` says, from left to right. -/
def readArguments (c : Catalog) (e : Entry) : Nat → List Token → Except LineError (List UInt16)
  | 0, [] => .ok []
  | 0, extra :: _ => .error (.unexpectedToken extra.text)
  | _ + 1, [] => .error (.missingArgument e.name e.arity)
  | missing + 1, token :: rest => do
      let value ← c.readArgument token
      let values ← c.readArguments e missing rest
      return value :: values

/-- The instruction on a line, if there is one. -/
def readInstruction (c : Catalog) : List Token → Except LineError (Option Instruction)
  | [] => .ok none
  | .number value :: _ => .error (.unexpectedToken (toString value))
  | .name name :: rest =>
      match c.named? name with
      | none => .error (.unknownInstruction name)
      | some (id, e) => do
          let values ← c.readArguments e e.arity rest
          return some (.ofArgs id values)

/-- The instruction a line denotes, if it denotes one. -/
def readLine (c : Catalog) (line : List Char) : Except LineError (Option Instruction) := do
  c.readInstruction (← lineTokens line)

/-- Reads lines that start at the given line number. -/
def readLines (c : Catalog) : Nat → List (List Char) → Except ListingError (List Instruction)
  | _, [] => .ok []
  | number, line :: rest =>
      match c.readLine line with
      | .error cause => .error ⟨number, cause⟩
      | .ok none => c.readLines (number + 1) rest
      | .ok (some i) => (c.readLines (number + 1) rest).map (i :: ·)

/-- The genome a listing denotes. -/
def assemble (c : Catalog) (text : String) : Except ListingError Genome :=
  (c.readLines 1 (lines text.toList)).map List.toArray

end Catalog

end GenomeMachine
