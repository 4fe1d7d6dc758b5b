import GenomeMachine.Catalog.Opcode
import GenomeMachine.Genome.Instruction
import Std.Data.ExtTreeMap

/-!
# Instruction catalogs

A catalog lists the instructions a machine knows, in order of registration: the id of an entry
is its position. Names are unique. Beside the entries a catalog holds symbolic arguments, which
listings may use in place of numbers.
-/

namespace GenomeMachine

/-- How an instruction opens a scope: the kind of scope, and the argument slot with its depth. -/
structure ScopeRule where
  kind : ScopeKind
  slot : Nat
  deriving DecidableEq

/-- A known instruction. -/
structure Entry where
  name : String
  opcode : Opcode
  arity : Nat
  description : String
  scope : Option ScopeRule := none
  deriving DecidableEq

structure Catalog where
  entries : Array Entry
  ids : Std.ExtTreeMap String UInt16
  symbols : Std.ExtTreeMap String UInt16

/-- Why an entry is not taken into a catalog. -/
inductive RegistrationError where
  | duplicateName (name : String)
  | tooManyArguments (name : String) (count : Nat)
  | scopeSlotOutOfRange (name : String) (slot count : Nat)
  | rootScope (name : String)
  | full
  deriving DecidableEq

def RegistrationError.message : RegistrationError → String
  | duplicateName name => s!"duplicate instruction name '{name}'"
  | tooManyArguments name count => s!"instruction '{name}' declares {count} arguments (max 3)"
  | scopeSlotOutOfRange name slot count =>
      s!"instruction '{name}' carries its scope in argument {slot} but has {count}"
  | rootScope name => s!"instruction '{name}' cannot open a root scope"
  | full => "instruction catalog is full"

/-- What is wrong with the scope rule of an entry. -/
def Entry.scopeFault? (e : Entry) : Option RegistrationError :=
  match e.scope with
  | none => none
  | some rule =>
      if rule.kind = .root then some (.rootScope e.name)
      else if e.arity ≤ rule.slot then some (.scopeSlotOutOfRange e.name rule.slot e.arity)
      else none

namespace Catalog

def empty : Catalog where
  entries := #[]
  ids := ∅
  symbols := ∅

/-- The number of entries. -/
def size (c : Catalog) : Nat :=
  c.entries.size

def entry? (c : Catalog) (id : UInt16) : Option Entry :=
  c.entries[id.toNat]?

def id? (c : Catalog) (name : String) : Option UInt16 :=
  c.ids[name]?

/-- The entry of a name, with its id. -/
def named? (c : Catalog) (name : String) : Option (UInt16 × Entry) := do
  let id ← c.id? name
  let e ← c.entry? id
  return (id, e)

def symbol? (c : Catalog) (name : String) : Option UInt16 :=
  c.symbols[name]?

/-- How instructions with the id open a scope, if they do. -/
def scopeRule? (c : Catalog) (id : UInt16) : Option ScopeRule :=
  (c.entry? id).bind (·.scope)

/-- The depth of the scope an instruction opens, and zero if it opens none. The argument counts
from zero and depths from one, because the outermost scope has depth zero. -/
def openedDepth (c : Catalog) (i : Instruction) : Nat :=
  match c.scopeRule? i.id with
  | some rule => (i.arg rule.slot).toNat + 1
  | none => 0

/-- The first reason to refuse an entry. -/
def refusal? (c : Catalog) (e : Entry) : Option RegistrationError :=
  match e.scopeFault? with
  | some fault => some fault
  | none =>
      if 3 < e.arity then some (.tooManyArguments e.name e.arity)
      else if c.ids.contains e.name then some (.duplicateName e.name)
      else if 65536 ≤ c.size then some .full
      else none

/-- Takes an entry into the catalog and tells its id. A refused entry changes nothing. -/
def register (c : Catalog) (e : Entry) : Except RegistrationError UInt16 × Catalog :=
  match c.refusal? e with
  | some fault => (.error fault, c)
  | none =>
      let id := UInt16.ofNat c.size
      (.ok id, { c with entries := c.entries.push e, ids := c.ids.insert e.name id })

/-- The catalog with every entry that is not refused, in order. -/
def registerAll (c : Catalog) (es : List Entry) : Catalog :=
  es.foldl (fun c e => (c.register e).2) c

/-- The catalog in which the name stands for the value. -/
def setSymbol (c : Catalog) (name : String) (value : UInt16) : Catalog :=
  { c with symbols := c.symbols.insert name value }

/-- The name of an instruction and as many of its arguments as the entry declares. -/
def text? (c : Catalog) (i : Instruction) : Option String :=
  (c.entry? i.id).map fun e =>
    (i.args.take e.arity).foldl (fun text arg => text ++ " " ++ toString arg.toNat) e.name

end Catalog

end GenomeMachine
