import GenomeMachine.Machine.Trace
import GenomeMachine.Proofs.Dispatch.Disguise
import GenomeMachine.Proofs.Listing.RoundTrip
import GenomeMachine.Proofs.Run.Failure
import GenomeMachine.Proofs.Run.Provenance
import Mathlib.Data.List.Basic

/-! # Genomes and their listings run alike

A machine does not notice when the argument slots that no entry declares are cleared. What it does
commutes with `Machine.trim`: one instruction, the chain of a step, and so a whole course. -/

namespace GenomeMachine

/-! ## What operations read -/

/-- How many of the leading argument slots the operation looks at. -/
def DataOp.reads : DataOp → Nat
  | idle | loadBoard | endTurn => 0
  | increment | decrement | negate | saveRegister => 1
  | literal | copyRegister | copyBlock | shiftBlock | readInput | writeOutput | readSquare
  | testFlank _ => 2
  | combine _ | divide _ | storeCell | loadCell => 3

def ControlOp.reads : ControlOp → Nat
  | leave | block | call => 1
  | guarded _ | define => 2

def Opcode.reads : Opcode → Nat
  | data op => op.reads
  | control op => op.reads

namespace Instruction

variable {arity : Nat} (i : Instruction)

@[simp] theorem id_trim : (i.trim arity).id = i.id := rfl

theorem first_trim (h : 1 ≤ arity) : (i.trim arity).first = i.first := if_pos h

theorem second_trim (h : 2 ≤ arity) : (i.trim arity).second = i.second := if_pos h

theorem third_trim (h : 3 ≤ arity) : (i.trim arity).third = i.third := if_pos h

theorem arg_trim {slot : Nat} (h : slot < arity) : (i.trim arity).arg slot = i.arg slot := by
  match slot with
  | 0 => exact i.first_trim h
  | 1 => exact i.second_trim h
  | 2 => exact i.third_trim h
  | _ + 3 => rfl

theorem take_args_trim : (i.trim arity).args.take arity = i.args.take arity := by
  match arity with
  | 0 | 1 | 2 => rfl
  | n + 3 => simp [args, trim]

end Instruction

/-- Data operations look at no other slots. -/
theorem dataApply_trim_arguments {op : DataOp} {arity : Nat} (h : op.reads ≤ arity)
    (i : Instruction) (m : Machine) : op.apply (i.trim arity) m = op.apply i m := by
  have hfirst := fun hle : 1 ≤ op.reads => i.first_trim (hle.trans h)
  have hsecond := fun hle : 2 ≤ op.reads => i.second_trim (hle.trans h)
  have hthird := fun hle : 3 ≤ op.reads => i.third_trim (hle.trans h)
  cases op <;> simp_all [DataOp.reads, DataOp.apply]

theorem controlPerform_trim_arguments {op : ControlOp} {arity : Nat} (h : op.reads ≤ arity)
    (i : Instruction) (m : Machine) : op.perform (i.trim arity) m = op.perform i m := by
  have hfirst := fun hle : 1 ≤ op.reads => i.first_trim (hle.trans h)
  have hsecond := fun hle : 2 ≤ op.reads => i.second_trim (hle.trans h)
  cases op <;> simp_all [ControlOp.reads, ControlOp.perform]

namespace Catalog

/-- The entries declare all the slots that they use. -/
structure Declares (c : Catalog) : Prop where
  reads_le : ∀ e ∈ c.entries, e.opcode.reads ≤ e.arity
  slot_lt : ∀ e ∈ c.entries, ∀ rule, e.scope = some rule → rule.slot < e.arity

theorem declares_standard : standard.Declares where
  reads_le := by
    rw [entries_standard]
    decide +kernel
  slot_lt e he rule hrule := (built_standard.consistent.scope_lt e he rule hrule).2

/-- The instruction with the arguments that its entry declares. -/
def trim (c : Catalog) (i : Instruction) : Instruction :=
  match c.entry? i.id with
  | some e => i.trim e.arity
  | none => i

variable {c : Catalog}

@[simp] theorem id_trim (c : Catalog) (i : Instruction) : (c.trim i).id = i.id := by
  unfold trim
  split <;> rfl

theorem trim_eq {i : Instruction} {e : Entry} (h : c.entry? i.id = some e) :
    c.trim i = i.trim e.arity := by
  rw [trim, h]

theorem text?_trim (c : Catalog) (i : Instruction) : c.text? (c.trim i) = c.text? i := by
  cases hentry : c.entry? i.id with
  | none => simp [text?, hentry]
  | some e =>
      rw [trim_eq hentry, text?, text?, Instruction.id_trim, hentry, Option.map_some,
        Option.map_some, i.take_args_trim]

theorem Declares.arg_trim (h : c.Declares) {i : Instruction} {rule : ScopeRule}
    (hrule : c.scopeRule? i.id = some rule) : (c.trim i).arg rule.slot = i.arg rule.slot := by
  obtain ⟨e, hentry, hscope⟩ := Option.bind_eq_some_iff.mp hrule
  rw [trim_eq hentry]
  exact i.arg_trim (h.slot_lt e (Array.mem_of_getElem? hentry) rule hscope)

theorem Declares.opener?_trim (h : c.Declares) (i : Instruction) :
    c.opener? (c.trim i) = c.opener? i := by
  rw [opener?, opener?, id_trim]
  cases hrule : c.scopeRule? i.id with
  | none => rfl
  | some rule => simp only [Option.map_some, h.arg_trim hrule]

/-- Where every instruction is known, a listing shows them all. -/
theorem canonical_eq_map {g : Genome} (h : ∀ i ∈ g, (c.entry? i.id).isSome) :
    c.canonical g = g.map c.trim := by
  apply Array.toList_inj.mp
  rw [canonical, Array.toList_filterMap, Array.toList_map,
    List.filterMap_eq_map_iff_forall_eq_some]
  intro i hi
  obtain ⟨e, he⟩ := Option.isSome_iff_exists.mp (h i (Array.mem_toList_iff.mp hi))
  rw [canonical?, trim, he, Option.map_some]

end Catalog

namespace Machine

/-- The machine with a genome that has declared arguments only. -/
def trim (m : Machine) : Machine :=
  { m with genome := m.genome.map m.catalog.trim }

theorem fault?_onMachine {α : Type} (f : Machine → Machine)
    (result : EStateM.Result Fault Machine α) : fault? (onMachine f result) = fault? result := by
  cases result <;> rfl

/-- The disguise of a machine that is trimmed. -/
def trimming : Disguise where
  genome c g := g.map c.trim
  traits := id

theorem fits_trimming {c : Catalog} (hc : c.Declares) : trimming.Fits c := by
  intro g
  change (g.map c.trim).map c.opener? = g.map c.opener?
  rw [Array.map_map]
  exact congrArg (g.map ·) (funext hc.opener?_trim)

@[simp] theorem catalog_trim (m : Machine) : m.trim.catalog = m.catalog := rfl

@[simp] theorem pointer_trim (m : Machine) : m.trim.pointer = m.pointer := rfl

theorem instruction?_trim (m : Machine) (position : Nat) :
    m.trim.instruction? position = (m.instruction? position).map m.catalog.trim := by
  simp [instruction?, trim]

/-! ## Instructions -/

theorem dataApply_trim (op : DataOp) (i : Instruction) (m : Machine) :
    op.apply i m.trim = (op.apply i m).map trim := by
  have hstore : m.trim.store = m.store := rfl
  rw [dataApply_eq op i m.trim, dataApply_eq op i m, hstore]
  cases op.apply i m.store.machine <;> rfl

section Instructions

variable {m : Machine} (hm : m.catalog.Declares)
include hm

theorem opcodePerform_trim {op : Opcode} {arity : Nat} (h : op.reads ≤ arity) (i : Instruction) :
    op.perform (i.trim arity) m.trim = onMachine trim (op.perform i m) := by
  cases op with
  | data op =>
      simp only [Opcode.perform, dataApply_trim_arguments h, dataApply_trim]
      cases op.apply i m <;> rfl
  | control op =>
      simp only [Opcode.perform, controlPerform_trim_arguments h]
      exact controlPerform_disguise (fits_trimming hm) op i

/-- One instruction does the same with declared arguments only. -/
theorem dispatch_trim {i : Instruction} {result : EStateM.Result Fault Machine Unit}
    (h : dispatch i m = result) : dispatch (m.catalog.trim i) m.trim = onMachine trim result := by
  rw [← h]
  simp only [dispatch, catalog_trim, Catalog.id_trim]
  cases hentry : m.catalog.entry? i.id with
  | none => rfl
  | some e =>
      rw [Catalog.trim_eq hentry]
      exact opcodePerform_trim hm (hm.reads_le e (Array.mem_of_getElem? hentry)) i

end Instructions

/-! ## Steps -/

theorem arrive_trim {m : Machine} (hm : m.catalog.Declares) : m.trim.arrive = m.arrive.trim :=
  arrive_disguise (fits_trimming hm)

theorem declares_of_catalog_eq {m m' : Machine} (hm : m.catalog.Declares)
    (h : m'.catalog = m.catalog) : m'.catalog.Declares :=
  h ▸ hm

theorem declares_of_dispatch {m next : Machine} {i : Instruction}
    (hm : m.catalog.Declares) (h : dispatch i m = .ok () next) : next.catalog.Declares := by
  have hcatalog := catalog_dispatch i m
  rw [h] at hcatalog
  exact declares_of_catalog_eq hm hcatalog

/-- The instruction with declared arguments only, and the machine with such instructions. -/
def Dispatched.trim (d : Dispatched) : Dispatched :=
  ⟨d.machine.trim, d.machine.catalog.trim d.instruction⟩

/-- What becomes due is the same, one instruction after another. -/
theorem Execution.trim {i : Instruction} {m : Machine} {log : List Dispatched}
    {result : EStateM.Result Fault Machine Unit} (h : Execution i m log result)
    (hm : m.catalog.Declares) :
    Execution (m.catalog.trim i) m.trim (log.map Dispatched.trim)
      (onMachine Machine.trim result) := by
  induction h with
  | fault hdispatch => exact .fault (dispatch_trim hm hdispatch)
  | finished hdispatch hpending => exact .finished (dispatch_trim hm hdispatch) hpending
  | nowhere hdispatch hpending hnone =>
      have harrive := arrive_trim (declares_of_dispatch hm hdispatch)
      rw [onMachine, ← harrive]
      refine .nowhere (dispatch_trim hm hdispatch) hpending ?_
      rw [harrive, pointer_trim, instruction?_trim, hnone, Option.map_none]
  | again hdispatch hpending hsome _ ih =>
      have hnext := declares_of_dispatch hm hdispatch
      have hrest := ih (declares_of_catalog_eq hnext (catalog_arrive _))
      rw [← arrive_trim hnext] at hrest
      refine .again (dispatch_trim hm hdispatch) hpending ?_ hrest
      rw [arrive_trim hnext, pointer_trim, instruction?_trim, hsome, Option.map_some]

theorem execute_trim {m : Machine} (hm : m.catalog.Declares) (hpending : m.pending = false)
    (i : Instruction) :
    execute (m.catalog.trim i) m.trim = onMachine trim (execute i m) := by
  obtain ⟨log, hlog⟩ := execute_execution i m
  obtain ⟨log', hlog'⟩ := execute_execution (m.catalog.trim i) m.trim
  rw [set_pending_eq hpending] at hlog
  rw [set_pending_eq (m := m.trim) hpending] at hlog'
  exact ((hlog.trim hm).unique hlog').2

/-- A step does the same with declared arguments only. -/
theorem step_trim {m : Machine} (hm : m.catalog.Declares) :
    step m.trim = onMachine trim (step m) := by
  have hexecute := execute_trim (declares_of_catalog_eq hm (catalog_arrive m)) (pending_arrive m)
  simp only [step, stepBy, arrive_trim hm, pointer_trim, instruction?_trim]
  cases m.arrive.instruction? m.arrive.pointer with
  | none => rfl
  | some i =>
      simp only [Option.map_some, hexecute]
      cases execute i m.arrive <;> rfl

/-! ## What a machine shows -/

theorem nextPosition_trim {m : Machine} (hm : m.catalog.Declares) :
    m.trim.nextPosition = m.nextPosition :=
  nextPosition_disguise (fits_trimming hm)

theorem instructionText_trim (m : Machine) (i : Instruction) :
    m.trim.instructionText (m.catalog.trim i) = m.instructionText i := by
  rw [instructionText, instructionText, catalog_trim, Catalog.text?_trim, Catalog.id_trim]

theorem stateText_trim {m : Machine} (hm : m.catalog.Declares) :
    m.trim.stateText = m.stateText := by
  have hpointer : m.trim.pointerPieces = m.pointerPieces := by
    rw [pointerPieces, pointerPieces, nextPosition_trim hm, pointer_trim]
  have hnext : m.trim.nextInstructionText = m.nextInstructionText := by
    rw [nextInstructionText, nextInstructionText, nextPosition_trim hm, instruction?_trim]
    cases m.instruction? m.nextPosition with
    | none => rfl
    | some i => exact instructionText_trim m i
  rw [stateText, stateText, statePieces, statePieces, hpointer, hnext]
  rfl

/-! ## Courses -/

theorem declares_stateAt (genome : Genome) (inputs : Cells) (n : Nat) :
    (stateAt genome inputs n).catalog.Declares := by
  rw [(provenance_stateAt genome inputs n).1.catalog_eq]
  exact Catalog.declares_standard

theorem stateAt_trim (genome : Genome) (inputs : Cells) (n : Nat) :
    stateAt (genome.map Catalog.standard.trim) inputs n = (stateAt genome inputs n).trim := by
  induction n with
  | zero => rfl
  | succ n ih =>
      rw [stateAt_succ, stateAt_succ, ih, step_trim (declares_stateAt genome inputs n), after_onMachine]

end Machine

open Machine

/-- The listing of a genome assembles to a genome that runs like it. -/
theorem stateAt_listed {g : Genome} (hknown : ∀ i ∈ g, (Catalog.standard.entry? i.id).isSome) :
    ∃ g', Catalog.standard.assemble (Catalog.standard.disassemble g) = .ok g' ∧
      g'.size = g.size ∧
      ∀ (inputs : Cells) (n : Nat),
        stateAt g' inputs n = { stateAt g inputs n with genome := g' } ∧
        fault? (step (stateAt g' inputs n)) = fault? (step (stateAt g inputs n)) ∧
        (stateAt g' inputs n).nextPosition = (stateAt g inputs n).nextPosition ∧
        (stateAt g' inputs n).stateText = (stateAt g inputs n).stateText := by
  have hassemble := (Catalog.denotes_disassemble Catalog.built_standard.consistent
    Catalog.legible_standard.readable g).assemble
  rw [Array.toArray_toList, Catalog.canonical_eq_map hknown] at hassemble
  refine ⟨_, hassemble, Array.size_map, ?_⟩
  intro inputs n
  have hdeclares := declares_stateAt g inputs n
  have hprovenance := (provenance_stateAt g inputs n).1
  have hgenome : (stateAt g inputs n).genome.map (stateAt g inputs n).catalog.trim =
      g.map Catalog.standard.trim := by
    rw [hprovenance.catalog_eq, hprovenance.genome_eq]
  rw [stateAt_trim]
  refine ⟨?_, ?_, nextPosition_trim hdeclares, stateText_trim hdeclares⟩
  · rw [Machine.trim, hgenome]
  · rw [step_trim hdeclares, fault?_onMachine]

/-- A function, a call of it and the end of the turn, with something in every slot. -/
def cluttered : Genome :=
  #[⟨17, 2, 0, 9⟩, ⟨0, 3, 7, 7⟩, ⟨0, 3, 1, 65535⟩, ⟨16, 0, 4, 4⟩, ⟨18, 2, 5, 5⟩, ⟨24, 8, 8, 8⟩]

def uncluttered : Genome :=
  #[⟨17, 2, 0, 0⟩, ⟨0, 3, 0, 0⟩, ⟨0, 3, 0, 0⟩, ⟨16, 0, 0, 0⟩, ⟨18, 2, 0, 0⟩, ⟨24, 8, 0, 0⟩]

theorem cluttered_listed :
    Catalog.standard.assemble (Catalog.standard.disassemble cluttered) = .ok uncluttered ∧
      ∀ (inputs : Cells) (n : Nat),
        stateAt uncluttered inputs n = { stateAt cluttered inputs n with genome := uncluttered } ∧
        (stateAt uncluttered inputs n).stateText = (stateAt cluttered inputs n).stateText := by
  have hassemble : Catalog.standard.assemble (Catalog.standard.disassemble cluttered) =
      .ok uncluttered := by
    decide +kernel
  obtain ⟨_, hlisted, _, hruns⟩ := stateAt_listed (g := cluttered) (by decide +kernel)
  cases hlisted.symm.trans hassemble
  exact ⟨hassemble, fun inputs n => ⟨(hruns inputs n).1, (hruns inputs n).2.2.2⟩⟩

end GenomeMachine
