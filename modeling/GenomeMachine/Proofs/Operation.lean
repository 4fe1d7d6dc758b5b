import GenomeMachine.Machine.Trace

/-! # Operations on a machine

Everything a user of a machine can do to it, as data, and the machines that can be reached that
way. Whether an operation failed does not matter here: what counts is the machine it leaves. -/

namespace GenomeMachine

namespace Machine

/-- The machine an action leaves, with or without a fault. -/
def after {α : Type} : EStateM.Result Fault Machine α → Machine
  | .ok _ m => m
  | .error _ m => m

@[simp] theorem after_ok {α : Type} (a : α) (m : Machine) :
    after (.ok a m : EStateM.Result Fault Machine α) = m := rfl

@[simp] theorem after_error {α : Type} (fault : Fault) (m : Machine) :
    after (.error fault m : EStateM.Result Fault Machine α) = m := rfl

/-- The result with another machine. -/
def onMachine {α : Type} (f : Machine → Machine) :
    EStateM.Result Fault Machine α → EStateM.Result Fault Machine α
  | .ok a m => .ok a (f m)
  | .error fault m => .error fault (f m)

theorem after_onMachine {α : Type} (f : Machine → Machine)
    (result : EStateM.Result Fault Machine α) : after (onMachine f result) = f (after result) := by
  cases result <;> rfl

/-- Acts on the slot with a number. There being no such slot, nothing changes. -/
def onSlot (m : Machine) (n : Nat) (f : Slot → Machine) : Machine :=
  match slot? n with
  | some slot => f slot
  | none => m

/-! ## A number of steps -/

/-- The machine after a number of steps, whether or not they failed, with instructions carried out
by `perform`. -/
def afterStepsBy (perform : Instruction → Action Unit) (m : Machine) : Nat → Machine
  | 0 => m
  | n + 1 => after (stepBy perform (m.afterStepsBy perform n))

theorem afterStepsBy_succ (perform : Instruction → Action Unit) (m : Machine) (n : Nat) :
    m.afterStepsBy perform (n + 1) = (after (stepBy perform m)).afterStepsBy perform n := by
  induction n with
  | zero => rfl
  | succ n ih => rw [afterStepsBy, ih, afterStepsBy]

theorem afterStepsBy_of_ok {perform : Instruction → Action Unit} {m next : Machine}
    (hstep : stepBy perform m = .ok () next) (n : Nat) :
    m.afterStepsBy perform (n + 1) = next.afterStepsBy perform n := by
  rw [afterStepsBy_succ, hstep, after_ok]

/-- The machine after a number of steps, whether or not they failed. -/
def afterSteps (m : Machine) (n : Nat) : Machine :=
  m.afterStepsBy execute n

theorem afterSteps_last (m : Machine) (n : Nat) :
    m.afterSteps (n + 1) = after (step (m.afterSteps n)) := rfl

theorem afterSteps_succ (m : Machine) (n : Nat) :
    m.afterSteps (n + 1) = (after (step m)).afterSteps n :=
  afterStepsBy_succ execute m n

theorem afterSteps_of_ok {m next : Machine} (hstep : step m = .ok () next) (n : Nat) :
    m.afterSteps (n + 1) = next.afterSteps n :=
  afterStepsBy_of_ok hstep n

/-! ## What a step keeps -/

theorem runFromBy_preserve {P : Machine → Prop} {perform : Instruction → Action Unit}
    (hstep : ∀ m, P m → P (after (stepBy perform m))) (done budget : Nat) {m : Machine} (hm : P m) :
    P (after (runFromBy perform done budget m)) := by
  induction budget generalizing done m with
  | zero => exact hm
  | succ budget ih =>
      have hnext := hstep m hm
      simp only [runFromBy]
      split
      · exact hm
      · generalize stepBy perform m = result at hnext ⊢
        cases result with
        | error fault next => exact hnext
        | ok _ next => exact ih (done + 1) hnext

section Preserve

variable {P : Machine → Prop} (hstep : ∀ m, P m → P (after (step m)))
include hstep

theorem run_preserve (budget : Nat) {m : Machine} (hm : P m) : P (after (run budget m)) := by
  unfold run runBy
  split
  · exact hm
  · exact runFromBy_preserve hstep 0 budget hm

theorem traceFrom_preserve (room : Option Nat) (written : String) (count : Nat) {m : Machine}
    (hm : P m) : P (traceFrom room written count m).machine := by
  induction count generalizing written m with
  | zero => exact hm
  | succ count ih =>
      have hnext := hstep m hm
      simp only [traceFrom]
      split
      · exact hm
      · generalize step m = result at hnext ⊢
        cases result with
        | error fault next => exact hnext
        | ok _ next => exact ih _ hnext

end Preserve

end Machine

/-! ## Operations -/

/-- What can be done to a machine. -/
inductive Operation where
  | step
  | run (budget : Nat)
  | execute (i : Instruction)
  | trace (room : Option Nat) (count : Nat)
  | enterScope (level : Nat) (kind : ScopeKind)
  | closeScope
  | leaveScope (level : Nat)
  | rewind
  | reset
  | resetHardware
  | setPointer (position : Nat)
  | setInstruction (position : Nat) (i : Instruction)
  | setGenome (genome : Genome)
  | pushInstruction (i : Instruction)
  | pushNamed (name : String) (a b c : UInt16)
  | setRegister (register : Nat) (value : Float)
  | setInput (key : Int64) (value : Float)
  | setInputs (cells : Cells)
  | setOutput (key : Int64) (value : Float)
  | setOutputs (cells : Cells)
  | setCell (block : Nat) (key : Int64) (value : Float)
  | copyBlock (source target : Nat)
  | shiftBlock (block : Nat) (distance : Int64)
  | setFunction (slot : Nat) (position : Option Nat)
  | pushBackup (depth register : Nat)
  | pushCall (position : Nat)
  | countError
  | setTrait (n : Nat) (value : Float)
  | pushTrait (value : Float)
  | endTurn
  | loadBoard

/-- The machine after an operation. -/
def Operation.perform : Operation → Machine → Machine
  | step, m => Machine.after (Machine.step m)
  | run budget, m => Machine.after (Machine.run budget m)
  | execute i, m => Machine.after (Machine.execute i m)
  | trace room count, m => (Machine.traceFrom room "" count m).machine
  | enterScope level kind, m => Machine.after (Machine.enterScope level kind m)
  | closeScope, m => m.closeScope
  | leaveScope level, m => m.leaveScope level
  | rewind, m => m.rewind
  | reset, m => m.reset
  | resetHardware, m => m.resetHardware
  | setPointer position, m => { m with pointer := position }
  | setInstruction position i, m => m.setInstruction position i
  | setGenome genome, m => { m with genome := genome }
  | pushInstruction i, m => m.pushInstruction i
  | pushNamed name a b c, m => (m.pushNamed name a b c).2
  | setRegister register value, m => m.onSlot register (m.setRegister · value)
  | setInput key value, m => m.setInput key value
  | setInputs cells, m => { m with inputs := cells }
  | setOutput key value, m => m.setOutput key value
  | setOutputs cells, m => { m with outputs := cells }
  | setCell block key value, m => m.onSlot block (m.setCell · key value)
  | copyBlock source target, m => m.onSlot source fun s => m.onSlot target (m.copyBlock s)
  | shiftBlock block distance, m => m.onSlot block (m.shiftBlock · distance)
  | setFunction slot position, m => m.onSlot slot (m.setFunction · position)
  | pushBackup depth register, m => m.onSlot register (m.pushBackup depth)
  | pushCall position, m => m.pushCall position
  | countError, m => m.countError
  | setTrait n value, m => m.setTrait n value
  | pushTrait value, m => m.pushTrait value
  | endTurn, m => m.endTurn
  | loadBoard, m => m.loadBoard

/-- What an operation tells whoever made it. -/
inductive Answer where
  | done
  | fault (cause : Fault)
  | counted (steps : Nat)
  | opened (entered : Bool)
  | traced (text : String) (error : Option Machine.TraceError)
  | named (id : Option UInt16)
  | noSlot
  deriving DecidableEq

/-- The answer of an action, from that of its result. -/
def Answer.ofResult {α : Type} (tell : α → Answer) : EStateM.Result Fault Machine α → Answer
  | .ok a _ => tell a
  | .error cause _ => .fault cause

/-- The answer of an operation on slots with numbers: all of them have to be there. -/
def Answer.ofSlots (numbers : List Nat) : Answer :=
  if numbers.all fun n => (slot? n).isSome then .done else .noSlot

/-- What an operation on a machine answers. -/
def Operation.answer : Operation → Machine → Answer
  | step, m => .ofResult (fun _ => .done) (Machine.step m)
  | run budget, m => .ofResult .counted (Machine.run budget m)
  | execute i, m => .ofResult (fun _ => .done) (Machine.execute i m)
  | trace room count, m =>
      let trace := Machine.traceFrom room "" count m
      .traced trace.text trace.error
  | enterScope level kind, m => .ofResult .opened (Machine.enterScope level kind m)
  | pushNamed name a b c, m => .named (m.pushNamed name a b c).1
  | setRegister register _, _ | pushBackup _ register, _ => .ofSlots [register]
  | setCell block _ _, _ | shiftBlock block _, _ => .ofSlots [block]
  | copyBlock source target, _ => .ofSlots [source, target]
  | setFunction slot _, _ => .ofSlots [slot]
  | _, _ => .done

/-- The machines that come from a new one over the catalog, with any genome, by operations each
of which was allowed on the machine it was made on. -/
inductive Reachable (allowed : Machine → Operation → Prop) (catalog : Catalog) :
    Machine → Prop where
  | new (genome : Genome) : Reachable allowed catalog (Machine.new catalog genome)
  | perform {m : Machine} (op : Operation) :
      Reachable allowed catalog m → allowed m op → Reachable allowed catalog (op.perform m)

/-- Any operation on any machine. -/
def anyOperation (_ : Machine) (_ : Operation) : Prop := True

/-- The machine after operations one after another. -/
def Operation.performAll (ops : List Operation) (m : Machine) : Machine :=
  ops.foldl (fun m op => op.perform m) m

/-- What operations one after another answer, and the machine after each of them. -/
def Operation.transcript : List Operation → Machine → List (Answer × Machine)
  | [], _ => []
  | op :: ops, m => (op.answer m, op.perform m) :: transcript ops (op.perform m)

theorem Reachable.performAll {allowed : Machine → Operation → Prop} {catalog : Catalog}
    {ops : List Operation} {m : Machine} (h : Reachable allowed catalog m)
    (hops : ∀ op ∈ ops, ∀ m, allowed m op) :
    Reachable allowed catalog (Operation.performAll ops m) := by
  induction ops generalizing m with
  | nil => exact h
  | cons op ops ih =>
      refine ih (.perform op h (hops op (by simp) m)) ?_
      intro op hop
      exact hops op (by simp [hop])

end GenomeMachine
