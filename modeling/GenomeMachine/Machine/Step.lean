import GenomeMachine.Machine.Dispatch

/-!
# Running

A step carries out the instruction at the pointer, and whatever instructions become due because
scopes were finished, and then moves the pointer on. Steps and batches of steps leave open how an
instruction is carried out: the operations of this library are one way to do it.
-/

namespace GenomeMachine.Machine

/-- Gets ready for the instruction at the pointer. Past the end of the genome this is the first
one. -/
def arrive (m : Machine) : Machine :=
  if m.genome.size ≤ m.pointer then { m.rewind with pending := false }
  else { m with pending := false }

@[simp] theorem pending_arrive (m : Machine) : m.arrive.pending = false := by
  unfold arrive
  split <;> rfl

theorem length_opened_arrive_le (m : Machine) : m.arrive.opened.length ≤ m.opened.length := by
  unfold arrive
  split <;> simp [rewind]

/-- After an instruction that was due there is less left to do. -/
theorem due_lt {m next : Machine} {i : Instruction} (hpending : m.pending = true)
    (hdispatch : dispatch i m.arrive = .ok () next) :
    (if next.pending then next.opened.length + 1 else 0) <
      if m.pending then m.opened.length + 1 else 0 := by
  have := length_opened_arrive_le m
  by_cases hnext : next.pending = true
  · have := dispatch_shortens hdispatch (pending_arrive m) hnext
    simp_all
    omega
  · simp_all

/-- Carries out what is due, until nothing is. An empty genome has nothing to carry out. -/
def settle (m : Machine) : EStateM.Result Fault Machine Unit :=
  if m.pending then
    match m.arrive.instruction? m.arrive.pointer with
    | none => .ok () m.arrive
    | some i =>
        match _ : dispatch i m.arrive with
        | .error fault m => .error fault m
        | .ok () next => next.settle
  else .ok () m
termination_by if m.pending then m.opened.length + 1 else 0
decreasing_by exact due_lt (by assumption) (by assumption)

/-- Carries out an instruction and all that becomes due by it. The pointer does not move on. -/
def execute (i : Instruction) : Action Unit := fun m =>
  match dispatch i { m with pending := false } with
  | .error fault m => .error fault m
  | .ok () m => m.settle

/-- One step, with instructions carried out by `perform`. A fault keeps the pointer at the
instruction that caused it, and an empty genome makes no step. -/
def stepBy (perform : Instruction → Action Unit) : Action Unit := fun m =>
  match m.arrive.instruction? m.arrive.pointer with
  | none => .ok () m
  | some i =>
      match perform i m.arrive with
      | .error fault m => .error fault m
      | .ok () m => .ok () { m with pointer := m.pointer + 1 }

/-- One step, with the operations of this library. -/
def step : Action Unit :=
  stepBy execute

/-- At most `budget` steps, until the program ends its turn; `done` steps were made before. -/
def runFromBy (perform : Instruction → Action Unit) (done : Nat) : Nat → Action Nat
  | 0 => fun m => .ok done m
  | budget + 1 => fun m =>
      if m.halted then .ok done m
      else match stepBy perform m with
        | .error fault m => .error fault m
        | .ok () m => runFromBy perform (done + 1) budget m

/-- Runs for at most `budget` steps, until the program ends its turn, and counts the steps. Whether
there is a genome is asked once, before the first step. -/
def runBy (perform : Instruction → Action Unit) (budget : Nat) : Action Nat := fun m =>
  if m.genome.isEmpty then .ok 0 m else runFromBy perform 0 budget m

/-- Runs with the operations of this library. -/
def run (budget : Nat) : Action Nat :=
  runBy execute budget

/-- Where the next step does its work: at the opener of a loop it goes back to, at the position
a function returns to, or else at the pointer. Past the end of the genome that is the start. -/
def nextPosition (m : Machine) : Nat :=
  match m.instruction? m.pointer with
  | none => 0
  | some i =>
      let depth := m.catalog.openedDepth i
      if depth = 0 then m.pointer
      else
        match (m.opened.takeWhile (depth ≤ ·.depth)).find? (! ·.kind.closesSilently) with
        | none => m.pointer
        | some frame =>
            if frame.kind = .function then m.returnPosition?.getD 0 else frame.start

end GenomeMachine.Machine
