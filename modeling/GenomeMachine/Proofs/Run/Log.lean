import GenomeMachine.Proofs.Run.Course

/-! # The log of a run

The instructions that steps carry out, in order, each with the machine that it finds. A step that
fails is logged up to the instruction that failed, and the next step starts with what it left. -/

namespace GenomeMachine.Machine

/-! ## One step -/

/-- What is carried out until nothing is due. -/
def dueLog (m : Machine) : List Dispatched :=
  if m.pending then
    match m.arrive.instruction? m.arrive.pointer with
    | none => []
    | some i =>
        match _ : dispatch i m.arrive with
        | .error _ _ => [⟨m.arrive, i⟩]
        | .ok () next => ⟨m.arrive, i⟩ :: next.dueLog
  else []
termination_by if m.pending then m.opened.length + 1 else 0
decreasing_by exact due_lt (by assumption) (by assumption)

/-- What one step carries out. -/
def stepLog (m : Machine) : List Dispatched :=
  match m.arrive.instruction? m.arrive.pointer with
  | none => []
  | some i =>
      match dispatch i m.arrive with
      | .error _ _ => [⟨m.arrive, i⟩]
      | .ok () next => ⟨m.arrive, i⟩ :: next.dueLog

theorem stepLog_of_fetch_none {m : Machine}
    (hfetch : m.arrive.instruction? m.arrive.pointer = none) : m.stepLog = [] := by
  simp only [stepLog, hfetch]

theorem execution_dueLog {i : Instruction} {m next : Machine}
    (hdispatch : dispatch i m = .ok () next) :
    Execution i m (⟨m, i⟩ :: next.dueLog) next.settle := by
  fun_induction dueLog next generalizing i m with
  | case1 next hpending hnone =>
      rw [settle, if_pos hpending, hnone]
      exact .nowhere hdispatch hpending hnone
  | case2 next hpending j hsome fault last hfault =>
      rw [settle_of_pending hpending hsome, execute, set_pending_eq (pending_arrive next), hfault]
      exact .again hdispatch hpending hsome (.fault hfault)
  | case3 next hpending j hsome last hlast ih =>
      rw [settle_of_pending hpending hsome, execute, set_pending_eq (pending_arrive next), hlast]
      exact .again hdispatch hpending hsome (ih hlast)
  | case4 next hpending =>
      have hpending : next.pending = false := by simpa using hpending
      rw [settle_of_not_pending hpending]
      exact .finished hdispatch hpending

/-- The log of a step is the chain that the step works off. -/
theorem execution_stepLog {m : Machine} {i : Instruction}
    (hfetch : m.arrive.instruction? m.arrive.pointer = some i) :
    Execution i m.arrive m.stepLog (execute i m.arrive) := by
  simp only [stepLog, hfetch, execute, set_pending_eq (pending_arrive m)]
  cases hdispatch : dispatch i m.arrive with
  | error fault next => exact .fault hdispatch
  | ok _ next => exact execution_dueLog hdispatch

/-- The log misses nothing that a step carries out, and has nothing else. -/
theorem carries_iff_mem_stepLog {m : Machine} {d : Dispatched} :
    Carries m d ↔ d ∈ m.stepLog := by
  constructor
  · rintro ⟨i, log, hfetch, hlog, hd⟩
    rwa [(hlog.unique (execution_stepLog hfetch)).1]
  · intro hd
    cases hfetch : m.arrive.instruction? m.arrive.pointer with
    | none => simp [stepLog_of_fetch_none hfetch] at hd
    | some i => exact ⟨i, _, hfetch, execution_stepLog hfetch, hd⟩

/-! ## A number of steps -/

/-- What a number of steps carry out. -/
def log (m : Machine) : Nat → List Dispatched
  | 0 => []
  | n + 1 => m.log n ++ (m.afterSteps n).stepLog

end GenomeMachine.Machine
