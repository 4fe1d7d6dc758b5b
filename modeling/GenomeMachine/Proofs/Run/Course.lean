import GenomeMachine.Proofs.Dispatch.Chain
import GenomeMachine.Proofs.Dispatch.Outcome
import GenomeMachine.Proofs.Structured.Steps

/-! # The course of a genome

The machines that a genome runs through on the standard catalog, step after step, failed steps
included. A property of all of them is proved for one instruction at a time: `stateAt_preserve`
takes it from there through the chain of instructions within a step, and from step to step. -/

namespace GenomeMachine.Machine

/-- A machine with a genome and inputs, before its first step. -/
def initial (genome : Genome) (inputs : Cells) : Machine :=
  { new .standard genome with inputs := inputs }

/-- The machine after a number of steps from the first one on, whether or not they failed. -/
def stateAt (genome : Genome) (inputs : Cells) (n : Nat) : Machine :=
  (initial genome inputs).afterSteps n

theorem stateAt_zero (genome : Genome) (inputs : Cells) :
    stateAt genome inputs 0 = initial genome inputs := rfl

theorem stateAt_succ (genome : Genome) (inputs : Cells) (n : Nat) :
    stateAt genome inputs (n + 1) = after (step (stateAt genome inputs n)) := rfl

theorem reachable_stateAt (genome : Genome) (inputs : Cells) (n : Nat) :
    Reachable anyOperation .standard (stateAt genome inputs n) := by
  induction n with
  | zero => exact (Reachable.new genome).perform (.setInputs inputs) trivial
  | succ n ih => exact ih.perform .step trivial

/-! ## The chain of a step -/

/-- What is due at a position in the genome just has to be carried out. -/
theorem arrive_due {m : Machine} (hpending : m.pending = false)
    (hinside : m.pointer < m.genome.size) : { m with pending := true }.arrive = m := by
  rw [arrive, if_neg (Nat.not_le.mpr hinside)]
  exact set_pending_eq hpending

section Chain

variable {i : Instruction} {m : Machine} {log : List Dispatched}
  {result : EStateM.Result Fault Machine Unit}

/-- The first link of a chain is the instruction that it starts with. -/
theorem Execution.head_mem (h : Execution i m log result) : ⟨m, i⟩ ∈ log := by
  cases h <;> simp

/-- Every instruction of a chain is the one that its machine points to. -/
theorem Execution.fetched (h : Execution i m log result) (hpending : m.pending = false)
    (hfetch : m.instruction? m.pointer = some i) :
    ∀ d ∈ log, d.machine.pending = false ∧
      d.machine.instruction? d.machine.pointer = some d.instruction := by
  induction h with
  | fault | finished | nowhere => simpa using ⟨hpending, hfetch⟩
  | again _ _ hsome _ ih =>
      intro d hd
      rcases List.mem_cons.mp hd with rfl | hd
      · exact ⟨hpending, hfetch⟩
      · exact ih (pending_arrive _) hsome d hd

/-- What an instruction makes due is in the chain too. -/
theorem Execution.next_mem (h : Execution i m log result) {d : Dispatched} (hd : d ∈ log)
    {next : Machine} (hnext : dispatch d.instruction d.machine = .ok () next)
    (hpending : next.pending = true) {j : Instruction}
    (hfetch : next.arrive.instruction? next.arrive.pointer = some j) : ⟨next.arrive, j⟩ ∈ log := by
  induction h with
  | fault | finished | nowhere => simp_all
  | again hdispatch _ hsome hrest ih =>
      rcases List.mem_cons.mp hd with rfl | hd
      · cases hdispatch.symm.trans hnext
        cases hsome.symm.trans hfetch
        exact List.mem_cons_of_mem _ hrest.head_mem
      · exact List.mem_cons_of_mem _ (ih hd)

/-- A chain ends with the instruction that makes nothing due. -/
theorem Execution.result_eq_last (h : Execution i m log result) {d : Dispatched} (hd : d ∈ log)
    {next : Machine} (hnext : dispatch d.instruction d.machine = .ok () next)
    (hpending : next.pending = false) : result = .ok () next := by
  induction h with
  | fault | finished | nowhere => simp_all
  | again hdispatch hdue _ _ ih =>
      rcases List.mem_cons.mp hd with rfl | hd
      · cases hdispatch.symm.trans hnext
        simp [hpending] at hdue
      · exact ih hd

end Chain

/-- A step of the machine carries out an instruction on the machine that this one finds. -/
def Carries (m : Machine) (d : Dispatched) : Prop :=
  ∃ i log, m.arrive.instruction? m.arrive.pointer = some i ∧
    Execution i m.arrive log (execute i m.arrive) ∧ d ∈ log

/-- A step begins with the instruction that it arrives at. -/
theorem carries_first {m : Machine} {i : Instruction}
    (hfetch : m.arrive.instruction? m.arrive.pointer = some i) : Carries m ⟨m.arrive, i⟩ := by
  obtain ⟨log, hlog⟩ := execute_execution i m.arrive
  rw [set_pending_eq (pending_arrive m)] at hlog
  exact ⟨i, log, hfetch, hlog, hlog.head_mem⟩

theorem Carries.fetched {m : Machine} {d : Dispatched} (h : Carries m d) :
    d.machine.pending = false ∧ d.machine.instruction? d.machine.pointer = some d.instruction := by
  obtain ⟨i, log, hfetch, hlog, hd⟩ := h
  exact hlog.fetched (pending_arrive m) hfetch d hd

/-- What an instruction makes due is carried out in the same step. -/
theorem Carries.due {m next : Machine} {d : Dispatched} {j : Instruction} (h : Carries m d)
    (hdispatch : dispatch d.instruction d.machine = .ok () { next with pending := true })
    (hpending : next.pending = false) (hfetch : next.instruction? next.pointer = some j) :
    Carries m ⟨next, j⟩ := by
  have harrive : { next with pending := true }.arrive = next :=
    arrive_due hpending (inside_of_fetch hfetch)
  obtain ⟨i, log, hfirst, hlog, hd⟩ := h
  have hmem : ⟨{ next with pending := true }.arrive, j⟩ ∈ log :=
    hlog.next_mem hd hdispatch rfl (by rw [harrive]; exact hfetch)
  rw [harrive] at hmem
  exact ⟨i, log, hfirst, hlog, hmem⟩

theorem step_of_arrive {m : Machine} {i : Instruction}
    (hfetch : m.arrive.instruction? m.arrive.pointer = some i) :
    step m = advance (execute i m.arrive) := by
  simp only [step, stepBy, hfetch]
  cases execute i m.arrive <;> rfl

theorem Carries.step_eq_last {m : Machine} {d : Dispatched} (h : Carries m d) {next : Machine}
    (hnext : dispatch d.instruction d.machine = .ok () next) (hpending : next.pending = false) :
    step m = .ok () { next with pointer := next.pointer + 1 } := by
  obtain ⟨i, log, hfetch, hlog, hd⟩ := h
  rw [step_of_arrive hfetch, hlog.result_eq_last hd hnext hpending, advance]

/-! ## Properties of a course -/

/-- A property for machines at work on a step and a property for machines between two steps, with
what leads from the one to the other. -/
structure Phases (working resting : Machine → Prop) : Prop where
  arrive : ∀ m, resting m → working m.arrive
  rest : ∀ m, working m → resting m
  advance : ∀ m, working m → resting { m with pointer := m.pointer + 1 }

section Preserve

variable {working resting : Machine → Prop}

theorem Execution.preserve {i : Instruction} {m : Machine} {log : List Dispatched}
    {result : EStateM.Result Fault Machine Unit} (h : Execution i m log result)
    (hphases : Phases working resting)
    (hdispatch : ∀ d ∈ log, working d.machine →
      working (after (dispatch d.instruction d.machine)))
    (hm : working m) : working (after result) ∧ ∀ d ∈ log, working d.machine := by
  induction h with
  | fault hresult | finished hresult =>
      have hnext := hdispatch _ List.mem_cons_self hm
      simp only [hresult] at hnext
      exact ⟨hnext, by simpa using hm⟩
  | nowhere hresult =>
      have hnext := hdispatch _ List.mem_cons_self hm
      simp only [hresult] at hnext
      exact ⟨hphases.arrive _ (hphases.rest _ hnext), by simpa using hm⟩
  | again hresult _ _ _ ih =>
      have hnext := hdispatch _ List.mem_cons_self hm
      simp only [hresult] at hnext
      have hrest := ih (fun d hd => hdispatch d (by simp [hd]))
        (hphases.arrive _ (hphases.rest _ hnext))
      refine ⟨hrest.1, ?_⟩
      intro d hd
      rcases List.mem_cons.mp hd with rfl | hd
      · exact hm
      · exact hrest.2 d hd

/-- What every instruction of a step keeps, the step keeps. -/
theorem step_preserve (hphases : Phases working resting) {m : Machine}
    (hdispatch : ∀ d, Carries m d → working d.machine →
      working (after (dispatch d.instruction d.machine)))
    (hm : resting m) : resting (after (step m)) ∧ ∀ d, Carries m d → working d.machine := by
  cases hfetch : m.arrive.instruction? m.arrive.pointer with
  | none =>
      have hstep : step m = .ok () m := by simp only [step, stepBy, hfetch]
      rw [hstep]
      refine ⟨hm, ?_⟩
      rintro d ⟨i, _, hsome, _⟩
      simp [hfetch] at hsome
  | some i =>
      obtain ⟨log, hlog⟩ := execute_execution i m.arrive
      rw [set_pending_eq (pending_arrive m)] at hlog
      obtain ⟨hresult, hall⟩ := hlog.preserve hphases
        (fun d hd => hdispatch d ⟨i, log, hfetch, hlog, hd⟩) (hphases.arrive m hm)
      rw [step_of_arrive hfetch]
      refine ⟨?_, ?_⟩
      · cases hexecute : execute i m.arrive with
        | ok _ next =>
            rw [hexecute] at hresult
            exact hphases.advance next hresult
        | error fault next =>
            rw [hexecute] at hresult
            exact hphases.rest next hresult
      · rintro d ⟨j, log', hsome, hlog', hd⟩
        cases hfetch.symm.trans hsome
        rw [(hlog.unique hlog').1] at hd
        exact hall d hd

/-- What every instruction of a course keeps holds all along. -/
theorem stateAt_preserve (hphases : Phases working resting) {genome : Genome} {inputs : Cells}
    (hinitial : resting (initial genome inputs))
    (hdispatch : ∀ n d, Carries (stateAt genome inputs n) d → working d.machine →
      working (after (dispatch d.instruction d.machine))) (n : Nat) :
    resting (stateAt genome inputs n) ∧
      ∀ d, Carries (stateAt genome inputs n) d → working d.machine := by
  have hresting : resting (stateAt genome inputs n) := by
    induction n with
    | zero => exact hinitial
    | succ n ih => exact (step_preserve hphases (hdispatch _) ih).1
  exact ⟨hresting, (step_preserve hphases (hdispatch _) hresting).2⟩

end Preserve

/-- The scopes stay nested within a step as well. -/
theorem Carries.nested {genome : Genome} {inputs : Cells} {n : Nat} {d : Dispatched}
    (h : Carries (stateAt genome inputs n) d) : Nested d.machine := by
  have hphases : Phases Nested Nested :=
    { arrive := fun m hm => (moves_arrive m).preserve Nested.move hm
      rest := fun _ hm => hm
      advance := fun _ hm => hm.of_suffix (List.suffix_refl _) }
  refine (step_preserve hphases ?_ (nested_of_reachable (reachable_stateAt genome inputs n))).2 d h
  intro d _ hd
  exact (moves_dispatch d.instruction d.machine).preserve Nested.move hd

end GenomeMachine.Machine
