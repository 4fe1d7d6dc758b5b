import GenomeMachine.Proofs.Run.Course

/-! # Failed steps

A step can fail late, after it went back to the start, closed scopes or returned from a function.
But the instruction that fails has not touched the machine by then, and so the machine stays where
it is however often the step is tried again. -/

namespace GenomeMachine

/-- Where a fault arose. -/
def Fault.position : Fault → Nat
  | unknownInstruction position _ => position
  | scopeOverflow position _ => position
  | registerOutOfRange position _ => position
  | blockOutOfRange position _ => position
  | functionOutOfRange position _ => position

namespace Machine

/-- The fault that a result reports. -/
def fault? {α : Type} : EStateM.Result Fault Machine α → Option Fault
  | .ok _ _ => none
  | .error fault _ => some fault

theorem fault?_eq_some {α : Type} {result : EStateM.Result Fault Machine α} {fault : Fault} :
    fault? result = some fault ↔ result = .error fault (after result) := by
  cases result <;> simp [fault?]

/-! ## How instructions fail -/

/-- How an instruction fails: the catalog does not have it, one of its arguments is none of a
register, block or function, or it wants a scope and there is no room for one more. -/
inductive Failure (i : Instruction) (m : Machine) : Fault → Prop where
  | unknown (hop : m.opcode? i = none) : Failure i m (.unknownInstruction m.pointer i.id)
  | register {arg : UInt16} (hmem : arg ∈ i.args) (hrange : slot? arg.toNat = none) :
      Failure i m (.registerOutOfRange m.pointer arg)
  | block {arg : UInt16} (hmem : arg ∈ i.args) (hrange : slot? arg.toNat = none) :
      Failure i m (.blockOutOfRange m.pointer arg)
  | function (hrange : slot? i.first.toNat = none) :
      Failure i m (.functionOutOfRange m.pointer i.first)
  | full {level : Nat} {kind : ScopeKind} {body : Machine → Machine}
      (hreach : Reaches i m level kind body) (hdepth : m.innermost.depth < level + 1)
      (hfull : 16 ≤ m.frames.length) : Failure i m (.scopeOverflow m.pointer (level + 1))

section Failure

variable {i : Instruction} {m m' : Machine} {fault : Fault}

theorem Failure.position_eq (h : Failure i m fault) : fault.position = m.pointer := by
  cases h <;> rfl

/-- A machine overflows only with all of its scopes open. -/
theorem Failure.full_of_overflow {position depth : Nat}
    (h : Failure i m (.scopeOverflow position depth)) : 16 ≤ m.frames.length := by
  cases h with
  | full _ _ hfull => exact hfull

/-! ## Arguments -/

theorem registerArg_failure {arg : UInt16} (hmem : arg ∈ i.args)
    (h : m.registerArg arg = .error fault) : Failure i m fault := by
  rw [registerArg] at h
  cases hrange : slot? arg.toNat with
  | some r => simp [hrange] at h
  | none =>
      rw [hrange] at h
      cases h
      exact .register hmem hrange

theorem blockArg_failure {arg : UInt16} (hmem : arg ∈ i.args)
    (h : m.blockArg arg = .error fault) : Failure i m fault := by
  rw [blockArg] at h
  cases hrange : slot? arg.toNat with
  | some b => simp [hrange] at h
  | none =>
      rw [hrange] at h
      cases h
      exact .block hmem hrange

/-- A data operation can only fail on an argument. -/
theorem dataApply_failure {op : DataOp} (h : op.apply i m = .error fault) : Failure i m fault := by
  have hfirst : i.first ∈ i.args := by simp [Instruction.args]
  have hsecond : i.second ∈ i.args := by simp [Instruction.args]
  have hthird : i.third ∈ i.args := by simp [Instruction.args]
  cases op <;>
    simp only [DataOp.apply, bind_eq_error_iff, pure, Except.pure, reduceCtorEq, and_false,
      exists_false, or_false] at h
  all_goals grind [registerArg_failure, blockArg_failure]

/-! ## Scopes -/

theorem length_frames_closeFinished_le (m : Machine) (level : Nat) :
    (m.closeFinished level).frames.length ≤ m.frames.length := by
  rw [length_frames, length_frames]
  exact Nat.succ_le_succ (length_opened_closeSilent_le (level + 1) m.opened m)

/-- A stack that is still full has not been touched. -/
theorem closeFinished_of_full {level : Nat} (hnested : Nested m)
    (hfull : 16 ≤ (m.closeFinished level).frames.length) : m.closeFinished level = m := by
  by_cases hdepth : m.innermost.depth < level + 1
  · exact closeFinished_of_lt hdepth
  · cases hkind : m.innermost.kind.closesSilently with
    | false => exact closeFinished_of_not_silent level hkind
    | true =>
        -- Here the innermost scope would be gone, and the stack could not be full.
        rw [closeFinished_of_silent (by omega) hkind] at hfull
        have hclosed := length_frames_closeFinished_le m.closeScope level
        have hopened := congrArg List.length (opened_eq_cons (m := m) (by omega))
        have hlength := hnested.length_le
        rw [List.length_cons] at hopened
        rw [length_frames] at hfull hclosed hlength
        rw [length_frames] at hclosed
        omega

theorem opening_failure {level : Nat} {kind : ScopeKind} {body : Machine → Machine}
    (hnested : Nested m) (hreach : Reaches i m level kind body)
    (h : opening level kind body m = .error fault m') : m' = m ∧ Failure i m fault := by
  rw [opening, enterScope_closeFinished] at h
  by_cases hdepth : (m.closeFinished level).innermost.depth < level + 1
  · rw [enterScope_of_lt kind hdepth] at h
    by_cases hroom : (m.closeFinished level).frames.length < 16
    · simp [hroom] at h
    · have hfull := Nat.le_of_not_lt hroom
      have hsame := closeFinished_of_full hnested hfull
      rw [if_neg hroom] at h
      cases h
      rw [hsame] at hdepth hfull ⊢
      exact ⟨rfl, .full hreach hdepth hfull⟩
  · have hdepth : level < (m.closeFinished level).innermost.depth := Nat.le_of_not_lt hdepth
    rw [enterScope_of_not_silent kind hdepth (closesSilently_closeFinished hdepth)] at h
    cases h

/-! ## Instructions -/

theorem controlPerform_failure {op : ControlOp} (hnested : Nested m)
    (hop : m.opcode? i = some (.control op)) (h : op.perform i m = .error fault m') :
    m' = m ∧ Failure i m fault := by
  cases op with
  | guarded guard =>
      simp only [ControlOp.perform, registerArg] at h
      cases htest : slot? i.first.toNat with
      | none =>
          rw [htest] at h
          cases h
          exact ⟨rfl, .register (by simp [Instruction.args]) htest⟩
      | some test =>
          rw [htest] at h
          exact opening_failure hnested (.guarded hop htest) h
  | leave => cases h
  | block => exact opening_failure hnested (.block hop) h
  | define =>
      simp only [ControlOp.perform] at h
      cases hslot : slot? i.first.toNat with
      | none =>
          rw [hslot] at h
          cases h
          exact ⟨rfl, .function hslot⟩
      | some slot =>
          rw [hslot] at h
          exact opening_failure hnested (.define hop hslot) h
  | call =>
      simp only [ControlOp.perform] at h
      cases htarget : m.callTarget? i.first.toNat with
      | none => simp [htarget] at h
      | some target =>
          rw [htarget] at h
          exact opening_failure hnested (.call hop htarget) h

/-- An instruction that fails leaves the machine as it was. -/
theorem dispatch_failure (hnested : Nested m) (h : dispatch i m = .error fault m') :
    m' = m ∧ Failure i m fault := by
  rw [dispatch] at h
  cases hentry : m.catalog.entry? i.id with
  | none =>
      rw [hentry] at h
      cases h
      exact ⟨rfl, .unknown (by rw [opcode?, hentry, Option.map_none])⟩
  | some e =>
      have hop : m.opcode? i = some e.opcode := by rw [opcode?, hentry, Option.map_some]
      simp only [hentry] at h
      cases hcode : e.opcode with
      | data op =>
          simp only [hcode, Opcode.perform] at h
          cases happly : op.apply i m with
          | ok next => simp [happly] at h
          | error fault =>
              rw [happly] at h
              cases h
              exact ⟨rfl, dataApply_failure happly⟩
      | control op =>
          simp only [hcode, Opcode.perform] at h
          exact controlPerform_failure hnested (hop.trans (congrArg some hcode)) h

end Failure

/-! ## The program -/

/-- What a machine runs, and what it takes the instructions for. -/
def program (m : Machine) : Catalog × Genome :=
  (m.catalog, m.genome)

theorem Reaches.program_body {i : Instruction} {m : Machine} {level : Nat} {kind : ScopeKind}
    {body : Machine → Machine} (h : Reaches i m level kind body) (n : Machine) :
    (body n).program = n.program := by
  cases h with
  | guarded => exact eq_of_background_eq program (background_startGuarded ..)
  | block => rfl
  | define => exact (eq_of_background_eq program (background_leaveScope ..)).trans rfl
  | call => rfl

/-- No instruction changes the program. -/
theorem program_dispatch (i : Instruction) (m : Machine) :
    (after (dispatch i m)).program = m.program := by
  have hclosed (level : Nat) : (m.closeFinished level).program = m.program :=
    eq_of_background_eq program (background_closeFinished m level)
  have houtcome := dispatch_outcome i m
  generalize dispatch i m = result at houtcome ⊢
  cases houtcome with
  | refused fault => rfl
  | worked | ignored => rfl
  | left hop => exact eq_of_background_eq program (background_leaveScope ..)
  | full => exact hclosed _
  | finished hfinish =>
      obtain ⟨⟩ := hfinish
      exact (eq_of_background_eq program (background_finishScope ..)).trans (hclosed _)
  | entered hreach => exact (hreach.program_body _).trans (hclosed _)

theorem catalog_dispatch (i : Instruction) (m : Machine) :
    (after (dispatch i m)).catalog = m.catalog :=
  congrArg Prod.fst (program_dispatch i m)

theorem Carries.genome_eq {m : Machine} {d : Dispatched} (h : Carries m d) :
    d.machine.genome = m.genome := by
  have hphases : Phases (fun n => n.genome = m.genome) (fun n => n.genome = m.genome) :=
    { arrive := fun n hn => (eq_of_background_eq genome (background_arrive n)).trans hn
      rest := fun _ hn => hn
      advance := fun _ hn => hn }
  refine (step_preserve hphases ?_ rfl).2 d h
  intro d _ hd
  exact (congrArg Prod.snd (program_dispatch d.instruction d.machine)).trans hd

/-! ## Steps -/

section Chain

variable {i : Instruction} {m m' : Machine} {log : List Dispatched}
  {result : EStateM.Result Fault Machine Unit}

/-- The instruction that a chain fails at is carried out on the machine that is left. -/
theorem Execution.last_of_error {fault : Fault} (h : Execution i m log (.error fault m'))
    (hnested : Nested m) :
    ∃ j, ⟨m', j⟩ ∈ log ∧ dispatch j m' = .error fault m' ∧ Failure j m' fault := by
  generalize hresult : EStateM.Result.error fault m' = result at h
  induction h with
  | fault hdispatch =>
      cases hresult
      obtain ⟨rfl, hfailure⟩ := dispatch_failure hnested hdispatch
      exact ⟨_, List.mem_cons_self, hdispatch, hfailure⟩
  | finished | nowhere => cases hresult
  | @again i j m next log result hdispatch _ _ _ ih =>
      have hnext := moves_dispatch i m
      rw [hdispatch] at hnext
      have hmoves : Moves m next.arrive := hnext.trans (moves_arrive next)
      obtain ⟨j, hmem, hlast⟩ := ih (hmoves.preserve Nested.move hnested) hresult
      exact ⟨j, List.mem_cons_of_mem _ hmem, hlast⟩

/-- Only the first instruction of a chain finds all the scopes that were open. -/
theorem Execution.eq_of_length_le (h : Execution i m log result) (hpending : m.pending = false)
    {d : Dispatched} (hd : d ∈ log) (hlength : m.frames.length ≤ d.machine.frames.length) :
    d.machine = m := by
  cases h with
  | fault | finished | nowhere => rw [List.mem_singleton.mp hd]
  | again hdispatch hpending' _ hrest =>
      rcases List.mem_cons.mp hd with rfl | hd
      · rfl
      · have hshorter := length_frames_arrive_lt hpending hdispatch hpending'
        have hle := (hrest.shortens (pending_arrive _)).2 d hd
        omega

end Chain

/-- A step that fails has come to an instruction that fails on the machine it finds. -/
theorem carries_of_error {m m' : Machine} {fault : Fault} (hnested : Nested m)
    (hstep : step m = .error fault m') :
    ∃ i, Carries m ⟨m', i⟩ ∧ dispatch i m' = .error fault m' ∧ Failure i m' fault := by
  cases hfetch : m.arrive.instruction? m.arrive.pointer with
  | none => simp [step, stepBy, hfetch] at hstep
  | some i =>
      obtain ⟨log, hlog⟩ := execute_execution i m.arrive
      rw [set_pending_eq (pending_arrive m)] at hlog
      have hexecute : execute i m.arrive = .error fault m' := by
        rw [step_of_arrive hfetch] at hstep
        cases hresult : execute i m.arrive with
        | ok _ next => simp [hresult, advance] at hstep
        | error fault next => simpa [hresult, advance] using hstep
      rw [hexecute] at hlog
      obtain ⟨j, hmem, hdispatch, hfailure⟩ :=
        hlog.last_of_error ((moves_arrive m).preserve Nested.move hnested)
      exact ⟨j, ⟨i, log, hfetch, hexecute ▸ hlog, hmem⟩, hdispatch, hfailure⟩

/-- An instruction that fails on the machine it finds fails again. -/
theorem step_of_dispatch_error {m : Machine} {i : Instruction} {fault : Fault}
    (hpending : m.pending = false) (hfetch : m.instruction? m.pointer = some i)
    (hdispatch : dispatch i m = .error fault m) : step m = .error fault m := by
  rw [step_of_fetch hpending hfetch, execute, set_pending_eq hpending, hdispatch]
  rfl

/-- A step that finds all scopes open did not go back to the start. -/
theorem arrive_of_full {m : Machine} (h : 16 ≤ m.arrive.frames.length) :
    m.arrive = { m with pending := false } := by
  by_cases hinside : m.genome.size ≤ m.pointer
  · have hone : m.arrive.frames.length = 1 := by
      rw [arrive, if_pos hinside]
      rfl
    omega
  · rw [arrive, if_neg hinside]

/-- What a step finds when all scopes are open is what was there before it. -/
theorem Carries.eq_of_full {m : Machine} {d : Dispatched} (h : Carries m d) (hnested : Nested m)
    (hfull : 16 ≤ d.machine.frames.length) : d.machine = { m with pending := false } := by
  obtain ⟨i, log, _, hlog, hd⟩ := h
  have hlength := ((moves_arrive m).preserve Nested.move hnested).length_le
  have hfirst := hlog.eq_of_length_le (pending_arrive m) hd (Nat.le_trans hlength hfull)
  rw [hfirst] at hfull ⊢
  exact arrive_of_full hfull

end Machine

open Machine

/-- When a step fails, its fault is at the pointer, inside the genome. The instruction there was
carried out and changed nothing, and the next step fails in the same way and changes nothing
either. If scopes ran out, the failed step has not changed anything at all. -/
theorem reachable_step_error {catalog : Catalog} {m m' : Machine} {fault : Fault}
    (h : Reachable anyOperation catalog m) (hstep : step m = .error fault m') :
    fault.position = m'.pointer ∧ m'.genome = m.genome ∧ m'.pointer < m.genome.size ∧
      (∃ i, m.genome[m'.pointer]? = some i ∧ Carries m ⟨m', i⟩ ∧
        dispatch i m' = .error fault m') ∧
      step m' = .error fault m' ∧
      ∀ position depth, fault = .scopeOverflow position depth →
        m' = { m with pending := false } := by
  have hnested := nested_of_reachable h
  obtain ⟨i, hcarries, hdispatch, hfailure⟩ := carries_of_error hnested hstep
  obtain ⟨hpending, hfetch⟩ := hcarries.fetched
  have hgenome : m'.genome = m.genome := hcarries.genome_eq
  refine ⟨hfailure.position_eq, hgenome, hgenome ▸ inside_of_fetch hfetch,
    ⟨i, hgenome ▸ hfetch, hcarries, hdispatch⟩,
    step_of_dispatch_error hpending hfetch hdispatch, ?_⟩
  rintro position depth rfl
  exact hcarries.eq_of_full hnested hfailure.full_of_overflow

/-- A function that changes register 1 for as long as it runs, and behind its call an instruction
on a register that does not exist. -/
def badReturn : Genome :=
  #[⟨17, 0, 0, 0⟩, ⟨0, 0, 0, 0⟩, ⟨37, 1, 0, 0⟩, ⟨0, 1, 0, 0⟩, outermostScope, ⟨18, 0, 0, 0⟩,
    ⟨0, 16, 0, 0⟩]

/-- The machine that has come to the end of the function. -/
def badReturnEnd : Machine :=
  stateAt badReturn ∅ 5

/-- A machine that is out of scopes and about to open one more. -/
def crowdedOpener : Machine :=
  (Operation.setGenome #[⟨16, 40, 0, 0⟩]).perform crowdedMachine

/-- The first machine returns from its function before it fails, and then stays there. The second
one stays where it is from the beginning. -/
theorem badReturn_step_error :
    (badReturnEnd.calls = [6] ∧ badReturnEnd.register 1 == 2.0) ∧
      (∃ m', step badReturnEnd = .error (.registerOutOfRange 6 16) m' ∧
        (m'.pointer = 6 ∧ m'.calls = [] ∧ m'.register 1 == 1.0) ∧
        step m' = .error (.registerOutOfRange 6 16) m') ∧
      step crowdedOpener = .error (.scopeOverflow 0 41) crowdedOpener := by
  have hreturn : fault? (step badReturnEnd) = some (.registerOutOfRange 6 16) ∧
      ((after (step badReturnEnd)).pointer = 6 ∧ (after (step badReturnEnd)).calls = [] ∧
        (after (step badReturnEnd)).register 1 == 1.0) ∧
      badReturnEnd.calls = [6] ∧ badReturnEnd.register 1 == 2.0 := by
    decide +kernel
  have hcrowded : fault? (step crowdedOpener) = some (.scopeOverflow 0 41) ∧
      crowdedOpener.pending = false := by
    decide +kernel
  have hreachable : Reachable anyOperation .standard crowdedOpener :=
    ((Reachable.new #[]).performAll fun _ _ _ => trivial).perform _ trivial
  obtain ⟨hfault, hafter, hbefore⟩ := hreturn
  obtain ⟨hoverflow, hpending⟩ := hcrowded
  have hstep := fault?_eq_some.mp hfault
  obtain ⟨_, _, _, _, hagain, _⟩ := reachable_step_error (reachable_stateAt badReturn ∅ 5) hstep
  have hstep' := fault?_eq_some.mp hoverflow
  obtain ⟨_, _, _, _, _, hsame⟩ := reachable_step_error hreachable hstep'
  rw [hsame 0 41 rfl, set_pending_eq hpending] at hstep'
  exact ⟨hbefore, ⟨_, hstep, hafter, hagain⟩, hstep'⟩

end GenomeMachine
