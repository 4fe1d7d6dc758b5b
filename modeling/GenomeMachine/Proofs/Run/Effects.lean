import GenomeMachine.Proofs.Run.Log
import GenomeMachine.Proofs.Run.Provenance

/-! # What a run may touch

A program cannot rewrite itself or its inputs, take back that it ended its turn, or undefine a
function, and the only errors it counts are divisions by zero. `Effects` states this about two
machines together with the number of errors between them. It holds from one instruction to the
next, so along every chain and every run, and the errors are those of the log. -/

namespace GenomeMachine

/-- Whether an operation divides. -/
def Opcode.divides : Opcode → Bool
  | .data (.divide _) => true
  | _ => false

namespace Machine

/-- Whether an instruction is about to divide by zero: its arguments are registers and the second
one holds zero. -/
def Dispatched.dividesByZero (d : Dispatched) : Bool :=
  (d.machine.opcode? d.instruction).any Opcode.divides
    && d.instruction.args.all (fun arg => (slot? arg.toNat).isSome)
    && (slot? d.instruction.second.toNat).any (d.machine.register · == 0.0)

/-- What can become of a machine while a number of errors is counted. -/
structure Effects (errors : Nat) (m m' : Machine) : Prop where
  genome_eq : m'.genome = m.genome
  inputs_eq : m'.inputs = m.inputs
  traitValue_eq : ∀ n, n ≠ haltTrait → m'.traitValue n = m.traitValue n
  haltTrait_eq : m'.traitValue haltTrait = m.traitValue haltTrait ∨
    m'.traitValue haltTrait = 1.0
  defined : ∀ slot, (m.function? slot).isSome → (m'.function? slot).isSome
  errors_eq : m'.errors = m.errors + errors

theorem Effects.trans {m m' m'' : Machine} {errors errors' : Nat} (h : Effects errors m m')
    (h' : Effects errors' m' m'') : Effects (errors + errors') m m'' where
  genome_eq := h'.genome_eq.trans h.genome_eq
  inputs_eq := h'.inputs_eq.trans h.inputs_eq
  traitValue_eq n hn := (h'.traitValue_eq n hn).trans (h.traitValue_eq n hn)
  haltTrait_eq := by
    rcases h'.haltTrait_eq with hsame | hended
    · rw [hsame]
      exact h.haltTrait_eq
    · exact .inr hended
  defined slot hslot := h'.defined slot (h.defined slot hslot)
  errors_eq := by rw [h'.errors_eq, h.errors_eq, Nat.add_assoc]

theorem Effects.halted {m m' : Machine} {errors : Nat} (h : Effects errors m m')
    (hhalted : m.halted = true) : m'.halted = true := by
  unfold Machine.halted at hhalted ⊢
  rcases h.haltTrait_eq with hsame | hended
  · rwa [hsame]
  · rw [hended]
    decide +kernel

/-! ## No effect -/

/-- All that `Effects` speaks of. -/
def record (m : Machine) : Genome × Cells × Vector (Option Nat) 16 × Nat × Array Float :=
  (m.genome, m.inputs, m.functions, m.errors, m.traits)

theorem Effects.of_record_eq {m m' : Machine} (h : m'.record = m.record) : Effects 0 m m' := by
  simp only [record, Prod.mk.injEq] at h
  obtain ⟨hgenome, hinputs, hfunctions, herrors, htraits⟩ := h
  exact
    { genome_eq := hgenome
      inputs_eq := hinputs
      traitValue_eq := fun n _ => by rw [traitValue, traitValue, htraits]
      haltTrait_eq := .inl (by rw [traitValue, traitValue, htraits])
      defined := fun slot hslot => by rwa [function?, hfunctions]
      errors_eq := herrors }

theorem Effects.of_background_eq {m m' : Machine} (h : m'.background = m.background) :
    Effects 0 m m' :=
  .of_record_eq (eq_of_background_eq record h)

/-! ## Effects of their own -/

theorem traitValue_setTrait (m : Machine) (n : Nat) (value : Float) (k : Nat) :
    (m.setTrait n value).traitValue k = if k = n then value else m.traitValue k := by
  simp only [traitValue, setTrait, Array.getElem?_setIfInBounds]
  by_cases hk : k = n
  · subst hk
    have hsize : k < (m.traits ++ Array.replicate (k + 1 - m.traits.size) (0.0 : Float)).size := by
      simp only [Array.size_append, Array.size_replicate]
      omega
    rw [if_pos rfl, if_pos hsize, if_pos rfl, Option.getD_some]
  · rw [if_neg hk, if_neg (Ne.symm hk)]
    by_cases hsize : k < m.traits.size
    · rw [Array.getElem?_append_left hsize]
    · have hnone : m.traits[k]? = none := Array.getElem?_eq_none (Nat.le_of_not_lt hsize)
      rw [Array.getElem?_append_right (Nat.le_of_not_lt hsize), hnone, Array.getElem?_replicate]
      split <;> rfl

theorem effects_endTurn (m : Machine) : Effects 0 m m.endTurn where
  genome_eq := rfl
  inputs_eq := rfl
  traitValue_eq n hn := by rw [endTurn, traitValue_setTrait, if_neg hn]
  haltTrait_eq := .inr (by rw [endTurn, traitValue_setTrait, if_pos rfl])
  defined _ hslot := hslot
  errors_eq := rfl

theorem effects_countError (m : Machine) : Effects 1 m m.countError where
  genome_eq := rfl
  inputs_eq := rfl
  traitValue_eq _ _ := rfl
  haltTrait_eq := .inl rfl
  defined _ hslot := hslot
  errors_eq := rfl

theorem effects_setFunction (m : Machine) (slot : Slot) (position : Nat) :
    Effects 0 m (m.setFunction slot (some position)) where
  genome_eq := rfl
  inputs_eq := rfl
  traitValue_eq _ _ := rfl
  haltTrait_eq := .inl rfl
  defined n hslot := by
    rw [function?_setFunction]
    split
    · rfl
    · exact hslot
  errors_eq := rfl

/-! ## One instruction -/

section Instructions

variable {i : Instruction} {m m' : Machine}

theorem registerArg_eq_ok_iff {arg : UInt16} {r : Slot} :
    m.registerArg arg = .ok r ↔ slot? arg.toNat = some r := by
  unfold registerArg
  split <;> simp_all

/-- Divisions aside, operations on data count no error. -/
theorem effects_dataApply {op : DataOp} (hop : (Opcode.data op).divides = false)
    (h : op.apply i m = .ok m') : Effects 0 m m' := by
  cases op <;> simp only [DataOp.apply, bind_eq_ok_iff, pure, Except.pure, Except.ok.injEq] at h
  case divide => simp [Opcode.divides] at hop
  case endTurn =>
    subst h
    exact effects_endTurn m
  all_goals
    repeat obtain ⟨_, _, h⟩ := h
    refine .of_record_eq ?_
    simp only [record, setRegister, pushBackup, setCell, copyBlock, shiftBlock, setOutput,
      loadBoard]

theorem Reaches.effects_body {level : Nat} {kind : ScopeKind} {body : Machine → Machine}
    (h : Reaches i m level kind body) (n : Machine) : Effects 0 n (body n) := by
  cases h with
  | guarded => exact .of_background_eq (background_startGuarded ..)
  | block => exact .of_record_eq rfl
  | define => exact (effects_setFunction ..).trans (.of_background_eq (background_leaveScope ..))
  | call => exact .of_record_eq rfl

theorem dividesByZero_iff {d : Dispatched} :
    d.dividesByZero = true ↔
      ∃ op a b target, d.machine.opcode? d.instruction = some (.data (.divide op)) ∧
        slot? d.instruction.first.toNat = some a ∧ slot? d.instruction.second.toNat = some b ∧
        slot? d.instruction.third.toNat = some target ∧ d.machine.register b == 0.0 := by
  simp only [Dispatched.dividesByZero, Instruction.args, Bool.and_eq_true, Option.any_eq_true,
    List.all_cons, List.all_nil, Option.isSome_iff_exists, and_true]
  constructor
  · rintro ⟨⟨⟨opcode, hop, hdivides⟩, ⟨a, ha⟩, -, ⟨target, htarget⟩⟩, ⟨b, hb, hzero⟩⟩
    cases opcode with
    | control => simp [Opcode.divides] at hdivides
    | data op =>
        cases op <;> simp [Opcode.divides] at hdivides
        exact ⟨_, a, b, target, hop, ha, hb, htarget, hzero⟩
  · rintro ⟨op, a, b, target, hop, ha, hb, htarget, hzero⟩
    exact ⟨⟨⟨_, hop, rfl⟩, ⟨a, ha⟩, ⟨b, hb⟩, ⟨target, htarget⟩⟩, ⟨b, hb, hzero⟩⟩

/-- A division by zero counts an error and does nothing else. -/
theorem dispatch_of_dividesByZero {d : Dispatched} (h : d.dividesByZero = true) :
    dispatch d.instruction d.machine = .ok () d.machine.countError := by
  obtain ⟨op, a, b, target, hop, ha, hb, htarget, hzero⟩ := dividesByZero_iff.mp h
  obtain ⟨e, hentry, hcode⟩ := Option.map_eq_some_iff.mp hop
  simp only [dispatch, hentry, hcode, Opcode.perform, DataOp.apply, registerArg, ha, hb, htarget,
    bind, Except.bind, hzero, if_true]
  rfl

/-- A division by anything else sets a register. -/
theorem effects_divide {d : Dispatched} {op : Division}
    (hop : d.machine.opcode? d.instruction = some (.data (.divide op)))
    (hzero : ¬d.dividesByZero = true)
    (h : (DataOp.divide op).apply d.instruction d.machine = .ok m') : Effects 0 d.machine m' := by
  simp only [DataOp.apply, bind_eq_ok_iff, registerArg_eq_ok_iff] at h
  obtain ⟨a, ha, b, hb, target, htarget, h⟩ := h
  split at h
  next hdivisor =>
    exact absurd (dividesByZero_iff.mpr ⟨op, a, b, target, hop, ha, hb, htarget, hdivisor⟩) hzero
  next =>
    cases h
    exact .of_record_eq rfl

/-- Only a division by zero counts an error. -/
theorem effects_dispatch (d : Dispatched) :
    Effects (if d.dividesByZero then 1 else 0) d.machine
      (after (dispatch d.instruction d.machine)) := by
  by_cases hzero : d.dividesByZero = true
  · rw [if_pos hzero, dispatch_of_dividesByZero hzero]
    exact effects_countError d.machine
  · -- Apart from definitions and the end of a turn, the other outcomes leave the record alone.
    rw [if_neg hzero]
    have hclosed (level : Nat) : Effects 0 d.machine (d.machine.closeFinished level) :=
      .of_background_eq (background_closeFinished ..)
    have hopened (level : Nat) (kind : ScopeKind) :
        Effects 0 d.machine ((d.machine.closeFinished level).openScope (level + 1) kind) :=
      .of_background_eq (background_closeFinished ..)
    have houtcome := dispatch_outcome d.instruction d.machine
    generalize dispatch d.instruction d.machine = result at houtcome ⊢
    cases houtcome with
    | refused | ignored => exact .of_record_eq rfl
    | @worked op b hop happly =>
        cases op with
        | divide op => exact effects_divide hop hzero happly
        | _ => exact effects_dataApply rfl happly
    | left => exact .of_background_eq (background_leaveScope ..)
    | full => exact hclosed _
    | finished hfinish =>
        obtain ⟨⟩ := hfinish
        exact (hclosed _).trans (.of_background_eq (background_finishScope ..))
    | entered hreach => exact (hopened _ _).trans (hreach.effects_body _)

end Instructions

/-! ## Runs -/

theorem effects_of_dispatch {i : Instruction} {m : Machine}
    {result : EStateM.Result Fault Machine Unit} (h : dispatch i m = result) :
    Effects ([(⟨m, i⟩ : Dispatched)].countP Dispatched.dividesByZero) m (after result) := by
  rw [← h, List.countP_singleton]
  exact effects_dispatch ⟨m, i⟩

theorem Execution.effects {i : Instruction} {m : Machine} {log : List Dispatched}
    {result : EStateM.Result Fault Machine Unit} (h : Execution i m log result) :
    Effects (log.countP Dispatched.dividesByZero) m (after result) := by
  induction h with
  | fault hdispatch | finished hdispatch => exact effects_of_dispatch hdispatch
  | nowhere hdispatch =>
      exact (effects_of_dispatch hdispatch).trans (.of_background_eq (background_arrive _))
  | again hdispatch _ _ _ ih =>
      -- The head of the log counts its own error, arriving counts none.
      have harrive := (effects_of_dispatch hdispatch).trans (.of_background_eq (background_arrive _))
      rw [← List.singleton_append, List.countP_append]
      exact harrive.trans ih

theorem effects_step (m : Machine) :
    Effects (m.stepLog.countP Dispatched.dividesByZero) m (after (step m)) := by
  cases hfetch : m.arrive.instruction? m.arrive.pointer with
  | none =>
      have hstep : step m = .ok () m := by simp only [step, stepBy, hfetch]
      rw [hstep, stepLog_of_fetch_none hfetch]
      exact .of_record_eq rfl
  | some i =>
      have harrive : Effects 0 m m.arrive := .of_background_eq (background_arrive m)
      have hexecute := harrive.trans (execution_stepLog hfetch).effects
      rw [Nat.zero_add] at hexecute
      rw [step_of_arrive hfetch]
      cases hresult : execute i m.arrive with
      | error fault next => rwa [hresult] at hexecute
      | ok _ next =>
          rw [hresult] at hexecute
          have hmove : Effects 0 next { next with pointer := next.pointer + 1 } :=
            .of_record_eq rfl
          exact hexecute.trans hmove

theorem effects_afterSteps (m : Machine) (n : Nat) :
    Effects ((m.log n).countP Dispatched.dividesByZero) m (m.afterSteps n) := by
  induction n with
  | zero => exact .of_record_eq rfl
  | succ n ih =>
      rw [log, List.countP_append]
      exact ih.trans (effects_step (m.afterSteps n))

end Machine

open Machine

/-- Whatever a program does, and whether or not its steps fail, genome and inputs stay the same,
no trait changes except that the turn may end, and what ended stays ended. Functions stay defined.
The errors counted are the divisions by zero among the instructions that were carried out, and
such a division does nothing but count. -/
theorem afterSteps_frame (m : Machine) (n : Nat) :
    (m.afterSteps n).genome = m.genome ∧ (m.afterSteps n).inputs = m.inputs ∧
      (∀ k, k ≠ haltTrait → (m.afterSteps n).traitValue k = m.traitValue k) ∧
      ((m.afterSteps n).traitValue haltTrait = m.traitValue haltTrait ∨
        (m.afterSteps n).traitValue haltTrait = 1.0) ∧
      (m.halted = true → (m.afterSteps n).halted = true) ∧
      (∀ slot, (m.function? slot).isSome → ((m.afterSteps n).function? slot).isSome) ∧
      (m.afterSteps n).errors = m.errors + (m.log n).countP Dispatched.dividesByZero ∧
      ∀ d ∈ m.log n, d.dividesByZero = true →
        dispatch d.instruction d.machine = .ok () d.machine.countError := by
  have h := effects_afterSteps m n
  exact ⟨h.genome_eq, h.inputs_eq, h.traitValue_eq, h.haltTrait_eq, h.halted, h.defined,
    h.errors_eq, fun _ _ => dispatch_of_dividesByZero⟩

/-- Two divisions by zero, and a third one that fails because it has no register to write to. -/
def strayDivisions : Genome := #[⟨7, 1, 0, 2⟩, ⟨8, 1, 0, 2⟩, ⟨8, 1, 0, 16⟩]

/-- A machine that has ended its turn and defined a function, and then divides. -/
def divider : Machine :=
  { (Machine.new .standard strayDivisions).endTurn.setFunction ⟨3, by decide⟩ (some 0) with
    errors := 5 }

/-- Of its first four steps two fail and two count an error. -/
theorem divider_frame :
    (divider.halted = true ∧ (divider.function? 3).isSome) ∧
      ((divider.log 4).length = 4 ∧ (divider.log 4).countP Dispatched.dividesByZero = 2) ∧
      (divider.afterSteps 4).halted = true ∧ ((divider.afterSteps 4).function? 3).isSome ∧
      (divider.afterSteps 4).errors = 7 := by
  have hhalted : divider.halted = true := by decide +kernel
  have hdefined : (divider.function? 3).isSome := by decide +kernel
  have hcount : (divider.log 4).countP Dispatched.dividesByZero = 2 := by decide +kernel
  obtain ⟨_, _, _, _, hstays, hslots, herrors, _⟩ := afterSteps_frame divider 4
  rw [hcount] at herrors
  exact ⟨⟨hhalted, hdefined⟩, ⟨by decide +kernel, hcount⟩, hstays hhalted, hslots 3 hdefined,
    herrors⟩

end GenomeMachine
