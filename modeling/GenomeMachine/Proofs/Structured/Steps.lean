import GenomeMachine.Machine.Step
import GenomeMachine.Proofs.Structured.Semantics

/-! # Steps through a structured genome

What it means for a machine to go through its genome step by step, and what it does at the data
instructions there. -/

namespace GenomeMachine

namespace Machine

/-- Steps inside the genome, none of which fails. -/
inductive Steps : Nat → Machine → Machine → Prop where
  | zero (m : Machine) : Steps 0 m m
  | succ {n : Nat} {m next m' : Machine} (hinside : m.pointer < m.genome.size)
      (hstep : step m = .ok () next) : Steps n next m' → Steps (n + 1) m m'

theorem Steps.single {m next : Machine} (hinside : m.pointer < m.genome.size)
    (hstep : step m = .ok () next) : Steps 1 m next :=
  .succ hinside hstep (.zero next)

theorem Steps.trans {a b : Nat} {m₁ m₂ m₃ : Machine} (h : Steps a m₁ m₂) (h' : Steps b m₂ m₃) :
    Steps (a + b) m₁ m₃ := by
  induction h with
  | zero m => simpa using h'
  | succ hinside hstep _ ih =>
      rw [Nat.add_right_comm]
      exact .succ hinside hstep (ih h')

theorem Steps.split {a b : Nat} {m m' : Machine} (h : Steps (a + b) m m') :
    ∃ mid, Steps a m mid ∧ Steps b mid m' := by
  induction a generalizing m with
  | zero => exact ⟨m, .zero m, by simpa using h⟩
  | succ a ih =>
      rw [Nat.add_right_comm] at h
      cases h with
      | succ hinside hstep hrest =>
          obtain ⟨mid, hmid, hlast⟩ := ih hrest
          exact ⟨mid, .succ hinside hstep hmid, hlast⟩

theorem Steps.truncate {a b : Nat} {m m' : Machine} (h : Steps a m m') (hle : b ≤ a) :
    ∃ mid, Steps b m mid := by
  obtain ⟨rest, rfl⟩ := Nat.exists_eq_add_of_le hle
  obtain ⟨mid, hmid, _⟩ := h.split
  exact ⟨mid, hmid⟩

/-- Machines that make the same step make the same steps. -/
theorem Steps.of_step_eq {n : Nat} {m₁ m₂ m' : Machine} (h : Steps (n + 1) m₂ m')
    (hinside : m₁.pointer < m₁.genome.size) (hstep : step m₁ = step m₂) :
    Steps (n + 1) m₁ m' := by
  cases h with
  | succ _ hnext hrest => exact .succ hinside (hstep.trans hnext) hrest

/-- There are no steps past the end of the genome. -/
theorem Steps.le_of_outside {a b : Nat} {m x y : Machine} (hx : Steps a m x)
    (houtside : x.genome.size ≤ x.pointer) (hy : Steps b m y) : b ≤ a := by
  induction hx generalizing b with
  | zero m =>
      cases hy with
      | zero => exact Nat.le_refl _
      | succ hinside _ _ => omega
  | succ _ hstep _ ih =>
      cases hy with
      | zero => exact Nat.zero_le _
      | succ _ hstep' hrest =>
          rw [hstep] at hstep'
          cases hstep'
          exact Nat.succ_le_succ (ih houtside hrest)

theorem Steps.deterministic {n : Nat} {m x y : Machine} (hx : Steps n m x) (hy : Steps n m y) :
    x = y := by
  induction hx with
  | zero m =>
      cases hy
      rfl
  | succ _ hstep _ ih =>
      cases hy with
      | succ _ hstep' hrest =>
          rw [hstep] at hstep'
          cases hstep'
          exact ih hrest

/-! ## One step -/

theorem set_pending_eq {m : Machine} (hpending : m.pending = false) :
    { m with pending := false } = m := by
  cases m
  simp_all

theorem arrive_of_inside {m : Machine} (hpending : m.pending = false)
    (hinside : m.pointer < m.genome.size) : m.arrive = m := by
  rw [arrive, if_neg (Nat.not_le.mpr hinside), set_pending_eq hpending]

theorem inside_of_fetch {m : Machine} {i : Instruction} (hfetch : m.genome[m.pointer]? = some i) :
    m.pointer < m.genome.size := by
  obtain ⟨hinside, _⟩ := Array.getElem?_eq_some_iff.mp hfetch
  exact hinside

/-- The end of a step: unless there was a fault, the pointer moves on. -/
def advance : EStateM.Result Fault Machine Unit → EStateM.Result Fault Machine Unit
  | .error fault m => .error fault m
  | .ok () m => .ok () { m with pointer := m.pointer + 1 }

/-- A step on a machine that has nothing left over is one execution. -/
theorem step_of_fetch {m : Machine} {i : Instruction} (hpending : m.pending = false)
    (hfetch : m.genome[m.pointer]? = some i) : step m = advance (execute i m) := by
  have hinstruction : m.instruction? m.pointer = some i := hfetch
  simp only [step, stepBy, arrive_of_inside hpending (inside_of_fetch hfetch), hinstruction]
  cases execute i m <;> rfl

theorem settle_of_not_pending {m : Machine} (h : m.pending = false) : m.settle = .ok () m := by
  rw [settle]
  simp [h]

theorem settle_of_pending {m : Machine} {i : Instruction} (h : m.pending = true)
    (hfetch : m.arrive.instruction? m.arrive.pointer = some i) :
    m.settle = execute i m.arrive := by
  rw [settle, if_pos h, hfetch, execute, set_pending_eq (pending_arrive m)]
  dsimp only
  split <;> simp_all only

theorem step_of_dispatch {m m' : Machine} {i : Instruction} (hpending : m.pending = false)
    (hfetch : m.genome[m.pointer]? = some i) (hdispatch : dispatch i m = .ok () m')
    (hpending' : m'.pending = false) : step m = .ok () { m' with pointer := m'.pointer + 1 } := by
  have hexecute : execute i m = .ok () m' := by
    rw [execute, set_pending_eq hpending, hdispatch]
    exact settle_of_not_pending hpending'
  rw [step_of_fetch hpending hfetch, hexecute, advance]

/-- What is due takes the place of the instruction that made it due. -/
theorem step_of_redispatch {m n : Machine} {i j : Instruction} (hpending : m.pending = false)
    (hfetch : m.genome[m.pointer]? = some i)
    (hdispatch : dispatch i m = .ok () { n with pending := true }) (hpending' : n.pending = false)
    (hfetch' : n.genome[n.pointer]? = some j) : step m = step n := by
  have harrive : { n with pending := true }.arrive = n := by
    rw [arrive, if_neg (Nat.not_le.mpr (inside_of_fetch hfetch'))]
    exact set_pending_eq hpending'
  have hsettle : settle { n with pending := true } = execute j n := by
    rw [settle_of_pending rfl (by rw [harrive]; exact hfetch'), harrive]
  have hexecute : execute i m = execute j n := by
    rw [execute, set_pending_eq hpending, hdispatch]
    exact hsettle
  rw [step_of_fetch hpending hfetch, step_of_fetch hpending' hfetch', hexecute]

/-- The instructions from the pointer on. -/
def code (m : Machine) : List Instruction :=
  m.genome.toList.drop m.pointer

theorem fetch_of_code {m : Machine} {i : Instruction} {tail : List Instruction}
    (hcode : m.code = i :: tail) : m.genome[m.pointer]? = some i := by
  rw [← Array.getElem?_toList, ← List.head?_drop]
  exact congrArg List.head? hcode

theorem code_of_append {m m' : Machine} {front tail : List Instruction}
    (hcode : m.code = front ++ tail) (hgenome : m'.genome = m.genome)
    (hpointer : m'.pointer = m.pointer + front.length) : m'.code = tail := by
  have hdrop := congrArg (List.drop front.length) hcode
  rwa [code, List.drop_drop, List.drop_left, ← hgenome, ← hpointer] at hdrop

/-! ## Data instructions -/

/-- Saved registers as backups of the innermost scope. -/
def own (m : Machine) (saved : List (Slot × Float)) : List Backup :=
  saved.map fun (r, value) => ⟨m.innermost.depth, r, value⟩

/-- The machine some data instructions further on, with what they made of the store and with the
registers that they saved. -/
def proceed (m : Machine) (s : Store) (saved : List (Slot × Float)) (count : Nat) : Machine :=
  { m.withStore s with backups := m.own saved ++ m.backups, pointer := m.pointer + count }

theorem proceed_proceed (m : Machine) (s t : Store) (saved savedLater : List (Slot × Float))
    (a b : Nat) :
    (m.proceed s saved a).proceed t savedLater b = m.proceed t (savedLater ++ saved) (a + b) := by
  simp only [proceed, own, List.map_append, List.append_assoc, Nat.add_assoc]
  rfl

theorem registerArg_of_lt (m : Machine) {arg : UInt16} (h : arg.toNat < 16) :
    m.registerArg arg = .ok ⟨arg.toNat, h⟩ := by
  simp [registerArg, slot?, h]

theorem blockArg_of_lt (m : Machine) {arg : UInt16} (h : arg.toNat < 16) :
    m.blockArg arg = .ok ⟨arg.toNat, h⟩ := by
  simp [blockArg, slot?, h]

theorem dataApply_of_inRange {op : DataOp} {i : Instruction} (m : Machine)
    (h : ∀ slot ∈ op.operands, (i.arg slot).toNat < 16) : ∃ m', op.apply i m = .ok m' := by
  cases op with
  | divide op =>
      simp only [DataOp.operands, List.mem_cons, List.not_mem_nil, or_false, forall_eq_or_imp,
        forall_eq, Instruction.arg] at h
      obtain ⟨h₀, h₁, h₂⟩ := h
      simp only [DataOp.apply, registerArg_of_lt m h₀, registerArg_of_lt m h₁,
        registerArg_of_lt m h₂, bind, Except.bind]
      split <;> exact ⟨_, rfl⟩
  | _ =>
      simp only [DataOp.operands, List.mem_cons, List.not_mem_nil, or_false, forall_eq_or_imp,
        forall_eq, Instruction.arg] at h
      simp only [DataOp.apply, registerArg_of_lt, blockArg_of_lt, h, bind, Except.bind]
      exact ⟨_, rfl⟩

/-- A data instruction is carried out on the store. -/
theorem dispatch_plain {m : Machine} (i : PlainInstruction) (hcatalog : m.catalog = .standard) :
    dispatch i.instruction m =
      .ok () (m.proceed (i.run m.store).1 (i.run m.store).2 0) := by
  obtain ⟨b, hb⟩ := dataApply_of_inRange m.store.machine (inRange_op i)
  have happly : i.op.apply i.instruction m = .ok (m.absorb b) := by
    rw [dataApply_eq, hb, resume]
  simp only [dispatch, hcatalog, i.known, (entry_plain i).1, Opcode.perform, happly,
    PlainInstruction.run, hb, proceed, own, List.map_map]
  rfl

theorem step_plain {m : Machine} {i : PlainInstruction} {tail : List Instruction}
    (hcatalog : m.catalog = .standard) (hpending : m.pending = false)
    (hcode : m.code = i.instruction :: tail) :
    step m = .ok () (m.proceed (i.run m.store).1 (i.run m.store).2 1) :=
  step_of_dispatch hpending (fetch_of_code hcode) (dispatch_plain i hcatalog) hpending

theorem steps_body {m : Machine} {body : List PlainInstruction} {tail : List Instruction}
    (hcatalog : m.catalog = .standard) (hpending : m.pending = false)
    (hcode : m.code = bodyInstructions body ++ tail) :
    Steps body.length m
      (m.proceed (runBody body m.store).1 (runBody body m.store).2 body.length) := by
  induction body generalizing m with
  | nil => exact .zero m
  | cons i body ih =>
      have hfront : m.code = [i.instruction] ++ (bodyInstructions body ++ tail) := hcode
      have hstep := step_plain hcatalog hpending hcode
      have hnext := ih (m := m.proceed (i.run m.store).1 (i.run m.store).2 1) hcatalog hpending
        (code_of_append hfront rfl rfl)
      rw [proceed_proceed, Nat.add_comm 1] at hnext
      exact .succ (inside_of_fetch (fetch_of_code hcode)) hstep hnext

end Machine

end GenomeMachine
