import GenomeMachine.Proofs.Scope.Resolution

/-! # What one instruction does

Instructions do one of a few things to a machine, whatever its catalog: they are refused, work on
data, call no function, leave a scope, or reach for a scope of their own. In the last case they find
it full, finish another scope instead, or go on inside the scope that they opened.
`dispatch_outcome` lists these outcomes once, so that no later proof has to look into the operations
again. -/

namespace GenomeMachine.Machine

/-- What an instruction does on a machine. -/
def opcode? (m : Machine) (i : Instruction) : Option Opcode :=
  (m.catalog.entry? i.id).map (·.opcode)

/-! ## What scopes leave alone -/

/-- A machine in the background of its control flow: without registers, pointer and stacks. -/
def background (m : Machine) : Machine :=
  { m with
    registers := initialRegisters
    pointer := 0
    opened := []
    backups := []
    calls := []
    pending := false }

/-- What can be read off the background is the same for machines with the same background. -/
theorem eq_of_background_eq {α : Type} (f : Machine → α) {m m' : Machine}
    (h : m'.background = m.background)
    (hf : ∀ n : Machine, f n.background = f n := by exact fun _ => rfl) : f m' = f m := by
  rw [← hf m', h, hf m]

section Unchanged

variable (m : Machine) (level : Nat)

@[simp] theorem background_closeScope : m.closeScope.background = m.background := by
  unfold closeScope
  split <;> rfl

@[simp] theorem background_closeFinished : (m.closeFinished level).background = m.background :=
  closeFinished_keeps background_closeScope m level

@[simp] theorem background_leaveScope : (m.leaveScope level).background = m.background := by
  simp only [leaveScope]
  split
  · rfl
  · exact background_closeScope m

@[simp] theorem background_finishScope (frame : Frame) :
    (m.finishScope frame).background = m.background := by
  unfold finishScope
  split
  · split
    · exact background_closeScope m
    · rfl
  · exact background_closeScope m

@[simp] theorem background_startGuarded (guard : Guard) (test : Slot) :
    (startGuarded guard test level m).background = m.background := by
  unfold startGuarded
  split
  · exact background_leaveScope m level
  · split <;> rfl

@[simp] theorem background_arrive : m.arrive.background = m.background := by
  unfold arrive
  split <;> rfl

theorem catalog_arrive : m.arrive.catalog = m.catalog :=
  eq_of_background_eq catalog (background_arrive m)

theorem genome_arrive : m.arrive.genome = m.genome :=
  eq_of_background_eq genome (background_arrive m)

@[simp] theorem catalog_closeScope : m.closeScope.catalog = m.catalog :=
  eq_of_background_eq catalog (background_closeScope m)

@[simp] theorem genome_closeScope : m.closeScope.genome = m.genome :=
  eq_of_background_eq genome (background_closeScope m)

@[simp] theorem functions_closeScope : m.closeScope.functions = m.functions :=
  eq_of_background_eq functions (background_closeScope m)

@[simp] theorem pointer_closeScope : m.closeScope.pointer = m.pointer := by
  unfold closeScope
  split <;> rfl

@[simp] theorem calls_closeScope : m.closeScope.calls = m.calls := by
  unfold closeScope
  split <;> rfl

@[simp] theorem returnPosition?_closeScope : m.closeScope.returnPosition? = m.returnPosition? := by
  simp [returnPosition?]

@[simp] theorem pointer_closeFinished : (m.closeFinished level).pointer = m.pointer :=
  closeFinished_keeps pointer_closeScope m level

@[simp] theorem calls_closeFinished : (m.closeFinished level).calls = m.calls :=
  closeFinished_keeps calls_closeScope m level

@[simp] theorem pending_closeFinished : (m.closeFinished level).pending = m.pending :=
  closeFinished_keeps pending_closeScope m level

@[simp] theorem catalog_leaveScope : (m.leaveScope level).catalog = m.catalog :=
  eq_of_background_eq catalog (background_leaveScope m level)

@[simp] theorem genome_leaveScope : (m.leaveScope level).genome = m.genome :=
  eq_of_background_eq genome (background_leaveScope m level)

@[simp] theorem functions_leaveScope : (m.leaveScope level).functions = m.functions :=
  eq_of_background_eq functions (background_leaveScope m level)

@[simp] theorem calls_leaveScope : (m.leaveScope level).calls = m.calls := by
  simp only [leaveScope]
  split <;> simp

end Unchanged

theorem leaveScope_of_le {m : Machine} {level : Nat} (h : m.innermost.depth ≤ level) :
    m.leaveScope level = m := by
  simp only [leaveScope, if_pos (Nat.lt_succ_of_le h)]

/-- Leaving a scope that is deep enough closes it. -/
theorem opened_leaveScope {m : Machine} {level : Nat} (h : level < m.innermost.depth) :
    (m.leaveScope level).opened = m.opened.tail := by
  simp only [leaveScope, if_neg (Nat.not_lt.mpr (Nat.succ_le_of_lt h)), opened_closeScope]

theorem opened_eq_cons_leaveScope {m : Machine} {level : Nat} (h : level < m.innermost.depth) :
    m.opened = m.innermost :: (m.leaveScope level).opened := by
  rw [opened_leaveScope h, ← opened_closeScope]
  exact opened_eq_cons (Nat.zero_lt_of_lt h)

/-! ## Finished scopes -/

/-- A property that the closing of silent scopes keeps. -/
theorem closeFinished_induction {P : Machine → Prop} {m : Machine} (level : Nat)
    (hclose : ∀ n : Machine, n.innermost.kind.closesSilently = true → P n → P n.closeScope)
    (hm : P m) : P (m.closeFinished level) := by
  induction hopened : m.opened generalizing m with
  | nil =>
      have hroot : m.innermost.depth < level + 1 := by simp [innermost, hopened, Frame.root]
      rwa [closeFinished_of_lt hroot]
  | cons frame rest ih =>
      by_cases hdepth : m.innermost.depth < level + 1
      · rwa [closeFinished_of_lt hdepth]
      · cases hkind : m.innermost.kind.closesSilently with
        | false => rwa [closeFinished_of_not_silent level hkind]
        | true =>
            rw [closeFinished_of_silent (by omega) hkind]
            exact ih (hclose m hkind hm) (by simp [hopened])

/-- What is still too deep once the silent scopes are closed is a loop or a function. -/
theorem closesSilently_closeFinished {m : Machine} {level : Nat}
    (h : level < (m.closeFinished level).innermost.depth) :
    (m.closeFinished level).innermost.kind.closesSilently = false := by
  induction hopened : m.opened generalizing m with
  | nil =>
      have hroot : m.innermost.depth < level + 1 := by simp [innermost, hopened, Frame.root]
      rw [closeFinished_of_lt hroot] at h
      omega
  | cons frame rest ih =>
      by_cases hdepth : m.innermost.depth < level + 1
      · rw [closeFinished_of_lt hdepth] at h
        omega
      · cases hkind : m.innermost.kind.closesSilently with
        | false => rwa [closeFinished_of_not_silent level hkind]
        | true =>
            rw [closeFinished_of_silent (by omega) hkind] at h ⊢
            exact ih h (by simp [hopened])

theorem enterScope_closeFinished (m : Machine) (level : Nat) (kind : ScopeKind) :
    enterScope level kind m = enterScope level kind (m.closeFinished level) :=
  enterScope_congr kind (closeFinished_closeFinished (Nat.le_refl level) m).symm

/-! ## Instructions -/

/-- The machine inside a scope that was opened where the pointer is. -/
def openScope (m : Machine) (depth : Nat) (kind : ScopeKind) : Machine :=
  { m with opened := ⟨depth, kind, m.pointer⟩ :: m.opened }

/-- An instruction reaches for a scope: at a level, of a kind, and with something to do inside. -/
inductive Reaches (i : Instruction) (m : Machine) :
    Nat → ScopeKind → (Machine → Machine) → Prop where
  | guarded {guard : Guard} {test : Slot} (hop : m.opcode? i = some (.control (.guarded guard)))
      (htest : slot? i.first.toNat = some test) :
      Reaches i m i.second.toNat guard.kind (startGuarded guard test i.second.toNat)
  | block (hop : m.opcode? i = some (.control .block)) : Reaches i m i.first.toNat .basic id
  | define {slot : Slot} (hop : m.opcode? i = some (.control .define))
      (hslot : slot? i.first.toNat = some slot) :
      Reaches i m i.second.toNat .function
        (fun n => (n.setFunction slot (some n.pointer)).leaveScope i.second.toNat)
  | call {position level : Nat} (hop : m.opcode? i = some (.control .call))
      (htarget : m.callTarget? i.first.toNat = some (position, level)) :
      Reaches i m level .function
        (fun n => { n.pushCall (n.pointer + 1) with pointer := position + 1 })

/-- An instruction finishes a scope instead of opening its own. The machine is the one without
the silent scopes inside the finished one, which is therefore innermost. -/
inductive Finishes (i : Instruction) (m : Machine) : Frame → Machine → Prop where
  | intro {level : Nat} {kind : ScopeKind} {body : Machine → Machine}
      (hreach : Reaches i m level kind body)
      (hdepth : level < (m.closeFinished level).innermost.depth)
      (hkind : (m.closeFinished level).innermost.kind.closesSilently = false) :
      Finishes i m (m.closeFinished level).innermost (m.closeFinished level)

theorem Reaches.finishes {i : Instruction} {m : Machine} {frame : Frame} {level : Nat}
    {kind : ScopeKind} {body : Machine → Machine} (h : Reaches i m level kind body)
    (hinnermost : (m.closeFinished level).innermost = frame) (hdepth : level < frame.depth)
    (hkind : frame.kind.closesSilently = false) :
    Finishes i m frame (m.closeFinished level) := by
  subst hinnermost
  exact .intro h hdepth hkind

theorem dispatch_of_opcode? {i : Instruction} {m : Machine} {op : ControlOp}
    (hop : m.opcode? i = some (.control op)) : dispatch i m = op.perform i m := by
  obtain ⟨e, hentry, hcode⟩ := Option.map_eq_some_iff.mp hop
  simp only [dispatch, hentry, hcode, Opcode.perform]

theorem Reaches.dispatch_eq {i : Instruction} {m : Machine} {level : Nat} {kind : ScopeKind}
    {body : Machine → Machine} (h : Reaches i m level kind body) :
    dispatch i m = opening level kind body m := by
  cases h with
  | guarded hop htest => simp only [dispatch_of_opcode? hop, ControlOp.perform, registerArg, htest]
  | block hop => simp only [dispatch_of_opcode? hop, ControlOp.perform]
  | define hop hslot => simp only [dispatch_of_opcode? hop, ControlOp.perform, hslot]
  | call hop htarget => simp only [dispatch_of_opcode? hop, ControlOp.perform, htarget]

/-- Where there is room for it, the scope is opened once the silent ones are closed. -/
theorem Reaches.dispatch_enter {i : Instruction} {m closed : Machine} {level : Nat}
    {kind : ScopeKind} {body : Machine → Machine} (h : Reaches i m level kind body)
    (hclosed : m.closeFinished level = closed) (hdepth : closed.innermost.depth < level + 1)
    (hroom : closed.frames.length < 16) :
    dispatch i m = .ok () (body (closed.openScope (level + 1) kind)) := by
  rw [h.dispatch_eq, opening, enterScope_closeFinished, hclosed, enterScope_of_lt kind hdepth,
    if_pos hroom]
  rfl

section Finishes

variable {i : Instruction} {m closed : Machine} {frame : Frame}

theorem Finishes.dispatch_eq (h : Finishes i m frame closed) :
    dispatch i m = .ok () (closed.finishScope frame) := by
  obtain ⟨hreach, hdepth, hkind⟩ := h
  rw [hreach.dispatch_eq, opening, enterScope_closeFinished,
    enterScope_of_not_silent _ hdepth hkind]

theorem Finishes.opened_eq (h : Finishes i m frame closed) :
    closed.opened = frame :: closed.closeScope.opened := by
  obtain ⟨_, hdepth, _⟩ := h
  exact opened_eq_cons (Nat.zero_lt_of_lt hdepth)

/-- A property that the closing of silent scopes keeps. -/
theorem Finishes.induction {P : Machine → Prop} (h : Finishes i m frame closed)
    (hclose : ∀ n : Machine, n.innermost.kind.closesSilently = true → P n → P n.closeScope)
    (hm : P m) : P closed := by
  cases h
  exact closeFinished_induction _ hclose hm

theorem Finishes.pending_eq (h : Finishes i m frame closed) : closed.pending = m.pending := by
  cases h
  exact pending_closeFinished m _

theorem Finishes.calls_eq (h : Finishes i m frame closed) : closed.calls = m.calls := by
  cases h
  exact calls_closeFinished m _

end Finishes

/-- What can come of an instruction. -/
inductive Outcome (i : Instruction) (m : Machine) : EStateM.Result Fault Machine Unit → Prop where
  | refused (fault : Fault) : Outcome i m (.error fault m)
  | worked {op : DataOp} {b : Machine} (hop : m.opcode? i = some (.data op))
      (happly : op.apply i m = .ok (m.absorb b)) : Outcome i m (.ok () (m.absorb b))
  | ignored (hop : m.opcode? i = some (.control .call))
      (htarget : m.callTarget? i.first.toNat = none) : Outcome i m (.ok () m)
  | left (hop : m.opcode? i = some (.control .leave)) :
      Outcome i m (.ok () (m.leaveScope i.first.toNat))
  | full {level : Nat} {kind : ScopeKind} {body : Machine → Machine}
      (hreach : Reaches i m level kind body)
      (hdepth : (m.closeFinished level).innermost.depth < level + 1)
      (hfull : 16 ≤ (m.closeFinished level).frames.length) :
      Outcome i m (.error (.scopeOverflow m.pointer (level + 1)) (m.closeFinished level))
  | finished {frame : Frame} {closed : Machine} (hfinish : Finishes i m frame closed) :
      Outcome i m (.ok () (closed.finishScope frame))
  | entered {level : Nat} {kind : ScopeKind} {body : Machine → Machine}
      (hreach : Reaches i m level kind body)
      (hdepth : (m.closeFinished level).innermost.depth < level + 1)
      (hroom : (m.closeFinished level).frames.length < 16) :
      Outcome i m (.ok () (body ((m.closeFinished level).openScope (level + 1) kind)))

/-- Reaching for a scope has one of three outcomes. -/
theorem Reaches.outcome {i : Instruction} {m : Machine} {level : Nat} {kind : ScopeKind}
    {body : Machine → Machine} (hreach : Reaches i m level kind body) :
    Outcome i m (opening level kind body m) := by
  rw [opening, enterScope_closeFinished]
  by_cases hdepth : (m.closeFinished level).innermost.depth < level + 1
  · rw [enterScope_of_lt kind hdepth]
    by_cases hroom : (m.closeFinished level).frames.length < 16
    · rw [if_pos hroom]
      exact .entered hreach hdepth hroom
    · rw [if_neg hroom, pointer_closeFinished]
      exact .full hreach hdepth (Nat.le_of_not_lt hroom)
  · have hdepth : level < (m.closeFinished level).innermost.depth := Nat.le_of_not_lt hdepth
    have hkind := closesSilently_closeFinished hdepth
    rw [enterScope_of_not_silent kind hdepth hkind]
    exact .finished (.intro hreach hdepth hkind)

theorem controlPerform_outcome {i : Instruction} {m : Machine} {op : ControlOp}
    (hop : m.opcode? i = some (.control op)) : Outcome i m (op.perform i m) := by
  cases op with
  | guarded guard =>
      simp only [ControlOp.perform, registerArg]
      cases htest : slot? i.first.toNat with
      | none => exact .refused _
      | some test => exact (Reaches.guarded hop htest).outcome
  | leave => exact .left hop
  | block => exact (Reaches.block hop).outcome
  | define =>
      simp only [ControlOp.perform]
      cases hslot : slot? i.first.toNat with
      | none => exact .refused _
      | some slot => exact (Reaches.define hop hslot).outcome
  | call =>
      simp only [ControlOp.perform]
      cases htarget : m.callTarget? i.first.toNat with
      | none => exact .ignored hop htarget
      | some target => exact (Reaches.call hop htarget).outcome

/-- Every instruction has one of the outcomes. -/
theorem dispatch_outcome (i : Instruction) (m : Machine) : Outcome i m (dispatch i m) := by
  unfold dispatch
  cases hentry : m.catalog.entry? i.id with
  | none => exact .refused _
  | some e =>
      have hop : m.opcode? i = some e.opcode := by rw [opcode?, hentry, Option.map_some]
      cases hcode : e.opcode with
      | data op =>
          simp only [hcode, Opcode.perform]
          have happly := dataApply_eq op i m
          cases hstore : op.apply i m.store.machine with
          | ok b =>
              rw [hstore, resume] at happly
              rw [happly]
              exact .worked (hop.trans (congrArg some hcode)) happly
          | error fault =>
              rw [hstore, resume] at happly
              rw [happly]
              exact .refused _
      | control op =>
          simp only [hcode, Opcode.perform]
          exact controlPerform_outcome (hop.trans (congrArg some hcode))

end GenomeMachine.Machine
