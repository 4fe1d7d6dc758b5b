import GenomeMachine.Except
import GenomeMachine.Machine.Control
import GenomeMachine.Machine.Data

/-!
# Dispatch

One instruction is carried out by its catalog entry. It leaves an instruction due only after it
finished a scope, and then fewer scopes are open than before: `dispatch_shortens`. This bounds
how many instructions a single step can carry out.
-/

namespace GenomeMachine

/-- Carries out an operation. -/
def Opcode.perform : Opcode → Instruction → Action Unit
  | .data op, i => fun m =>
      match op.apply i m with
      | .ok m => .ok () m
      | .error fault => .error fault m
  | .control op, i => op.perform i

namespace Machine

/-- Carries out one instruction, wherever the pointer is. -/
def dispatch (i : Instruction) : Action Unit := fun m =>
  match m.catalog.entry? i.id with
  | none => .error (.unknownInstruction m.pointer i.id) m
  | some e => e.opcode.perform i m

/-! ## What can leave an instruction due -/

@[simp] theorem opened_closeScope (m : Machine) : m.closeScope.opened = m.opened.tail := by
  unfold closeScope
  split <;> simp_all

@[simp] theorem pending_closeScope (m : Machine) : m.closeScope.pending = m.pending := by
  unfold closeScope
  split <;> rfl

@[simp] theorem pending_leaveScope (m : Machine) (level : Nat) :
    (m.leaveScope level).pending = m.pending := by
  simp only [leaveScope]
  split <;> simp

theorem pending_closeSilent (depth : Nat) (frames : List Frame) (m : Machine) :
    (closeSilent depth frames m).pending = m.pending := by
  induction frames generalizing m with
  | nil => rfl
  | cons frame rest ih =>
      unfold closeSilent
      split
      · rw [ih, pending_closeScope]
      · rfl

theorem length_opened_closeSilent_le (depth : Nat) (frames : List Frame) (m : Machine) :
    (closeSilent depth frames m).opened.length ≤ m.opened.length := by
  induction frames generalizing m with
  | nil => exact Nat.le_refl _
  | cons frame rest ih =>
      unfold closeSilent
      split
      · exact Nat.le_trans (ih _) (by simp)
      · exact Nat.le_refl _

theorem length_opened_finishScope (m : Machine) (frame : Frame) :
    (m.finishScope frame).opened.length ≤ m.opened.length - 1 := by
  unfold finishScope
  split
  · split <;> simp [rewind]
  · simp

/-- Reaching an opener either opens its scope and leaves nothing due, or finishes a scope. -/
theorem enterScope_shortens {level : Nat} {kind : ScopeKind} {m m' : Machine} {entered : Bool}
    (h : enterScope level kind m = .ok entered m') :
    if entered then m'.pending = m.pending else m'.opened.length < m.opened.length := by
  have hpending := pending_closeSilent (level + 1) m.opened m
  have hlength := length_opened_closeSilent_le (level + 1) m.opened m
  simp only [enterScope] at h
  generalize closeSilent (level + 1) m.opened m = closed at h hpending hlength
  split at h
  next frame hframe =>
    cases h
    have hfinish := length_opened_finishScope closed frame
    have : closed.opened ≠ [] := by
      intro hnil
      simp [hnil] at hframe
    have := List.length_pos_iff.mpr this
    simp
    omega
  next =>
    split at h
    · cases h
      simpa using hpending
    · cases h

theorem pending_startGuarded (guard : Guard) (test : Slot) (level : Nat) (m : Machine) :
    (startGuarded guard test level m).pending = m.pending := by
  unfold startGuarded
  split
  · simp
  · split <;> rfl

theorem opening_shortens {level : Nat} {kind : ScopeKind} {body : Machine → Machine}
    (hbody : ∀ m, (body m).pending = m.pending) {m m' : Machine}
    (h : opening level kind body m = .ok () m') (hm : m.pending = false)
    (hm' : m'.pending = true) : m'.opened.length < m.opened.length := by
  unfold opening at h
  split at h
  next entered hentered =>
    have := enterScope_shortens hentered
    cases h
    simp_all
  next hentered =>
    have := enterScope_shortens hentered
    cases h
    simpa using this
  next => cases h

theorem pending_dataApply {op : DataOp} {i : Instruction} {m m' : Machine}
    (h : op.apply i m = .ok m') : m'.pending = m.pending := by
  cases op <;> simp only [DataOp.apply, bind_eq_ok_iff, pure, Except.pure, Except.ok.injEq] at h
  case divide =>
    obtain ⟨_, _, _, _, _, _, h⟩ := h
    split at h <;> (cases h; rfl)
  all_goals
    repeat obtain ⟨_, _, h⟩ := h
    simp only [setRegister, pushBackup, setCell, copyBlock, shiftBlock, setOutput, loadBoard,
      endTurn, setTrait]

theorem controlPerform_shortens {op : ControlOp} {i : Instruction} {m m' : Machine}
    (h : op.perform i m = .ok () m') (hm : m.pending = false) (hm' : m'.pending = true) :
    m'.opened.length < m.opened.length := by
  cases op with
  | guarded guard =>
      simp only [ControlOp.perform] at h
      split at h
      · cases h
      · exact opening_shortens (pending_startGuarded _ _ _) h hm hm'
  | leave =>
      cases h
      simp_all
  | block => exact opening_shortens (fun _ => rfl) h hm hm'
  | define =>
      simp only [ControlOp.perform] at h
      split at h
      · cases h
      · exact opening_shortens (fun _ => by simp [setFunction]) h hm hm'
  | call =>
      simp only [ControlOp.perform] at h
      split at h
      · cases h
        simp_all
      · refine opening_shortens ?_ h hm hm'
        exact fun _ => rfl

/-- An instruction that leaves another one due has closed a scope. -/
theorem dispatch_shortens {i : Instruction} {m m' : Machine} (h : dispatch i m = .ok () m')
    (hm : m.pending = false) (hm' : m'.pending = true) :
    m'.opened.length < m.opened.length := by
  unfold dispatch at h
  split at h
  · cases h
  next e _ =>
    match hop : e.opcode with
    | .data op =>
        simp only [hop, Opcode.perform] at h
        split at h
        next happly =>
          cases h
          have := pending_dataApply happly
          simp_all
        · cases h
    | .control op =>
        simp only [hop, Opcode.perform] at h
        exact controlPerform_shortens h hm hm'

end Machine

end GenomeMachine
