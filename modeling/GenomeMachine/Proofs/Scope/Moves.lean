import GenomeMachine.Proofs.Operation
import GenomeMachine.Proofs.Store
import Mathlib.Logic.Relation

/-! # Moves on the stacks

Whatever a machine does, its open scopes and its backups change by four kinds of moves only. A
property that each move keeps is kept by every operation, also by one that fails halfway. -/

namespace GenomeMachine

namespace Machine

/-- One change of the open scopes and backups. -/
inductive Move : Machine → Machine → Prop where
  /-- The scopes stay, and all new backups belong to the innermost one. -/
  | keep {m m' : Machine} (saved : List Backup) (hsaved : ∀ b ∈ saved, b.depth = m.innermost.depth)
      (hopened : m'.opened = m.opened) (hbackups : m'.backups = saved ++ m.backups) : Move m m'
  | enter {m : Machine} {depth : Nat} {kind : ScopeKind} (hdeeper : m.innermost.depth < depth)
      (hroom : m.frames.length < 16) :
      Move m { m with opened := ⟨depth, kind, m.pointer⟩ :: m.opened }
  | close (m : Machine) : Move m m.closeScope
  | clear {m m' : Machine} (hopened : m'.opened = []) (hbackups : m'.backups = []) : Move m m'

/-- Moves one after another. -/
abbrev Moves : Machine → Machine → Prop :=
  Relation.ReflTransGen Move

/-- A property that every move keeps. -/
theorem Moves.preserve {P : Machine → Prop} (hP : ∀ {m m' : Machine}, Move m m' → P m → P m')
    {m m' : Machine} (h : Moves m m') (hm : P m) : P m' := by
  induction h with
  | refl => exact hm
  | tail _ hmove ih => exact hP hmove ih

/-- Whatever leaves both stacks alone is a move. -/
theorem moves_of_eq {m m' : Machine} (hopened : m'.opened = m.opened)
    (hbackups : m'.backups = m.backups) : Moves m m' :=
  .single (.keep [] (by simp) hopened (by simpa using hbackups))

theorem moves_of_clear {m m' : Machine} (hopened : m'.opened = []) (hbackups : m'.backups = []) :
    Moves m m' :=
  .single (.clear hopened hbackups)

/-! ## Scopes -/

theorem moves_closeSilent (depth : Nat) (frames : List Frame) (m : Machine) :
    Moves m (closeSilent depth frames m) := by
  induction frames generalizing m with
  | nil => exact .refl
  | cons frame rest ih =>
      unfold closeSilent
      split
      · exact .head (.close m) (ih m.closeScope)
      · exact .refl

theorem moves_finishScope (m : Machine) (frame : Frame) : Moves m (m.finishScope frame) := by
  have hclose : Moves m m.closeScope := .single (.close m)
  unfold finishScope
  split
  · split
    · exact hclose.trans (moves_of_eq rfl rfl)
    · exact moves_of_clear rfl rfl
  · exact hclose.trans (moves_of_eq rfl rfl)

/-- Where no scope of the depth has to be finished, the innermost one is less deep. -/
theorem innermost_lt_of_filter_eq_none {m : Machine} {depth : Nat} (hdepth : 0 < depth)
    (h : m.opened.head?.filter (depth ≤ ·.depth) = none) : m.innermost.depth < depth := by
  unfold innermost
  cases hopened : m.opened with
  | nil => exact hdepth
  | cons frame rest => simpa [hopened, Option.filter] using h

theorem moves_enterScope (level : Nat) (kind : ScopeKind) (m : Machine) :
    Moves m (after (enterScope level kind m)) := by
  have hsilent := moves_closeSilent (level + 1) m.opened m
  simp only [enterScope]
  generalize closeSilent (level + 1) m.opened m = closed at hsilent
  split
  next frame _ => exact hsilent.trans (moves_finishScope closed frame)
  next hnone =>
    have hdeeper := innermost_lt_of_filter_eq_none (Nat.succ_pos level) hnone
    split
    next hroom => exact hsilent.tail (.enter hdeeper hroom)
    next => exact hsilent

theorem moves_leaveScope (level : Nat) (m : Machine) : Moves m (m.leaveScope level) := by
  have hclose : Moves m m.closeScope := .single (.close m)
  simp only [leaveScope]
  split
  · exact .refl
  · exact hclose.trans (moves_of_eq rfl rfl)

/-! ## Instructions -/

theorem moves_absorb (m b : Machine) : Moves m (m.absorb b) := by
  refine .single (.keep (m.claim b.backups) ?_ rfl rfl)
  intro backup hbackup
  obtain ⟨saved, _, rfl⟩ := List.mem_map.mp hbackup
  rfl

theorem moves_opening (level : Nat) (kind : ScopeKind) {body : Machine → Machine}
    (hbody : ∀ m, Moves m (body m)) (m : Machine) :
    Moves m (after (opening level kind body m)) := by
  have henter := moves_enterScope level kind m
  unfold opening
  split <;> rename_i hresult <;> rw [hresult] at henter
  · exact henter.trans (hbody _)
  · exact henter
  · exact henter

theorem moves_startGuarded (guard : Guard) (test : Slot) (level : Nat) (m : Machine) :
    Moves m (startGuarded guard test level m) := by
  unfold startGuarded
  split
  · exact moves_leaveScope level m
  · split
    · exact moves_of_eq rfl rfl
    · exact .refl
    · exact .refl

theorem moves_controlPerform (op : ControlOp) (i : Instruction) (m : Machine) :
    Moves m (after (op.perform i m)) := by
  cases op with
  | guarded guard =>
      simp only [ControlOp.perform]
      split
      · exact .refl
      · exact moves_opening _ _ (moves_startGuarded _ _ _) m
  | leave => exact moves_leaveScope _ m
  | block => exact moves_opening _ _ (fun _ => .refl) m
  | define =>
      simp only [ControlOp.perform]
      split
      · exact .refl
      next slot _ =>
        refine moves_opening _ _ (fun n => ?_) m
        have hset : Moves n (n.setFunction slot (some n.pointer)) := moves_of_eq rfl rfl
        exact hset.trans (moves_leaveScope _ _)
  | call =>
      simp only [ControlOp.perform]
      split
      · exact .refl
      · refine moves_opening _ _ (fun n => ?_) m
        exact moves_of_eq rfl rfl

theorem moves_dispatch (i : Instruction) (m : Machine) : Moves m (after (dispatch i m)) := by
  unfold dispatch
  split
  · exact .refl
  next e _ =>
    cases e.opcode with
    | data op =>
        simp only [Opcode.perform, dataApply_eq op i m]
        cases op.apply i m.store.machine with
        | ok b => exact moves_absorb m b
        | error fault => exact .refl
    | control op => exact moves_controlPerform op i m

/-! ## Steps -/

theorem moves_arrive (m : Machine) : Moves m m.arrive := by
  unfold arrive
  split
  · exact moves_of_clear rfl rfl
  · exact moves_of_eq rfl rfl

theorem moves_settle (m : Machine) : Moves m (after m.settle) := by
  fun_induction settle m with
  | case1 m => exact moves_arrive m
  | case2 m _ i _ fault next hdispatch =>
      have hnext := moves_dispatch i m.arrive
      rw [hdispatch] at hnext
      exact (moves_arrive m).trans hnext
  | case3 m _ i _ next hdispatch ih =>
      have hnext := moves_dispatch i m.arrive
      rw [hdispatch] at hnext
      exact ((moves_arrive m).trans hnext).trans ih
  | case4 m => exact .refl

theorem moves_execute (i : Instruction) (m : Machine) : Moves m (after (execute i m)) := by
  have hnext := moves_dispatch i { m with pending := false }
  have hready : Moves m { m with pending := false } := moves_of_eq rfl rfl
  unfold execute
  split <;> rename_i hdispatch <;> rw [hdispatch] at hnext
  · exact hready.trans hnext
  · exact (hready.trans hnext).trans (moves_settle _)

theorem moves_step (m : Machine) : Moves m (after (step m)) := by
  unfold step stepBy
  split
  · exact .refl
  next i _ =>
    have hnext := moves_execute i m.arrive
    split <;> rename_i hexecute <;> rw [hexecute] at hnext
    · exact (moves_arrive m).trans hnext
    · exact ((moves_arrive m).trans hnext).trans (moves_of_eq rfl rfl)

theorem moves_run (budget : Nat) (m : Machine) : Moves m (after (run budget m)) :=
  run_preserve (fun next hnext => hnext.trans (moves_step next)) budget .refl

theorem moves_traceFrom (room : Option Nat) (written : String) (count : Nat) (m : Machine) :
    Moves m (traceFrom room written count m).machine :=
  traceFrom_preserve (fun next hnext => hnext.trans (moves_step next)) room written count .refl

theorem moves_onSlot {m : Machine} {f : Slot → Machine} (hf : ∀ slot, Moves m (f slot)) (n : Nat) :
    Moves m (m.onSlot n f) := by
  unfold onSlot
  split
  · exact hf _
  · exact .refl

end Machine

open Machine

/-- A register is saved by hand only for the innermost scope. -/
def savesInnermost (m : Machine) (op : Operation) : Prop :=
  ∀ depth register, op = .pushBackup depth register → depth = m.innermost.depth

/-- Every operation is made of moves, a backup under a foreign depth excepted. -/
theorem moves_operation {m : Machine} {op : Operation} (h : savesInnermost m op) :
    Moves m (op.perform m) := by
  cases op with
  | step => exact moves_step m
  | run budget => exact moves_run budget m
  | execute i => exact moves_execute i m
  | trace room count => exact moves_traceFrom room "" count m
  | enterScope level kind => exact moves_enterScope level kind m
  | closeScope => exact .single (.close m)
  | leaveScope level => exact moves_leaveScope level m
  | rewind | reset | resetHardware => exact moves_of_clear rfl rfl
  | pushNamed name a b c =>
      simp only [Operation.perform, pushNamed]
      split <;> exact moves_of_eq rfl rfl
  | pushBackup depth register =>
      obtain rfl := h depth register rfl
      refine moves_onSlot (fun r => ?_) register
      exact .single (.keep [⟨m.innermost.depth, r, m.register r⟩] (by simp) rfl rfl)
  | setRegister register value =>
      refine moves_onSlot (fun _ => ?_) register
      exact moves_of_eq rfl rfl
  | setCell block key value =>
      refine moves_onSlot (fun _ => ?_) block
      exact moves_of_eq rfl rfl
  | copyBlock source target =>
      refine moves_onSlot (fun _ => moves_onSlot (fun _ => ?_) target) source
      exact moves_of_eq rfl rfl
  | shiftBlock block distance =>
      refine moves_onSlot (fun _ => ?_) block
      exact moves_of_eq rfl rfl
  | setFunction slot position =>
      refine moves_onSlot (fun _ => ?_) slot
      exact moves_of_eq rfl rfl
  | loadBoard => apply moves_of_eq <;> simp only [Operation.perform, loadBoard]
  | _ => exact moves_of_eq rfl rfl

end GenomeMachine
