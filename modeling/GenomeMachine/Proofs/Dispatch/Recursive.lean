import GenomeMachine.Proofs.Dispatch.Outcome
import GenomeMachine.Proofs.Structured.Steps

/-! # The recursive reading of dispatch

An opener that finishes a loop or a function moves the pointer to an instruction that belongs to
the same step. The machine only notes that it is due, and a work loop carries it out once the
opener is through. In the recursive reading no note is taken: the instruction is carried out, with
all that follows from it, before the opener hears that its scope was not opened. The two readings
agree because such an opener does nothing more, and because a fault leaves nothing due. -/

namespace GenomeMachine

open Machine

/-! ## Operations that ask for a scope -/

/-- What an opener does with the answer whether its scope was opened. -/
def Machine.conclude (body : Machine → Machine) :
    EStateM.Result Fault Machine Bool → EStateM.Result Fault Machine Unit
  | .ok true m => .ok () (body m)
  | .ok false m => .ok () m
  | .error fault m => .error fault m

/-- Carries out a control operation, with the answers that it gets when it asks for a scope. -/
def ControlOp.performWith (answer : Nat → ScopeKind → EStateM.Result Fault Machine Bool) :
    ControlOp → Instruction → Action Unit
  | .guarded guard, i => fun m =>
      match m.registerArg i.first with
      | .error fault => .error fault m
      | .ok test =>
          conclude (startGuarded guard test i.second.toNat) (answer i.second.toNat guard.kind)
  | .leave, i => fun m => .ok () (m.leaveScope i.first.toNat)
  | .block, i => fun _ => conclude id (answer i.first.toNat .basic)
  | .define, i => fun m =>
      match slot? i.first.toNat with
      | none => .error (.functionOutOfRange m.pointer i.first) m
      | some slot =>
          conclude (fun n => (n.setFunction slot (some n.pointer)).leaveScope i.second.toNat)
            (answer i.second.toNat .function)
  | .call, i => fun m =>
      match m.callTarget? i.first.toNat with
      | none => .ok () m
      | some (position, level) =>
          conclude (fun n => { n.pushCall (n.pointer + 1) with pointer := position + 1 })
            (answer level .function)

namespace Machine

theorem perform_eq_performWith (op : ControlOp) (i : Instruction) (m : Machine) :
    op.perform i m = op.performWith (enterScope · · m) i m := by
  cases op <;> rfl

/-! ## The recursion -/

/-- Past its end, the genome starts over. -/
def wrap (m : Machine) : Machine :=
  if m.genome.size ≤ m.pointer then m.rewind else m

/-- The answer of a scope that was not opened, after what was carried out instead. -/
def notOpened : EStateM.Result Fault Machine Unit → EStateM.Result Fault Machine Bool
  | .ok () m => .ok false m
  | .error fault m => .error fault m

theorem length_opened_wrap_le (m : Machine) : m.wrap.opened.length ≤ m.opened.length := by
  unfold wrap
  split <;> simp [rewind]

theorem length_opened_closeScope_lt {m : Machine} (h : 0 < m.innermost.depth) :
    m.closeScope.opened.length < m.opened.length := by
  rw [opened_eq_cons h, List.length_cons]
  exact Nat.lt_succ_self _

-- The recursion goes from arriving to dispatching to asking for a scope, all with the same scopes
-- open, and from there on only after a scope was closed.
mutual

/-- Asks for a scope. Where a loop or a function is finished instead, this includes all that is
carried out from there. -/
def enterRec (level : Nat) (kind : ScopeKind) (m : Machine) :
    EStateM.Result Fault Machine Bool :=
  if hdepth : m.innermost.depth < level + 1 then
    if m.frames.length < 16 then .ok true (m.openScope (level + 1) kind)
    else .error (.scopeOverflow m.pointer (level + 1)) m
  else
    match m.innermost.kind with
    | .basic | .root => enterRec level kind m.closeScope
    | .loop => notOpened (arriveRec { m.closeScope with pointer := m.innermost.start })
    | .function =>
        match m.returnPosition? with
        | some position =>
            notOpened (arriveRec { m.closeScope with pointer := position, calls := m.calls.tail })
        | none => notOpened (arriveRec m.rewind)
termination_by 3 * m.opened.length
decreasing_by
  all_goals
    have hclose := length_opened_closeScope_lt (Nat.zero_lt_of_lt (Nat.le_of_not_lt hdepth))
    have hrewind : m.rewind.opened.length = 0 := rfl
    omega

/-- Carries out an instruction, with all that follows from it. -/
def dispatchRec (i : Instruction) (m : Machine) : EStateM.Result Fault Machine Unit :=
  match m.catalog.entry? i.id with
  | none => .error (.unknownInstruction m.pointer i.id) m
  | some e =>
      match e.opcode with
      | .data op => Opcode.perform (.data op) i m
      | .control op => op.performWith (fun level kind => enterRec level kind m) i m
termination_by 3 * m.opened.length + 1

/-- Carries out the instruction at the pointer. An empty genome has none. -/
def arriveRec (m : Machine) : EStateM.Result Fault Machine Unit :=
  match m.wrap.instruction? m.wrap.pointer with
  | none => .ok () m.wrap
  | some i => dispatchRec i m.wrap
termination_by 3 * m.opened.length + 2
decreasing_by
  have hwrap := length_opened_wrap_le m
  omega

end

/-! ## The work loop -/

/-- The end of an instruction: unless there was a fault, what became due is carried out. -/
def settleResult : EStateM.Result Fault Machine Unit → EStateM.Result Fault Machine Unit
  | .error fault m => .error fault m
  | .ok () m => m.settle

/-- The same for an instruction that asked for a scope: where the scope was opened, it goes on
first. -/
def settleAnswer : EStateM.Result Fault Machine Bool → EStateM.Result Fault Machine Bool
  | .error fault m => .error fault m
  | .ok true m => .ok true m
  | .ok false m => notOpened m.settle

theorem execute_eq_settleResult {m : Machine} (i : Instruction) (hm : m.pending = false) :
    execute i m = settleResult (dispatch i m) := by
  rw [execute, set_pending_eq hm]
  cases dispatch i m <;> rfl

/-- Nothing is left to do for an opener whose scope was not opened. -/
theorem conclude_notOpened (body : Machine → Machine)
    (result : EStateM.Result Fault Machine Unit) : conclude body (notOpened result) = result := by
  cases result <;> rfl

/-- Whether what became due is carried out before the opener goes on or after it makes no
difference. -/
theorem conclude_settleAnswer {body : Machine → Machine} {level : Nat} {kind : ScopeKind}
    {m : Machine} (hm : m.pending = false) (hbody : ∀ n, (body n).pending = n.pending) :
    conclude body (settleAnswer (enterScope level kind m)) =
      settleResult (conclude body (enterScope level kind m)) := by
  cases henter : enterScope level kind m with
  | error fault n => rfl
  | ok entered n =>
      cases entered with
      | false => exact conclude_notOpened body n.settle
      | true =>
          have hn : n.pending = m.pending := enterScope_shortens henter
          have hdone : (body n).pending = false := by rw [hbody, hn, hm]
          exact (settle_of_not_pending hdone).symm

theorem performWith_settleAnswer {m : Machine} (op : ControlOp) (i : Instruction)
    (hm : m.pending = false) :
    op.performWith (fun level kind => settleAnswer (enterScope level kind m)) i m =
      settleResult (op.perform i m) := by
  rw [perform_eq_performWith]
  cases op with
  | guarded guard =>
      simp only [ControlOp.performWith]
      split
      · rfl
      · exact conclude_settleAnswer hm (pending_startGuarded _ _ _)
  | leave => exact (settle_of_not_pending ((pending_leaveScope m _).trans hm)).symm
  | block => exact conclude_settleAnswer hm (fun _ => rfl)
  | define =>
      simp only [ControlOp.performWith]
      split
      · rfl
      · exact conclude_settleAnswer hm (fun n => pending_leaveScope (n.setFunction _ _) _)
  | call =>
      simp only [ControlOp.performWith]
      split
      · exact (settle_of_not_pending hm).symm
      · exact conclude_settleAnswer hm (fun _ => rfl)

theorem settleResult_data {m : Machine} (op : DataOp) (i : Instruction) (hm : m.pending = false) :
    settleResult (Opcode.perform (.data op) i m) = Opcode.perform (.data op) i m := by
  simp only [Opcode.perform]
  cases happly : op.apply i m with
  | error fault => rfl
  | ok n => exact settle_of_not_pending ((pending_dataApply happly).trans hm)

/-! ## The readings agree -/

/-- Arriving at an instruction is the same as settling with that instruction due. -/
def ArrivesAlike (m : Machine) : Prop :=
  m.pending = false → arriveRec m = settle { m with pending := true }

section Alike

variable {m : Machine} (hm : m.pending = false)
  (halike : ∀ n : Machine, n.opened.length < m.opened.length → ArrivesAlike n)

include hm halike

/-- Where arriving agrees with fewer scopes open, so does asking for a scope. -/
theorem enterRec_eq (level : Nat) (kind : ScopeKind) :
    enterRec level kind m = settleAnswer (enterScope level kind m) := by
  obtain ⟨_, -, hresolution⟩ := enterScope_resolution level kind m
  generalize enterScope level kind m = result at hresolution
  induction hresolution with
  | enter hdepth hroom =>
      rw [enterRec, dif_pos hdepth, if_pos hroom]
      rfl
  | overflow hdepth hfull =>
      rw [enterRec, dif_pos hdepth, if_neg (Nat.not_lt.mpr hfull)]
      rfl
  | @finish m hdepth hkind =>
      have hshorter := length_opened_closeScope_lt (Nat.zero_lt_of_lt hdepth)
      rw [enterRec, dif_neg (Nat.not_lt.mpr hdepth)]
      -- What is left is to arrive where the finished scope leads, with fewer scopes open.
      change _ = notOpened (settle (m.finishScope m.innermost))
      rcases hkind with hkind | hkind
      · have hback := halike { m.closeScope with pointer := m.innermost.start } hshorter
          ((pending_closeScope m).trans hm)
        simp only [hkind, hback, finishScope, reduceCtorEq, if_false]
      · cases hreturn : m.returnPosition? with
        | none =>
            have hrewind := halike m.rewind (Nat.zero_lt_of_lt hshorter) hm
            simp only [hkind, hreturn, hrewind, finishScope, if_true]
        | some position =>
            have hback := halike
              { m.closeScope with pointer := position, calls := m.calls.tail } hshorter
              ((pending_closeScope m).trans hm)
            simp only [hkind, hreturn, hback, finishScope, if_true]
  | @retry m _ _ hdepth hkind _ ih =>
      have hshorter := length_opened_closeScope_lt (Nat.zero_lt_of_lt hdepth)
      have hretry := ih ((pending_closeScope m).trans hm)
        (fun n hn => halike n (Nat.lt_trans hn hshorter))
      rw [enterRec, dif_neg (Nat.not_lt.mpr hdepth)]
      rcases hkind with hkind | hkind <;> simp only [hkind, hretry]

theorem dispatchRec_eq (i : Instruction) : dispatchRec i m = settleResult (dispatch i m) := by
  rw [dispatchRec, dispatch]
  cases m.catalog.entry? i.id with
  | none => rfl
  | some e =>
      cases hcode : e.opcode with
      | data op => simp only [hcode, settleResult_data op i hm]
      | control op =>
          simp only [hcode, enterRec_eq hm halike]
          exact performWith_settleAnswer op i hm

end Alike

theorem arrive_eq_wrap {m : Machine} (hm : m.pending = false) :
    { m with pending := true }.arrive = m.wrap := by
  unfold arrive wrap
  split
  · exact set_pending_eq (m := m.rewind) hm
  · exact set_pending_eq hm

theorem pending_wrap (m : Machine) : m.wrap.pending = m.pending := by
  unfold wrap
  split <;> rfl

theorem arrivesAlike (m : Machine) : ArrivesAlike m := by
  -- What an instruction finishes leaves fewer open scopes to whatever comes after it.
  induction hlength : m.opened.length using Nat.strongRecOn generalizing m with
  | ind length ih =>
      intro hm
      have hwrap : m.wrap.pending = false := (pending_wrap m).trans hm
      have halike : ∀ n : Machine, n.opened.length < m.wrap.opened.length → ArrivesAlike n :=
        fun n hn => ih _ (hlength ▸ Nat.lt_of_lt_of_le hn (length_opened_wrap_le m)) n rfl
      rw [arriveRec]
      cases hfetch : m.wrap.instruction? m.wrap.pointer with
      | none => rw [settle, if_pos rfl, arrive_eq_wrap hm, hfetch]
      | some i =>
          rw [settle_of_pending rfl (by rwa [arrive_eq_wrap hm]), arrive_eq_wrap hm,
            execute_eq_settleResult i hwrap]
          exact dispatchRec_eq hwrap halike i

end Machine

/-- The work loop does what the recursion does: it ends the same way, and on the same machine. -/
theorem execute_eq_dispatchRec (i : Instruction) (m : Machine) :
    execute i m = dispatchRec i { m with pending := false } := by
  have hclear : execute i m = execute i { m with pending := false } := rfl
  rw [hclear, execute_eq_settleResult i rfl]
  exact (dispatchRec_eq rfl (fun n _ => arrivesAlike n) i).symm

end GenomeMachine
