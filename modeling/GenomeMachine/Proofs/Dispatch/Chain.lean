import GenomeMachine.Proofs.Catalog.Standard
import GenomeMachine.Proofs.Scope.Resolution

/-! # Chains of instructions within one step

Carrying out an instruction can make the next one due, and that one another. `Execution` states
the rules of this work loop and records what it carries out. Each instruction that was due finds
fewer open scopes than the one before it, which bounds the record. -/

namespace GenomeMachine

namespace Machine

/-- An instruction about to be carried out, and the machine it finds. -/
structure Dispatched where
  machine : Machine
  instruction : Instruction

/-- An instruction is carried out, and then what is due, until nothing is. -/
inductive Execution : Instruction → Machine → List Dispatched →
    EStateM.Result Fault Machine Unit → Prop where
  | fault {i : Instruction} {m m' : Machine} {fault : Fault}
      (hdispatch : dispatch i m = .error fault m') : Execution i m [⟨m, i⟩] (.error fault m')
  | finished {i : Instruction} {m m' : Machine} (hdispatch : dispatch i m = .ok () m')
      (hpending : m'.pending = false) : Execution i m [⟨m, i⟩] (.ok () m')
  | nowhere {i : Instruction} {m m' : Machine} (hdispatch : dispatch i m = .ok () m')
      (hpending : m'.pending = true)
      (hnone : m'.arrive.instruction? m'.arrive.pointer = none) :
      Execution i m [⟨m, i⟩] (.ok () m'.arrive)
  | again {i j : Instruction} {m m' : Machine} {log : List Dispatched}
      {result : EStateM.Result Fault Machine Unit} (hdispatch : dispatch i m = .ok () m')
      (hpending : m'.pending = true)
      (hsome : m'.arrive.instruction? m'.arrive.pointer = some j) :
      Execution j m'.arrive log result → Execution i m (⟨m, i⟩ :: log) result

/-! ## The work loop follows the rules -/

theorem execution_of_dispatch {i : Instruction} {m next : Machine}
    (hdispatch : dispatch i m = .ok () next) : ∃ log, Execution i m log next.settle := by
  fun_induction settle next generalizing i m with
  | case1 next hpending hnone => exact ⟨_, .nowhere hdispatch hpending hnone⟩
  | case2 next hpending j hsome fault last hfault =>
      exact ⟨_, .again hdispatch hpending hsome (.fault hfault)⟩
  | case3 next hpending j hsome last hlast ih =>
      obtain ⟨log, hlog⟩ := ih hlast
      exact ⟨_, .again hdispatch hpending hsome hlog⟩
  | case4 next hpending => exact ⟨_, .finished hdispatch (by simpa using hpending)⟩

theorem execute_execution (i : Instruction) (m : Machine) :
    ∃ log, Execution i { m with pending := false } log (execute i m) := by
  unfold execute
  split
  next hfault => exact ⟨_, .fault hfault⟩
  next hdispatch => exact execution_of_dispatch hdispatch

/-- The rules leave no choice. -/
theorem Execution.unique {i : Instruction} {m : Machine} {log log' : List Dispatched}
    {result result' : EStateM.Result Fault Machine Unit} (h : Execution i m log result)
    (h' : Execution i m log' result') : log' = log ∧ result' = result := by
  induction h generalizing log' result' with
  | fault hdispatch => cases h' <;> simp_all
  | finished hdispatch hpending => cases h' <;> simp_all
  | nowhere hdispatch hpending hnone => cases h' <;> simp_all
  | again hdispatch hpending hsome _ ih =>
      cases h' with
      | fault hdispatch' => simp [hdispatch] at hdispatch'
      | finished hdispatch' hpending' => simp_all
      | nowhere hdispatch' hpending' hnone' => simp_all
      | again hdispatch' hpending' hsome' hrest =>
          cases hdispatch.symm.trans hdispatch'
          cases hsome.symm.trans hsome'
          obtain ⟨rfl, rfl⟩ := ih hrest
          exact ⟨rfl, rfl⟩

/-! ## How far a chain can go -/

theorem length_frames (m : Machine) : m.frames.length = m.opened.length + 1 := by
  simp [frames]

/-- What is due after an instruction finds fewer open scopes than the instruction did. -/
theorem length_frames_arrive_lt {i : Instruction} {m m' : Machine} (hm : m.pending = false)
    (hdispatch : dispatch i m = .ok () m') (hpending : m'.pending = true) :
    m'.arrive.frames.length < m.frames.length := by
  have hshorter := dispatch_shortens hdispatch hm hpending
  have harrive := length_opened_arrive_le m'
  rw [length_frames, length_frames]
  omega

/-- The scopes that the instructions of a chain find get fewer and fewer. -/
theorem Execution.shortens {i : Instruction} {m : Machine} {log : List Dispatched}
    {result : EStateM.Result Fault Machine Unit} (h : Execution i m log result)
    (hm : m.pending = false) :
    log.Pairwise (fun earlier later =>
        later.machine.frames.length < earlier.machine.frames.length) ∧
      ∀ d ∈ log, d.machine.frames.length ≤ m.frames.length := by
  induction h with
  | fault | finished | nowhere => simp
  | again hdispatch hpending hsome _ ih =>
      have hshorter := length_frames_arrive_lt hm hdispatch hpending
      obtain ⟨hordered, hle⟩ := ih (pending_arrive _)
      refine ⟨List.pairwise_cons.mpr ⟨?_, hordered⟩, ?_⟩
      · intro d hd
        exact Nat.lt_of_le_of_lt (hle d hd) hshorter
      · intro d hd
        rcases List.mem_cons.mp hd with rfl | hd
        · exact Nat.le_refl _
        · exact Nat.le_of_lt (Nat.lt_of_le_of_lt (hle d hd) hshorter)

theorem Execution.length_le {i : Instruction} {m : Machine} {log : List Dispatched}
    {result : EStateM.Result Fault Machine Unit} (h : Execution i m log result)
    (hm : m.pending = false) : log.length ≤ m.frames.length := by
  induction h with
  | fault | finished | nowhere => simp [frames]
  | again hdispatch hpending hsome _ ih =>
      have hshorter := length_frames_arrive_lt hm hdispatch hpending
      have hlength := ih (pending_arrive _)
      rw [List.length_cons]
      omega

/-! ## Nothing stays due -/

theorem pending_enterScope_error {level : Nat} {kind : ScopeKind} {m m' : Machine} {fault : Fault}
    (h : enterScope level kind m = .error fault m') : m'.pending = m.pending := by
  have hsilent := pending_closeSilent (level + 1) m.opened m
  simp only [enterScope] at h
  split at h
  · cases h
  · split at h
    · cases h
    · cases h
      exact hsilent

theorem pending_opening_error {level : Nat} {kind : ScopeKind} {body : Machine → Machine}
    {m m' : Machine} {fault : Fault} (h : opening level kind body m = .error fault m') :
    m'.pending = m.pending := by
  unfold opening at h
  split at h
  · cases h
  · cases h
  next hfault =>
    cases h
    exact pending_enterScope_error hfault

theorem pending_controlPerform_error {op : ControlOp} {i : Instruction} {m m' : Machine}
    {fault : Fault} (h : op.perform i m = .error fault m') : m'.pending = m.pending := by
  cases op with
  | guarded guard =>
      simp only [ControlOp.perform] at h
      split at h
      · cases h
        rfl
      · exact pending_opening_error h
  | leave => cases h
  | block => exact pending_opening_error h
  | define =>
      simp only [ControlOp.perform] at h
      split at h
      · cases h
        rfl
      · exact pending_opening_error h
  | call =>
      simp only [ControlOp.perform] at h
      split at h
      · cases h
      · exact pending_opening_error h

theorem pending_dispatch_error {i : Instruction} {m m' : Machine} {fault : Fault}
    (h : dispatch i m = .error fault m') : m'.pending = m.pending := by
  unfold dispatch at h
  split at h
  · cases h
    rfl
  next e _ =>
    match hop : e.opcode with
    | .data op =>
        simp only [hop, Opcode.perform] at h
        split at h
        · cases h
        · cases h
          rfl
    | .control op =>
        simp only [hop, Opcode.perform] at h
        exact pending_controlPerform_error h

theorem Execution.pending_after {i : Instruction} {m : Machine} {log : List Dispatched}
    {result : EStateM.Result Fault Machine Unit} (h : Execution i m log result)
    (hm : m.pending = false) : (after result).pending = false := by
  induction h with
  | fault hdispatch => exact (pending_dispatch_error hdispatch).trans hm
  | finished _ hpending => exact hpending
  | nowhere => exact pending_arrive _
  | again _ _ _ _ ih => exact ih (pending_arrive _)

end Machine

open Machine

/-- Resolution of a scope ends, with at most one comparison for each open scope. An instruction is
carried out together with what it makes due, in one way only, by at most one dispatch for each open
scope. Every dispatch finds fewer scopes than the one before it, and in the end nothing is due,
also after a fault. -/
theorem reachable_execution {catalog : Catalog} {m : Machine}
    (h : Reachable anyOperation catalog m) (i : Instruction) :
    (∀ (n : Machine) (level : Nat) (kind : ScopeKind), ∃ comparisons,
        comparisons ≤ n.frames.length ∧
        Resolution level kind n comparisons (enterScope level kind n)) ∧
      (∃ log,
        (∀ log' result, Execution i { m with pending := false } log' result ↔
          log' = log ∧ result = execute i m) ∧
        log.length ≤ m.frames.length ∧ m.frames.length ≤ 16 ∧
        log.Pairwise (fun earlier later =>
          later.machine.frames.length < earlier.machine.frames.length)) ∧
      (after (execute i m)).pending = false := by
  obtain ⟨log, hlog⟩ := execute_execution i m
  refine ⟨fun n level kind => enterScope_resolution level kind n, ⟨log, ?_, ?_, ?_, ?_⟩, ?_⟩
  · intro log' result
    constructor
    · exact hlog.unique
    · rintro ⟨rfl, rfl⟩
      exact hlog
  · exact hlog.length_le rfl
  · exact (nested_of_reachable h).length_le
  · exact (hlog.shortens rfl).1
  · exact hlog.pending_after rfl

/-! ## The bound is attained -/

/-- The opener of the outermost scope. -/
def outermostScope : Instruction := ⟨16, 0, 0, 0⟩

/-- A machine inside function scopes that all return to the one instruction of the genome, where
the next of them is finished. -/
def returning (scopes : Nat) : Machine :=
  { Machine.new .standard #[outermostScope] with
    opened := (List.range scopes).reverse.map fun n => ⟨n + 1, .function, 0⟩
    calls := List.replicate scopes 0 }

theorem opened_returning_succ (n : Nat) :
    (returning (n + 1)).opened = ⟨n + 1, .function, 0⟩ :: (returning n).opened := by
  simp [returning, List.range_succ]

theorem dispatch_outermostScope {m : Machine} (hcatalog : m.catalog = .standard) :
    dispatch outermostScope m = opening 0 .basic id m := by
  have hentry : m.catalog.entry? outermostScope.id = _ :=
    hcatalog ▸ Catalog.entry?_standard outermostScope.id
  rw [dispatch, hentry]
  rfl

theorem dispatch_returning_zero :
    dispatch outermostScope (returning 0) =
      .ok () { returning 0 with opened := [⟨1, .basic, 0⟩] } := by
  rw [dispatch_outermostScope (by simp only [returning, new]), opening,
    enterScope_of_lt .basic (by decide), if_pos (by decide)]
  rfl

theorem dispatch_returning_succ (n : Nat) :
    dispatch outermostScope (returning (n + 1)) = .ok () { returning n with pending := true } := by
  have hopened := opened_returning_succ n
  have hinnermost : (returning (n + 1)).innermost = ⟨n + 1, .function, 0⟩ := by
    simp [innermost, hopened]
  have hreturn : (returning (n + 1)).returnPosition? = some 0 := rfl
  rw [dispatch_outermostScope (by simp only [returning, new]), opening,
    enterScope_of_not_silent .basic (by simp [hinnermost])
      (by simp [hinnermost, ScopeKind.closesSilently])]
  simp only [hinnermost, finishScope, hreturn, closeScope, hopened, if_true]
  rfl

/-- Each of the scopes takes one dispatch to return from, and the last dispatch opens a scope. -/
theorem execution_returning (n : Nat) :
    ∃ log result, Execution outermostScope (returning n) log result ∧ log.length = n + 1 := by
  induction n with
  | zero => exact ⟨_, _, .finished dispatch_returning_zero rfl, rfl⟩
  | succ n ih =>
      obtain ⟨log, result, hlog, hlength⟩ := ih
      refine ⟨_, _, .again (dispatch_returning_succ n) rfl ?_ hlog, by simp [hlength]⟩
      rfl

theorem innermost_returning (n : Nat) : (returning n).innermost.depth = n := by
  cases n with
  | zero => rfl
  | succ n => simp [innermost, opened_returning_succ]

theorem length_frames_returning (n : Nat) : (returning n).frames.length = n + 1 := by
  simp [length_frames, returning]

theorem reachable_returning {n : Nat} (hn : n ≤ 15) :
    Reachable anyOperation .standard (returning n) := by
  induction n with
  | zero => exact .new #[outermostScope]
  | succ n ih =>
      have henter : Operation.perform (.enterScope n .function) (returning n) =
          { returning n with opened := (returning (n + 1)).opened } := by
        have hlength := length_frames_returning n
        rw [Operation.perform, enterScope_of_lt .function (by rw [innermost_returning]; omega),
          if_pos (by omega), opened_returning_succ]
        rfl
      have hopen := (ih (by omega)).perform (.enterScope n .function) trivial
      rw [henter] at hopen
      exact hopen.perform (.pushCall 0) trivial

theorem returning_pending (n : Nat) : { returning n with pending := false } = returning n := rfl

/-- With all sixteen scopes open, sixteen dispatches in one go do happen. -/
theorem returning_execution :
    (returning 15).frames.length = 16 ∧
      (∃ log, Execution outermostScope (returning 15) log (execute outermostScope (returning 15)) ∧
        log.length = 16) ∧
      (after (execute outermostScope (returning 15))).pending = false := by
  obtain ⟨_, ⟨_, hunique, _⟩, hpending⟩ :=
    reachable_execution (reachable_returning (Nat.le_refl 15)) outermostScope
  obtain ⟨log, result, hlog, hlength⟩ := execution_returning 15
  rw [returning_pending] at hunique
  have hresult := ((hunique log result).mp hlog).2
  rw [hresult] at hlog
  exact ⟨by rw [length_frames_returning], ⟨log, hlog, hlength⟩, hpending⟩

end GenomeMachine
