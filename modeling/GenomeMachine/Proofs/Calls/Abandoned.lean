import GenomeMachine.Proofs.Calls.Returns

/-! # Abandoned functions

A break that leaves a function scope leaves the return position of the function behind. Nothing
else does: the return positions match the function scopes exactly until that happens for the first
time. Positions left behind can pile up without end. -/

namespace GenomeMachine

namespace Machine

/-! ## No function without a return position -/

/-- The open functions have their return positions on the stack of calls, in the same order. -/
def Covered (m : Machine) : Prop :=
  (m.functionFrames.map (·.start + 1)).Sublist m.calls

theorem Aligned.covered {m : Machine} (h : Aligned m) : Covered m := by
  unfold Aligned at h
  unfold Covered
  exact h ▸ List.Sublist.refl _

theorem phases_covered : Phases Covered Covered where
  arrive m h := by
    unfold arrive
    split
    · exact .slnil
    · exact h
  rest _ h := h
  advance _ h := h

theorem Covered.dispatch {m : Machine} (h : Covered m) (i : Instruction) :
    Covered (after (Machine.dispatch i m)) := by
  unfold Covered at h ⊢
  cases dispatch_callChange i m with
  | keep hcalls hframes => rwa [hcalls, hframes]
  | call frame hcalls hframes =>
      rw [hcalls, hframes, List.map_cons]
      exact h.cons_cons _
  | back position frame hcalls hframes =>
      rw [hcalls, hframes, List.map_cons] at h
      exact h.tail
  | clear hcalls hframes =>
      rw [hcalls, hframes]
      exact .slnil
  | abandon _ hcalls hframes =>
      rw [hframes, List.map_cons] at h
      rw [hcalls]
      exact (List.sublist_cons_self _ _).trans h

theorem covered_stateAt (genome : Genome) (inputs : Cells) (n : Nat) :
    Covered (stateAt genome inputs n) ∧
      ∀ d, Carries (stateAt genome inputs n) d → Covered d.machine :=
  stateAt_preserve phases_covered (aligned_initial genome inputs).covered
    (fun _ d _ h => h.dispatch d.instruction) n

/-! ## Where the stacks come apart -/

/-- A step that abandons a function ends with it, and has a return position left over. -/
theorem Carries.calls_of_abandons {m : Machine} {d : Dispatched} (h : Carries m d)
    (hcovered : Covered d.machine) (habandons : Abandons d.instruction d.machine) :
    (after (step m)).functionFrames.length < (after (step m)).calls.length := by
  obtain ⟨hop, hkind, hdepth⟩ := habandons
  have hdispatch : dispatch d.instruction d.machine =
      .ok () (d.machine.leaveScope d.instruction.first.toNat) := by
    rw [dispatch_of_opcode? hop]
    rfl
  have hframes := functionFrames_cons (opened_eq_cons_leaveScope hdepth)
  have hlength := hcovered.length_le
  rw [if_pos hkind] at hframes
  rw [List.length_map, hframes, List.length_cons] at hlength
  rw [← calls_leaveScope d.machine d.instruction.first.toNat] at hlength
  rw [h.step_eq_last hdispatch (by simpa using h.fetched.1), after_ok]
  exact hlength

/-- Up to the first function that is abandoned, the stacks are aligned. -/
theorem aligned_of_not_abandons {genome : Genome} {inputs : Cells} {count : Nat}
    (h : ∀ n < count, ∀ d, Carries (stateAt genome inputs n) d →
      ¬Abandons d.instruction d.machine) : Aligned (stateAt genome inputs count) := by
  induction count with
  | zero => exact aligned_initial genome inputs
  | succ n ih =>
      refine (step_preserve phases_aligned ?_ (ih fun k hk => h k (by omega))).1
      intro d hd haligned
      exact haligned.dispatch (h n (by omega) d hd)

end Machine

open Machine

/-- In any case the return positions of the open functions are among the calls, in order. There
are no others exactly as long as no break has left a function scope. -/
theorem length_calls_eq_iff (genome : Genome) (inputs : Cells) (count : Nat) :
    (∀ n, ((stateAt genome inputs n).functionFrames.map (·.start + 1)).Sublist
        (stateAt genome inputs n).calls) ∧
      ((∀ n ≤ count, (stateAt genome inputs n).calls.length =
          (stateAt genome inputs n).functionFrames.length) ↔
        ∀ n < count, ∀ d, Carries (stateAt genome inputs n) d →
          ¬Abandons d.instruction d.machine) := by
  refine ⟨fun n => (covered_stateAt genome inputs n).1, ?_, ?_⟩
  · intro hmatch n hn d hd habandons
    have hleft := hd.calls_of_abandons ((covered_stateAt genome inputs n).2 d hd) habandons
    have hsame := hmatch (n + 1) hn
    rw [stateAt_succ] at hsame
    omega
  · intro hnone n hn
    have haligned := aligned_of_not_abandons fun k hk => hnone k (Nat.lt_of_lt_of_le hk hn)
    rw [haligned, List.length_map]

/-! ## A function that is abandoned over and over -/

/-- A function whose body is a break, and a scope with a call of it. -/
def breakOut : Genome :=
  #[⟨17, 0, 0, 0⟩, ⟨0, 0, 0, 0⟩, ⟨15, 0, 0, 0⟩, outermostScope, ⟨18, 0, 0, 0⟩]

/-- The machine that is about to open the scope around the call. -/
def breakOutAt (calls : List Nat) : Machine :=
  { (initial breakOut ∅).setFunction ⟨0, by decide⟩ (some 0) with pointer := 3, calls := calls }

/-- The machine that is about to call the function. -/
def breakOutCalling (calls : List Nat) : Machine :=
  { breakOutAt calls with opened := [⟨1, .basic, 3⟩], pointer := 4 }

/-- The machine that is about to break out of the function. -/
def breakOutInside (calls : List Nat) : Machine :=
  { breakOutAt (5 :: calls) with opened := [⟨1, .function, 4⟩], pointer := 2 }

section BreakOut

variable (calls : List Nat)

theorem catalog_breakOutAt : (breakOutAt calls).catalog = .standard := by
  simp only [breakOutAt, setFunction, initial, new]

theorem leaveScope_breakOut {m : Machine} (hcatalog : m.catalog = .standard)
    (hgenome : m.genome = breakOut) (hpointer : m.pointer = 0 ∨ m.pointer = 2)
    (hdepth : m.innermost.depth = 1) : m.leaveScope 0 = { m.closeScope with pointer := 2 } := by
  have hopener : m.nextOpener? 1 = some 3 := by
    simp only [nextOpener?, hcatalog, hgenome, Catalog.openedDepth, Catalog.scopeRule?,
      Catalog.entry?_standard]
    rcases hpointer with h | h <;> rw [h] <;> decide +kernel
  simp [leaveScope, hdepth, hopener]

theorem step_breakOutAt : step (breakOutAt calls) = .ok () (breakOutCalling calls) := by
  have hop : (breakOutAt calls).opcode? outermostScope = some (.control .block) :=
    (opcode?_eq_iff (catalog_breakOutAt calls)).mpr (performs_iff.mpr rfl)
  have hdispatch := (Reaches.block hop).dispatch_enter (closeFinished_of_lt Nat.zero_lt_one)
    Nat.zero_lt_one (show 1 < 16 by decide)
  exact step_of_dispatch rfl (show breakOut[3]? = some outermostScope from rfl) hdispatch rfl

theorem callTarget?_breakOut : (breakOutCalling calls).callTarget? 0 = some (0, 0) := by
  have hdefine : Instruction.Performs ⟨17, 0, 0, 0⟩ .define := performs_iff.mpr rfl
  have hfunction : (breakOutCalling calls).function? 0 = some 0 := rfl
  have hdefinition : (breakOutCalling calls).instruction? 0 = some ⟨17, 0, 0, 0⟩ := rfl
  have hcatalog : (breakOutCalling calls).catalog = .standard := catalog_breakOutAt calls
  simp only [callTarget?, hfunction, hdefinition, hcatalog, Option.bind_eq_bind, Option.bind_some,
    scopeRule?_of_define hdefine]
  rfl

theorem step_breakOutCalling :
    step (breakOutCalling calls) = .ok () (breakOutInside calls) := by
  have hop : (breakOutCalling calls).opcode? ⟨18, 0, 0, 0⟩ = some (.control .call) :=
    (opcode?_eq_iff (catalog_breakOutAt calls)).mpr (performs_iff.mpr rfl)
  have hclosed : (breakOutCalling calls).closeFinished 0 = (breakOutCalling calls).closeScope := by
    rw [closeFinished_of_silent Nat.zero_lt_one rfl, closeFinished_of_lt Nat.zero_lt_one]
  have hdispatch := (Reaches.call hop (callTarget?_breakOut calls)).dispatch_enter hclosed
    Nat.zero_lt_one (show 1 < 16 by decide)
  exact step_of_dispatch rfl (show breakOut[4]? = some ⟨18, 0, 0, 0⟩ from rfl) hdispatch rfl

/-- The break leads back to where the call was made, with its return position still there. -/
theorem step_breakOutInside :
    step (breakOutInside calls) = .ok () (breakOutAt (5 :: calls)) := by
  have hcatalog : (breakOutInside calls).catalog = .standard := catalog_breakOutAt (5 :: calls)
  have hop : (breakOutInside calls).opcode? ⟨15, 0, 0, 0⟩ = some (.control .leave) :=
    (opcode?_eq_iff hcatalog).mpr (performs_iff.mpr rfl)
  have hdispatch : dispatch ⟨15, 0, 0, 0⟩ (breakOutInside calls) =
      .ok () { breakOutAt (5 :: calls) with pointer := 2 } := by
    rw [dispatch_of_opcode? hop]
    exact congrArg (EStateM.Result.ok ()) (leaveScope_breakOut hcatalog rfl (.inr rfl) rfl)
  exact step_of_dispatch rfl (show breakOut[2]? = some ⟨15, 0, 0, 0⟩ from rfl) hdispatch rfl

end BreakOut

/-- The definition is skipped. -/
theorem step_breakOut : step (initial breakOut ∅) = .ok () (breakOutAt []) := by
  have hcatalog : (initial breakOut ∅).catalog = .standard := by simp only [initial, new]
  have hop : (initial breakOut ∅).opcode? ⟨17, 0, 0, 0⟩ = some (.control .define) :=
    (opcode?_eq_iff hcatalog).mpr (performs_iff.mpr rfl)
  have hdispatch := (Reaches.define hop rfl).dispatch_enter (closeFinished_of_lt Nat.zero_lt_one)
    Nat.zero_lt_one (show 1 < 16 by decide)
  have hleave := leaveScope_breakOut
    (m := ((initial breakOut ∅).openScope 1 .function).setFunction 0 (some 0))
    hcatalog rfl (.inl rfl) rfl
  exact step_of_dispatch rfl (show breakOut[0]? = some ⟨17, 0, 0, 0⟩ from rfl)
    (hdispatch.trans (congrArg (EStateM.Result.ok ()) hleave)) rfl

/-- Every round takes three steps and leaves one return position behind. -/
theorem stateAt_breakOut (k : Nat) :
    stateAt breakOut ∅ (3 * k + 1) = breakOutAt (List.replicate k 5) := by
  induction k with
  | zero =>
      rw [stateAt_succ, Nat.mul_zero, stateAt_zero, step_breakOut, after_ok, List.replicate_zero]
  | succ k ih =>
      have hround : 3 * (k + 1) + 1 = 3 * k + 1 + 1 + 1 + 1 := by omega
      rw [hround, stateAt_succ, stateAt_succ, stateAt_succ, ih, step_breakOutAt, after_ok,
        step_breakOutCalling, after_ok, step_breakOutInside, after_ok, List.replicate_succ]

/-- Return positions pile up without end while no function is open. -/
theorem length_calls_breakOut (k : Nat) :
    (stateAt breakOut ∅ (3 * k + 1)).calls.length = k ∧
      (stateAt breakOut ∅ (3 * k + 1)).functionFrames = [] := by
  rw [stateAt_breakOut]
  exact ⟨List.length_replicate, rfl⟩

/-- Return positions and function scopes do not always match. -/
theorem not_length_calls_eq :
    ((stateAt breakOut ∅ 4).calls.length = 1 ∧ (stateAt breakOut ∅ 4).functionFrames = []) ∧
      ¬∀ genome inputs n, (stateAt genome inputs n).calls.length =
        (stateAt genome inputs n).functionFrames.length := by
  have hbreak := length_calls_breakOut 1
  refine ⟨hbreak, ?_⟩
  intro h
  have hsame := h breakOut ∅ 4
  rw [hbreak.1, hbreak.2] at hsame
  cases hsame

end GenomeMachine
