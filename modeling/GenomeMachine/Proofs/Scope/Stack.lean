import GenomeMachine.Catalog.Standard
import GenomeMachine.Proofs.Scope.Moves

/-! # The scope stack

Open scopes get strictly deeper from the root inward, and there are never more than sixteen of
them. Both survive every operation on a machine, whatever it does to the genome and the pointer. -/

namespace GenomeMachine

namespace Machine

/-- The innermost scope stands on top of the stack. -/
theorem frames_eq_cons (m : Machine) : ∃ outer, m.frames = m.innermost :: outer := by
  unfold frames innermost
  cases m.opened with
  | nil => exact ⟨[], rfl⟩
  | cons frame rest => exact ⟨rest ++ [.root], rfl⟩

theorem innermost_mem_frames (m : Machine) : m.innermost ∈ m.frames := by
  obtain ⟨outer, houter⟩ := m.frames_eq_cons
  simp [houter]

/-- The stack of open scopes, the innermost one first, is bounded and strictly ordered. -/
structure Nested (m : Machine) : Prop where
  length_le : m.frames.length ≤ 16
  ordered : m.frames.Pairwise (fun inner outer => outer.depth < inner.depth)

theorem nested_new (catalog : Catalog) (genome : Genome) : Nested (new catalog genome) :=
  ⟨by simp [frames, new], by simp [frames, new]⟩

/-- No open scope is deeper than the innermost one. -/
theorem Nested.depth_le {m : Machine} (h : Nested m) {frame : Frame} (hframe : frame ∈ m.frames) :
    frame.depth ≤ m.innermost.depth := by
  obtain ⟨outer, houter⟩ := m.frames_eq_cons
  have hordered := h.ordered
  rw [houter] at hordered hframe
  rcases List.mem_cons.mp hframe with rfl | hframe
  · exact Nat.le_refl _
  · exact Nat.le_of_lt (List.rel_of_pairwise_cons hordered hframe)

/-- The machine has other frames only in that some innermost ones are gone. -/
theorem Nested.of_suffix {m m' : Machine} (h : Nested m) (hsuffix : m'.frames <:+ m.frames) :
    Nested m' :=
  ⟨Nat.le_trans hsuffix.length_le h.length_le, h.ordered.sublist hsuffix.sublist⟩

theorem frames_closeScope_suffix (m : Machine) : m.closeScope.frames <:+ m.frames := by
  unfold frames
  rw [opened_closeScope]
  exact List.suffix_append_self_iff.mpr m.opened.tail_suffix

/-- Every move keeps the scopes nested. -/
theorem Nested.move {m m' : Machine} (hmove : Move m m') (h : Nested m) : Nested m' := by
  cases hmove with
  | keep saved hsaved hopened hbackups =>
      have hframes : m'.frames = m.frames := by rw [frames, hopened, frames]
      exact h.of_suffix (hframes ▸ List.suffix_refl _)
  | enter hdeeper hroom =>
      refine ⟨hroom, List.pairwise_cons.mpr ⟨?_, h.ordered⟩⟩
      intro frame hframe
      exact Nat.lt_of_le_of_lt (h.depth_le hframe) hdeeper
  | close => exact h.of_suffix (frames_closeScope_suffix m)
  | clear hopened hbackups =>
      have hframes : m'.frames = [Frame.root] := by rw [frames, hopened]; rfl
      exact ⟨by simp [hframes], by simp [hframes]⟩

end Machine

open Machine

/-- A backup under a foreign depth is no move, but it leaves the scopes alone. -/
theorem nested_operation {m : Machine} (op : Operation) (h : Nested m) : Nested (op.perform m) := by
  by_cases hop : savesInnermost m op
  · exact (moves_operation hop).preserve Nested.move h
  · simp only [savesInnermost, Classical.not_forall] at hop
    obtain ⟨depth, register, rfl, _⟩ := hop
    refine h.of_suffix ?_
    simp only [Operation.perform, onSlot]
    split <;> exact List.suffix_refl _

theorem nested_of_reachable {allowed : Machine → Operation → Prop} {catalog : Catalog} {m : Machine}
    (h : Reachable allowed catalog m) : Nested m := by
  induction h with
  | new genome => exact nested_new catalog genome
  | perform op _ _ ih => exact nested_operation op ih

/-- However a machine was used, between one and sixteen scopes are open, the outermost is the
root, depths increase strictly inward, and every backup is of a register that exists. -/
theorem reachable_scope_stack {catalog : Catalog} {m : Machine}
    (h : Reachable anyOperation catalog m) :
    (1 ≤ m.frames.length ∧ m.frames.length ≤ 16) ∧
      m.frames.getLast? = some ⟨0, .root, 0⟩ ∧
      m.frames.Pairwise (fun inner outer => outer.depth < inner.depth) ∧
      ∀ b ∈ m.backups, b.register.val < 16 := by
  have hnested := nested_of_reachable h
  refine ⟨⟨?_, hnested.length_le⟩, ?_, hnested.ordered, ?_⟩
  · simp [frames]
  · simp [frames, Frame.root]
  · intro b _
    exact b.register.isLt

/-- More scopes than there is room for, and a backup of a register for a scope that is not open. -/
def crowdedMachine : Machine :=
  Operation.performAll ((List.range 20).map (Operation.enterScope · .loop) ++ [.pushBackup 40 3])
    (Machine.new .standard #[])

theorem crowdedMachine_scope_stack :
    (crowdedMachine.frames.length = 16 ∧ crowdedMachine.backups.map (·.depth) = [40]) ∧
      (1 ≤ crowdedMachine.frames.length ∧ crowdedMachine.frames.length ≤ 16) ∧
      crowdedMachine.frames.getLast? = some ⟨0, .root, 0⟩ ∧
      crowdedMachine.frames.Pairwise (fun inner outer => outer.depth < inner.depth) ∧
      ∀ b ∈ crowdedMachine.backups, b.register.val < 16 :=
  ⟨by decide, reachable_scope_stack ((Reachable.new #[]).performAll fun _ _ _ => trivial)⟩

end GenomeMachine
