import GenomeMachine.Proofs.Run.Prediction
import GenomeMachine.Proofs.Scope.Backups
import GenomeMachine.Proofs.Scope.Meaning

/-! # Going back to the start

A machine unwinds from the inside out: its scopes close one by one, each taking the backups of its
own that lie on top of the stack, and then whatever backups are left are put back one by one. Which
of them went in which way makes no difference in the end. All in all the stack is worked off from
the newest backup to the oldest, so the oldest one of a register has the last word. -/

namespace GenomeMachine

namespace Machine

/-- Puts the newest backup back, whichever scope it belongs to. -/
def popBackup (m : Machine) : Machine :=
  match m.backups with
  | [] => m
  | b :: rest => { m.setRegister b.register b.value with backups := rest }

/-- One act of unwinding. Backups are put back by hand only when all scopes are closed. -/
inductive Unwind : Machine → Machine → Prop where
  | close {m : Machine} (hopened : m.opened ≠ []) : Unwind m m.closeScope
  | pop {m : Machine} (hopened : m.opened = []) (hbackups : m.backups ≠ []) : Unwind m m.popBackup

/-- Acts of unwinding one after another. -/
abbrev Unwinds : Machine → Machine → Prop :=
  Relation.ReflTransGen Unwind

/-! ## One act -/

theorem rewind_popBackup (m : Machine) : m.popBackup.rewind = m.rewind := by
  unfold popBackup
  split
  · rfl
  next hbackups => simp only [rewind, restore, hbackups, setRegister, List.foldl_cons]

theorem length_backups_closeScope_le (m : Machine) :
    m.closeScope.backups.length ≤ m.backups.length := by
  unfold closeScope
  split
  · exact Nat.le_refl _
  · exact (List.dropWhile_suffix _).length_le

/-- What an act has done is not left to do. -/
theorem Unwind.rewind_eq {m m' : Machine} (h : Unwind m m') : m'.rewind = m.rewind := by
  cases h with
  | close => exact rewind_closeScope m
  | pop => exact rewind_popBackup m

/-- Every act leaves fewer scopes or fewer backups. -/
theorem Unwind.length_lt {m m' : Machine} (h : Unwind m m') :
    m'.opened.length + m'.backups.length < m.opened.length + m.backups.length := by
  cases h with
  | close hopened =>
      have hlength := List.length_pos_iff.mpr hopened
      have hbackups := length_backups_closeScope_le m
      rw [opened_closeScope, List.length_tail]
      omega
  | pop _ hbackups =>
      unfold popBackup
      split
      next hnil => exact absurd hnil hbackups
      next hcons => simp [setRegister, hcons]

/-! ## All acts -/

theorem Unwinds.rewind_eq {m m' : Machine} (h : Unwinds m m') : m'.rewind = m.rewind := by
  induction h with
  | refl => rfl
  | tail _ hact ih => exact hact.rewind_eq.trans ih

/-- Unwinding comes to an end, with nothing open and nothing to restore. -/
theorem exists_unwinds (m : Machine) :
    ∃ last, Unwinds m last ∧ last.opened = [] ∧ last.backups = [] := by
  induction hlength : m.opened.length + m.backups.length using Nat.strongRecOn generalizing m with
  | ind n ih =>
      have hcontinue {next : Machine} (hact : Unwind m next) :
          ∃ last, Unwinds m last ∧ last.opened = [] ∧ last.backups = [] := by
        obtain ⟨last, hlast, hdone⟩ := ih _ (hlength ▸ hact.length_lt) next rfl
        exact ⟨last, .head hact hlast, hdone⟩
      by_cases hopened : m.opened = []
      · by_cases hbackups : m.backups = []
        · exact ⟨m, .refl, hopened, hbackups⟩
        · exact hcontinue (.pop hopened hbackups)
      · exact hcontinue (.close hopened)

/-- Where nothing is open and nothing to restore, only the position and the calls are left. -/
theorem rewind_of_bare {m : Machine} (hopened : m.opened = []) (hbackups : m.backups = []) :
    m.rewind = { m with pointer := 0, calls := [] } := by
  rw [rewind, hopened, hbackups]
  rfl

/-- A step from behind the end of the genome starts with going back. -/
theorem step_rewind {m : Machine} (hgenome : 0 < m.genome.size)
    (houtside : m.genome.size ≤ m.pointer) : step m.rewind = step m := by
  have hinside : ¬m.rewind.genome.size ≤ m.rewind.pointer := Nat.not_le.mpr hgenome
  have harrive : m.rewind.arrive = m.arrive := by
    rw [arrive, if_neg hinside, arrive, if_pos houtside]
  obtain ⟨i, hfetch⟩ := exists_fetch hgenome
  rw [step_of_arrive hfetch, step_of_arrive (by rw [harrive]; exact hfetch), harrive]

end Machine

open Machine

/-- Going back to the start, from any scopes, with any backups. Unwinding scope by scope ends, and it
comes to the same: the machine is at the first instruction, in the root scope alone, with no calls
and no backups. Registers that were backed up have the value of their oldest backup, and nothing else
has changed. A machine behind the end of its genome does so before its next step, as it knows. -/
theorem rewind_recovers (m : Machine) :
    (∃ last, Unwinds m last ∧ last.opened = [] ∧ last.backups = [] ∧
        m.rewind = { last with pointer := 0, calls := [] }) ∧
      (m.rewind.pointer = 0 ∧ m.rewind.frames = [.root] ∧ m.rewind.calls = [] ∧
        m.rewind.backups = []) ∧
      (∀ r, m.rewind.register r =
        match (m.backups.filter (·.register = r)).getLast? with
        | some oldest => oldest.value
        | none => m.register r) ∧
      (m.rewind.catalog = m.catalog ∧ m.rewind.genome = m.genome ∧ m.rewind.inputs = m.inputs ∧
        m.rewind.outputs = m.outputs ∧ m.rewind.memory = m.memory ∧
        m.rewind.functions = m.functions ∧ m.rewind.board = m.board ∧ m.rewind.errors = m.errors ∧
        m.rewind.traits = m.traits ∧ m.rewind.pending = m.pending) ∧
      (0 < m.genome.size → m.genome.size ≤ m.pointer →
        step m = step m.rewind ∧ m.nextPosition = 0) := by
  refine ⟨?_, ⟨rfl, rfl, rfl, rfl⟩, restore_get m.registers m.backups, ?_, ?_⟩
  · obtain ⟨last, hunwinds, hopened, hbackups⟩ := exists_unwinds m
    refine ⟨last, hunwinds, hopened, hbackups, ?_⟩
    rw [← hunwinds.rewind_eq, rewind_of_bare hopened hbackups]
  · exact ⟨rfl, rfl, rfl, rfl, rfl, rfl, rfl, rfl, rfl, rfl⟩
  · intro hgenome houtside
    exact ⟨(step_rewind hgenome houtside).symm, nextPosition_outside houtside⟩

/-- A machine behind the end of its genome, with backups in no order: one of a scope that is not
open lies between two of one that is, and a register was saved three times. -/
def tangled : Machine :=
  { Machine.new .standard #[outermostScope] with
    pointer := 7
    opened := [⟨4, .loop, 1⟩, ⟨2, .function, 0⟩]
    calls := [3]
    backups := [⟨4, ⟨6, by decide⟩, 9.0⟩, ⟨9, ⟨7, by decide⟩, 8.0⟩, ⟨4, ⟨6, by decide⟩, 7.0⟩,
      ⟨0, ⟨6, by decide⟩, 3.0⟩, ⟨2, ⟨7, by decide⟩, 5.0⟩] }

theorem tangled_recovers :
    (0 < tangled.genome.size ∧ tangled.genome.size ≤ tangled.pointer) ∧
      tangled.rewind.register 6 = 3.0 ∧ tangled.rewind.register 7 = 5.0 ∧
      tangled.rewind.register 1 = tangled.register 1 ∧
      step tangled = step tangled.rewind ∧ tangled.nextPosition = 0 := by
  have hsizes : 0 < tangled.genome.size ∧ tangled.genome.size ≤ tangled.pointer := by decide
  obtain ⟨_, _, hregisters, _, hstep⟩ := rewind_recovers tangled
  exact ⟨hsizes, hregisters 6, hregisters 7, hregisters 1, hstep hsizes.1 hsizes.2⟩

end GenomeMachine
