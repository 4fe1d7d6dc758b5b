import GenomeMachine.Proofs.Scope.Resolution
import GenomeMachine.Proofs.Structured.Steps

/-! # Openers in a structured genome

What a machine does at the opener of a node. First it closes the scopes that were finished
before. If a loop is among them, the step turns into that of the loop's own opener; otherwise the
node's scope opens, and its guard decides whether the body runs. -/

namespace GenomeMachine.Machine

/-- What an opener does with its scope. -/
def openerStart (opener : Opener) (level : Nat) : Machine → Machine :=
  match opener with
  | .block => id
  | .guarded guard test => startGuarded guard test level

theorem dispatch_opener {m : Machine} (opener : Opener) {level : Nat}
    (hcatalog : m.catalog = .standard) (hlevel : level < 65536) :
    dispatch (opener.instruction level) m =
      opening level opener.kind (openerStart opener level) m := by
  obtain ⟨e, _, he, _, hop, _, _⟩ := entry?_opener opener level
  simp only [dispatch, hcatalog, he, hop, Opcode.perform]
  have hto : (UInt16.ofNat level).toNat = level := by
    simp [Nat.mod_eq_of_lt hlevel]
  cases opener with
  | block =>
      simp only [Opener.op, ControlOp.perform, Opener.instruction, hto]
      rfl
  | guarded guard test =>
      have htest : (UInt16.ofNat test.val).toNat = test.val := by
        simp [Nat.mod_eq_of_lt (show test.val < 65536 by omega)]
      have harg : m.registerArg (.ofNat test.val) = .ok test := by
        rw [registerArg_of_lt m (by omega)]
        simp only [htest]
      cases guard <;>
        simp only [Opener.op, ControlOp.perform, Opener.instruction, hto, harg] <;> rfl

/-! ## Inside a scope -/

/-- The machine with another store, at another position. -/
def jump (m : Machine) (s : Store) (pointer : Nat) : Machine :=
  { m.withStore s with pointer := pointer }

/-- The machine inside one more scope, where some registers were saved. -/
def inside (m : Machine) (frame : Frame) (s : Store) (saved : List (Slot × Float))
    (pointer : Nat) : Machine :=
  { m.jump s pointer with
    opened := frame :: m.opened
    backups := saved.map (fun (r, value) => ⟨frame.depth, r, value⟩) ++ m.backups }

section Inside

variable (m : Machine) (frame : Frame) (s t : Store) (saved : List (Slot × Float))
  (pointer target : Nat)

@[simp] theorem store_jump : (m.jump s pointer).store = s := rfl

@[simp] theorem pointer_jump : (m.jump s pointer).pointer = pointer := rfl

@[simp] theorem jump_jump : (m.jump s pointer).jump t target = m.jump t target := rfl

@[simp] theorem store_inside : (m.inside frame s saved pointer).store = s := rfl

@[simp] theorem pointer_inside : (m.inside frame s saved pointer).pointer = pointer := rfl

@[simp] theorem innermost_inside : (m.inside frame s saved pointer).innermost = frame := rfl

@[simp] theorem jump_inside :
    (m.inside frame s saved pointer).jump t target = m.inside frame t saved target := rfl

@[simp] theorem proceed_inside (count : Nat) :
    (m.inside frame s [] pointer).proceed t saved count =
      m.inside frame t saved (pointer + count) := rfl

end Inside

/-- Leaving a scope leaves nothing of it behind but the store, where the registers saved inside
have their old values. -/
theorem closeScope_inside {m : Machine} {frame : Frame}
    (hbackups : ∀ b ∈ m.backups, b.depth < frame.depth) (s : Store)
    (saved : List (Slot × Float)) (pointer : Nat) :
    (m.inside frame s saved pointer).closeScope = m.jump (s.restore saved) pointer := by
  have hsaved : ∀ b ∈ saved.map (fun (r, value) => (⟨frame.depth, r, value⟩ : Backup)),
      (b.depth == frame.depth) = true := by
    intro b hb
    obtain ⟨_, _, rfl⟩ := List.mem_map.mp hb
    simp
  have htake : m.backups.takeWhile (·.depth == frame.depth) = [] := by
    cases hm : m.backups with
    | nil => rfl
    | cons b rest =>
        have := hbackups b (by simp [hm])
        simp [Nat.ne_of_lt this]
  have hdrop : m.backups.dropWhile (·.depth == frame.depth) = m.backups := by
    simpa [htake] using List.takeWhile_append_dropWhile (p := (·.depth == frame.depth))
      (l := m.backups)
  simp only [closeScope, inside, List.takeWhile_append_of_pos hsaved,
    List.dropWhile_append_of_pos hsaved, htake, hdrop, List.append_nil]
  rw [s.restore_eq saved frame.depth]
  rfl

/-! ## What happens at an opener -/

theorem nextOpener?_of_code {m : Machine} {i closer : Instruction} {skipped tail : List Instruction}
    {depth : Nat} (hcode : m.code = i :: (skipped ++ closer :: tail))
    (hskipped : ∀ j ∈ skipped,
      m.catalog.openedDepth j = 0 ∨ depth < m.catalog.openedDepth j)
    (hcloser : 0 < m.catalog.openedDepth closer ∧ m.catalog.openedDepth closer ≤ depth) :
    m.nextOpener? depth = some (m.pointer + 1 + skipped.length) := by
  have hrest : m.genome.extract (m.pointer + 1) m.genome.size =
      (skipped ++ closer :: tail).toArray := by
    apply Array.ext'
    have hdrop := congrArg (List.drop 1) hcode
    rw [code, List.drop_drop] at hdrop
    simpa [List.extract_eq_take_drop, List.take_of_length_le] using hdrop
  have hnone : skipped.findIdx? (fun i =>
      0 < m.catalog.openedDepth i && m.catalog.openedDepth i ≤ depth) = none := by
    rw [List.findIdx?_eq_none_iff]
    intro j hj
    rcases hskipped j hj with h | h
    · simp [h]
    · simp [Nat.not_le.mpr h]
  rw [nextOpener?, hrest, List.findIdx?_toArray, List.findIdx?_append, hnone]
  simp [List.findIdx?_cons, hcloser]

/-- A scope left at its start is skipped up to the next opener that could finish it. -/
theorem leaveScope_inside {m : Machine} {frame : Frame} {level : Nat} {i closer : Instruction}
    {skipped tail : List Instruction} (hbackups : ∀ b ∈ m.backups, b.depth < frame.depth)
    (hlevel : level < frame.depth) (hcode : m.code = i :: (skipped ++ closer :: tail))
    (hskipped : ∀ j ∈ skipped,
      m.catalog.openedDepth j = 0 ∨ level + 1 < m.catalog.openedDepth j)
    (hcloser : 0 < m.catalog.openedDepth closer ∧ m.catalog.openedDepth closer ≤ level + 1) :
    (m.inside frame m.store [] m.pointer).leaveScope level =
      m.jump m.store (m.pointer + skipped.length) := by
  have hnext : (m.inside frame m.store [] m.pointer).nextOpener? (level + 1) =
      some (m.pointer + 1 + skipped.length) :=
    nextOpener?_of_code (by exact hcode) hskipped hcloser
  have hposition : m.pointer + 1 + skipped.length - 1 = m.pointer + skipped.length := by omega
  simp only [leaveScope, innermost_inside, if_neg (Nat.not_lt.mpr (Nat.succ_le_of_lt hlevel)),
    hnext, closeScope_inside hbackups, hposition]
  rfl

/-- An opener that finds nothing but its own surroundings opens its scope. -/
theorem dispatch_enter {m n : Machine} (opener : Opener) {level : Nat}
    (hcatalog : m.catalog = .standard) (hlevel : level < 65536)
    (hclosed : m.closeFinished level = n) (hdepth : n.innermost.depth < level + 1)
    (hroom : n.frames.length < 16) :
    dispatch (opener.instruction level) m = .ok () (openerStart opener level
      (n.inside ⟨level + 1, opener.kind, n.pointer⟩ n.store [] n.pointer)) := by
  have hsame : m.closeFinished level = n.closeFinished level := by
    rw [hclosed, closeFinished_of_lt hdepth]
  rw [dispatch_opener opener hcatalog hlevel]
  simp only [opening, enterScope_congr _ hsame, enterScope_of_lt _ hdepth, if_pos hroom]
  rfl

theorem openerStart_of_enter {opener : Opener} {m : Machine} {s : Store}
    (henter : opener.enter m.store = some s) (level : Nat) :
    openerStart opener level m = m.withStore s := by
  cases opener with
  | block =>
      cases henter
      rfl
  | guarded guard test =>
      simp only [Opener.enter] at henter
      split at henter
      · cases henter
      next htest =>
        have htest : ¬(m.register test == 0.0) = true := htest
        simp only [openerStart, startGuarded, if_neg htest]
        cases guard <;> cases henter <;> rfl

theorem openerStart_of_skip {opener : Opener} {m : Machine} (henter : opener.enter m.store = none)
    (level : Nat) : openerStart opener level m = m.leaveScope level := by
  cases opener with
  | block => cases henter
  | guarded guard test =>
      simp only [Opener.enter] at henter
      split at henter
      next htest =>
        have htest : (m.register test == 0.0) = true := htest
        simp only [openerStart, startGuarded, if_pos htest]
      · cases guard <;> cases henter

/-- An opener inside a finished loop goes back to the opener of the loop. -/
theorem dispatch_loop {m n : Machine} (opener : Opener) {level : Nat}
    (hcatalog : m.catalog = .standard) (hlevel : level < 65536)
    (hclosed : m.closeFinished level = n) (hdepth : level < n.innermost.depth)
    (hkind : n.innermost.kind = .loop) :
    dispatch (opener.instruction level) m =
      .ok () { n.closeScope with pointer := n.innermost.start, pending := true } := by
  have hsilent : n.innermost.kind.closesSilently = false := by rw [hkind]; rfl
  have hsame : m.closeFinished level = n.closeFinished level := by
    rw [hclosed, closeFinished_of_not_silent level hsilent]
  rw [dispatch_opener opener hcatalog hlevel]
  simp only [opening, enterScope_congr _ hsame, enterScope_of_not_silent _ hdepth hsilent,
    finishScope, hkind]
  rfl

end GenomeMachine.Machine
