import GenomeMachine.Proofs.Scope.Stack

/-! # Register backups

As long as registers are saved for the innermost scope only, the backups lie on their stack in
the order of the scopes they belong to. Closing a scope looks at the top of that stack alone, and
yet it finds all backups of the scope, and none of another one. -/

namespace GenomeMachine

/-! ## Putting values back -/

/-- Of several backups of a register, the last one put back counts. -/
theorem restore_get (registers : Vector Float 16) (backups : List Backup) (r : Slot) :
    (restore registers backups).get r =
      match (backups.filter (·.register = r)).getLast? with
      | some b => b.value
      | none => registers.get r := by
  induction backups generalizing registers with
  | nil => rfl
  | cons b backups ih =>
      have hcons : restore registers (b :: backups) =
        restore (registers.set b.register b.value) backups := rfl
      rw [hcons, ih, get_set]
      by_cases hr : b.register = r
      · rw [if_pos hr, List.filter_cons_of_pos (by simpa using hr), List.getLast?_cons]
        cases (backups.filter (·.register = r)).getLast? <;> rfl
      · rw [if_neg hr, List.filter_cons_of_neg (by simpa using hr)]

/-! ## The order of backups -/

/-- Among backups in the order of their scopes, those of the deepest scope come first. -/
theorem takeWhile_depth_eq_filter {depth : Nat} {backups : List Backup}
    (hordered : backups.Pairwise (fun newer older => older.depth ≤ newer.depth))
    (hle : ∀ b ∈ backups, b.depth ≤ depth) :
    backups.takeWhile (·.depth == depth) = backups.filter (·.depth = depth) ∧
      backups.dropWhile (·.depth == depth) = backups.filter (·.depth ≠ depth) := by
  induction backups with
  | nil => exact ⟨rfl, rfl⟩
  | cons b backups ih =>
      obtain ⟨hb, hordered⟩ := List.pairwise_cons.mp hordered
      by_cases hdepth : b.depth = depth
      · obtain ⟨htake, hdrop⟩ := ih hordered (fun b hb => hle b (by simp [hb]))
        simp [hdepth, htake, hdrop]
      · have hlt : b.depth < depth := Nat.lt_of_le_of_ne (hle b (by simp)) hdepth
        have hother : ∀ b' ∈ backups, b'.depth ≠ depth := by
          intro b' hb'
          have := hb b' hb'
          omega
        have hnone : backups.filter (·.depth = depth) = [] :=
          List.filter_eq_nil_iff.mpr (by simpa using hother)
        have hall : backups.filter (·.depth ≠ depth) = backups :=
          List.filter_eq_self.mpr (by simpa using hother)
        constructor
        · rw [List.takeWhile_cons_of_neg (by simpa using hdepth),
            List.filter_cons_of_neg (by simpa using hdepth), hnone]
        · rw [List.dropWhile_cons_of_neg (by simpa using hdepth),
            List.filter_cons_of_pos (by simpa using hdepth), hall]

namespace Machine

/-- The backups lie in the order of the scopes they belong to, and all these scopes are open. -/
structure Disciplined (m : Machine) : Prop where
  nested : Nested m
  ordered : m.backups.Pairwise (fun newer older => older.depth ≤ newer.depth)
  owned : ∀ b ∈ m.backups, ∃ frame ∈ m.frames, frame.depth = b.depth

theorem disciplined_new (catalog : Catalog) (genome : Genome) :
    Disciplined (new catalog genome) :=
  ⟨nested_new catalog genome, .nil, by simp [new]⟩

theorem Disciplined.depth_le {m : Machine} (h : Disciplined m) {b : Backup} (hb : b ∈ m.backups) :
    b.depth ≤ m.innermost.depth := by
  obtain ⟨frame, hframe, hdepth⟩ := h.owned b hb
  exact hdepth ▸ h.nested.depth_le hframe

/-- What closing a scope takes off the stack of backups are exactly the backups of the scope. -/
theorem Disciplined.split {m : Machine} (h : Disciplined m) {frame : Frame} {rest : List Frame}
    (hopened : m.opened = frame :: rest) :
    m.backups.takeWhile (·.depth == frame.depth) = m.backups.filter (·.depth = frame.depth) ∧
      m.backups.dropWhile (·.depth == frame.depth) = m.backups.filter (·.depth ≠ frame.depth) := by
  refine takeWhile_depth_eq_filter h.ordered ?_
  intro b hb
  simpa [innermost, hopened] using h.depth_le hb

theorem Disciplined.closeScope {m : Machine} (h : Disciplined m) : Disciplined m.closeScope := by
  have hnested := h.nested.move (.close m)
  cases hopened : m.opened with
  | nil =>
      have hsame : m.closeScope = m := by simp [Machine.closeScope, hopened]
      rw [hsame]
      exact h
  | cons frame rest =>
      have hbackups : m.closeScope.backups = m.backups.filter (·.depth ≠ frame.depth) := by
        rw [← (h.split hopened).2]
        simp [Machine.closeScope, hopened]
      refine ⟨hnested, ?_, ?_⟩
      · rw [hbackups]
        exact h.ordered.filter _
      · intro b hb
        rw [hbackups] at hb
        obtain ⟨hb, hdepth⟩ := List.mem_filter.mp hb
        obtain ⟨owner, howner, hsame⟩ := h.owned b hb
        refine ⟨owner, ?_, hsame⟩
        simp only [frames, hopened, List.cons_append, List.mem_cons] at howner
        rcases howner with rfl | howner
        · simp [hsame] at hdepth
        · simpa [frames, hopened] using howner

/-- Every move keeps the backups in order. -/
theorem Disciplined.move {m m' : Machine} (hmove : Move m m') (h : Disciplined m) :
    Disciplined m' := by
  have hnested := h.nested.move hmove
  cases hmove with
  | keep saved hsaved hopened hbackups =>
      have hframes : m'.frames = m.frames := by rw [frames, hopened, frames]
      refine ⟨hnested, ?_, ?_⟩
      · rw [hbackups]
        refine List.pairwise_append.mpr ⟨?_, h.ordered, ?_⟩
        · refine List.pairwise_of_forall_mem_list ?_
          intro newer hnewer older holder
          exact Nat.le_of_eq ((hsaved older holder).trans (hsaved newer hnewer).symm)
        · intro newer hnewer older holder
          rw [hsaved newer hnewer]
          exact h.depth_le holder
      · intro b hb
        rw [hbackups] at hb
        rw [hframes]
        rcases List.mem_append.mp hb with hb | hb
        · exact ⟨m.innermost, m.innermost_mem_frames, (hsaved b hb).symm⟩
        · exact h.owned b hb
  | enter hdeeper hroom =>
      refine ⟨hnested, h.ordered, ?_⟩
      intro b hb
      obtain ⟨owner, howner, hdepth⟩ := h.owned b hb
      exact ⟨owner, List.mem_cons_of_mem _ howner, hdepth⟩
  | close => exact h.closeScope
  | clear hopened hbackups => exact ⟨hnested, by simp [hbackups], by simp [hbackups]⟩

end Machine

open Machine

theorem disciplined_of_reachable {catalog : Catalog} {m : Machine}
    (h : Reachable savesInnermost catalog m) : Disciplined m := by
  induction h with
  | new genome => exact disciplined_new catalog genome
  | perform op _ hop ih => exact (moves_operation hop).preserve Disciplined.move ih

/-- If registers are saved for the innermost scope only, the backups from the oldest to the newest
belong to ever deeper scopes, all of them open. So closing the innermost scope removes exactly its
own backups, gives every register among them the value of its oldest one, and changes nothing
else. -/
theorem reachable_backups {catalog : Catalog} {m : Machine}
    (h : Reachable savesInnermost catalog m) :
    m.backups.reverse.Pairwise (fun older newer => older.depth ≤ newer.depth) ∧
      (∀ b ∈ m.backups, ∃ frame ∈ m.frames, frame.depth = b.depth) ∧
      ∀ frame rest, m.opened = frame :: rest →
        m.closeScope = { m with
          opened := rest
          backups := m.backups.filter (·.depth ≠ frame.depth)
          registers := m.closeScope.registers } ∧
        ∀ r, m.closeScope.register r =
          match (m.backups.filter fun b => b.depth = frame.depth ∧ b.register = r).getLast? with
          | some oldest => oldest.value
          | none => m.register r := by
  have hm := disciplined_of_reachable h
  refine ⟨List.pairwise_reverse.mpr hm.ordered, hm.owned, ?_⟩
  intro frame rest hopened
  obtain ⟨htake, hdrop⟩ := hm.split hopened
  have hclose : m.closeScope = { m with
      opened := rest
      backups := m.backups.filter (·.depth ≠ frame.depth)
      registers := restore m.registers (m.backups.filter (·.depth = frame.depth)) } := by
    simp only [closeScope, hopened, htake, hdrop]
  refine ⟨by rw [hclose], ?_⟩
  intro r
  have hregister : m.closeScope.register r =
      (restore m.registers (m.backups.filter (·.depth = frame.depth))).get r := by rw [hclose]; rfl
  rw [hregister, restore_get, List.filter_filter]
  simp only [register, Bool.decide_and, Bool.and_comm]

/-- A scope that saved a register twice, with other values in between. -/
def savedTwice : Machine :=
  Operation.performAll [.enterScope 0 .basic, .pushBackup 1 2, .setRegister 2 9.0, .pushBackup 1 2,
    .setRegister 2 7.0] (Machine.new .standard #[])

theorem savedTwice_reachable : Reachable savesInnermost .standard savedTwice := by
  have hnew : Reachable savesInnermost .standard (Machine.new .standard #[]) := .new #[]
  have hopen := hnew.perform (.enterScope 0 .basic) (by rintro _ _ ⟨⟩)
  have hfirst := hopen.perform (.pushBackup 1 2) (by rintro _ _ ⟨⟩; decide)
  have hset := hfirst.perform (.setRegister 2 9.0) (by rintro _ _ ⟨⟩)
  have hsecond := hset.perform (.pushBackup 1 2) (by rintro _ _ ⟨⟩; decide)
  exact hsecond.perform (.setRegister 2 7.0) (by rintro _ _ ⟨⟩)

theorem savedTwice_backups :
    (savedTwice.opened = [⟨1, .basic, 0⟩] ∧ savedTwice.backups.map (·.register) = [2, 2]) ∧
      savedTwice.closeScope.register 2 = Float.ofNat 2 := by
  have hopened : savedTwice.opened = [⟨1, .basic, 0⟩] := by decide
  refine ⟨⟨hopened, by decide⟩, ?_⟩
  obtain ⟨_, _, hclose⟩ := reachable_backups savedTwice_reachable
  rw [(hclose _ _ hopened).2 2]
  rfl

end GenomeMachine
