import GenomeMachine.Proofs.Run.Effects
import GenomeMachine.Proofs.Run.Failure

/-! # Steps in batches

A number of steps can be made in one batch or in several, with the same outcome. The steps of a
batch are those that a machine makes one by one until its turn has ended, which is looked at before
each of them: `runFromBy_eq_ok_iff`. Whether there is a genome is looked at before the first one
only. So it matters that no step takes the genome away, and where instructions are carried out
in any way whatever, `run_splits` says when that has happened. With the operations of this library
it does not happen. -/

namespace GenomeMachine

namespace Machine

/-! ## Actions one after the other -/

section Bind

variable {α β : Type} {x : Action α} {m m' : Machine} (f : α → Action β)

theorem bind_of_ok {a : α} (h : x m = .ok a m') : (x >>= f) m = f a m' := by
  simp [bind, EStateM.bind, h]

theorem bind_of_error {fault : Fault} (h : x m = .error fault m') :
    (x >>= f) m = .error fault m' := by
  simp [bind, EStateM.bind, h]

end Bind

/-! ## One step of a batch -/

section Single

variable {perform : Instruction → Action Unit} {m next : Machine} {fault : Fault}
  (done budget : Nat)

theorem runFromBy_of_halted (h : m.halted = true) :
    runFromBy perform done budget m = .ok done m := by
  cases budget with
  | zero => rfl
  | succ budget => simp [runFromBy, h]

theorem runFromBy_of_error (h : m.halted = false) (hstep : stepBy perform m = .error fault next) :
    runFromBy perform done (budget + 1) m = .error fault next := by
  simp [runFromBy, h, hstep]

theorem runFromBy_of_ok (h : m.halted = false) (hstep : stepBy perform m = .ok () next) :
    runFromBy perform done (budget + 1) m = runFromBy perform (done + 1) budget next := by
  simp [runFromBy, h, hstep]

end Single

/-! ## Batches one after the other -/

/-- A second batch takes over where the first one ended, with the steps counted so far. -/
theorem runFromBy_add (perform : Instruction → Action Unit) (done a b : Nat) (m : Machine) :
    runFromBy perform done (a + b) m =
      (runFromBy perform done a >>= fun done' => runFromBy perform done' b) m := by
  induction a generalizing done m with
  | zero =>
      rw [Nat.zero_add]
      exact (bind_of_ok _ rfl).symm
  | succ a ih =>
      cases hhalted : m.halted with
      | true =>
          rw [bind_of_ok _ (runFromBy_of_halted done (a + 1) hhalted),
            runFromBy_of_halted _ _ hhalted, runFromBy_of_halted _ _ hhalted]
      | false =>
          rw [Nat.add_right_comm]
          cases hstep : stepBy perform m with
          | error fault next =>
              rw [bind_of_error _ (runFromBy_of_error done a hhalted hstep),
                runFromBy_of_error _ _ hhalted hstep]
          | ok _ next =>
              have hfirst := runFromBy_of_ok done a hhalted hstep
              rw [runFromBy_of_ok _ _ hhalted hstep, ih]
              simp only [bind, EStateM.bind, hfirst]

/-- The outcome with a number of steps counted before it. -/
def addCount (before : Nat) :
    EStateM.Result Fault Machine Nat → EStateM.Result Fault Machine Nat
  | .ok count m => .ok (before + count) m
  | .error fault m => .error fault m

theorem addCount_eq_ok_iff {before count : Nat} {m : Machine}
    {result : EStateM.Result Fault Machine Nat} :
    addCount before result = .ok count m ↔
      ∃ count', result = .ok count' m ∧ count = before + count' := by
  cases result with
  | ok count' m' =>
      simp only [addCount, EStateM.Result.ok.injEq]
      constructor
      · rintro ⟨rfl, rfl⟩
        exact ⟨count', ⟨rfl, rfl⟩, rfl⟩
      · rintro ⟨_, ⟨rfl, rfl⟩, rfl⟩
        exact ⟨rfl, rfl⟩
  | error fault m' => simp [addCount]

theorem addCount_addCount (a b : Nat) (result : EStateM.Result Fault Machine Nat) :
    addCount a (addCount b result) = addCount (a + b) result := by
  cases result with
  | ok count m => simp only [addCount, Nat.add_assoc]
  | error fault m => rfl

/-- The steps made before count, and have no other effect. -/
theorem runFromBy_eq_addCount (perform : Instruction → Action Unit) (done budget : Nat)
    (m : Machine) :
    runFromBy perform done budget m = addCount done (runFromBy perform 0 budget m) := by
  induction budget generalizing done m with
  | zero => rfl
  | succ budget ih =>
      cases hhalted : m.halted with
      | true =>
          rw [runFromBy_of_halted _ _ hhalted, runFromBy_of_halted _ _ hhalted]
          rfl
      | false =>
          cases hstep : stepBy perform m with
          | error fault next =>
              rw [runFromBy_of_error _ _ hhalted hstep, runFromBy_of_error _ _ hhalted hstep]
              rfl
          | ok _ next =>
              rw [runFromBy_of_ok _ _ hhalted hstep, runFromBy_of_ok _ _ hhalted hstep, ih,
                ih (0 + 1), addCount_addCount, Nat.zero_add]

section Split

variable {perform : Instruction → Action Unit} {m m₁ : Machine}

theorem runBy_of_empty (h : m.genome.isEmpty = true) (budget : Nat) :
    runBy perform budget m = .ok 0 m := by
  simp [runBy, h]

theorem runBy_of_not_empty (h : m.genome.isEmpty = false) (budget : Nat) :
    runBy perform budget m = runFromBy perform 0 budget m := by
  simp [runBy, h]

/-- Only a machine with a genome can fail. -/
theorem not_empty_of_runBy_error {budget : Nat} {fault : Fault}
    (h : runBy perform budget m = .error fault m₁) : m.genome.isEmpty = false := by
  cases hempty : m.genome.isEmpty with
  | false => rfl
  | true =>
      rw [runBy_of_empty hempty] at h
      cases h

theorem runBy_add_of_error {a : Nat} {fault : Fault} (h : runBy perform a m = .error fault m₁)
    (b : Nat) : runBy perform (a + b) m = .error fault m₁ := by
  have hempty := not_empty_of_runBy_error h
  rw [runBy_of_not_empty hempty] at h
  rw [runBy_of_not_empty hempty, runFromBy_add, bind_of_error _ h]

/-- After a first part the steps go on, with nobody asking for the genome again. -/
theorem runBy_add_of_ok {a i : Nat} (hempty : m.genome.isEmpty = false)
    (h : runBy perform a m = .ok i m₁) (b : Nat) :
    runBy perform (a + b) m = addCount i (runFromBy perform 0 b m₁) := by
  rw [runBy_of_not_empty hempty] at h
  rw [runBy_of_not_empty hempty, runFromBy_add, bind_of_ok _ h, runFromBy_eq_addCount]

theorem stepBy_of_empty (h : m.genome.isEmpty = true) : stepBy perform m = .ok () m := by
  have hgenome : m.arrive.genome = #[] := by
    rw [genome_arrive]
    exact Array.isEmpty_iff.mp h
  simp [stepBy, instruction?, hgenome]

/-- Without a genome, steps that do nothing are counted until the budget is used up. -/
theorem runFromBy_of_empty (hempty : m.genome.isEmpty = true) (hhalted : m.halted = false)
    (done budget : Nat) : runFromBy perform done budget m = .ok (done + budget) m := by
  induction budget generalizing done with
  | zero => rfl
  | succ budget ih =>
      rw [runFromBy_of_ok _ _ hhalted (stepBy_of_empty hempty), ih, Nat.add_right_comm,
        Nat.add_assoc]

/-- Two batches are one, unless the first one took the genome away in the middle of a turn and the
second one should have made steps. -/
theorem runBy_add_eq_ok_iff {a b i j : Nat} {m₂ : Machine} (hfirst : runBy perform a m = .ok i m₁)
    (hsecond : runBy perform b m₁ = .ok j m₂) :
    runBy perform (a + b) m = .ok (i + j) m₂ ↔
      m.genome.isEmpty = true ∨ m₁.genome.isEmpty = false ∨ m₁.halted = true ∨ b = 0 := by
  cases hempty : m.genome.isEmpty with
  | true =>
      rw [runBy_of_empty hempty] at hfirst
      cases hfirst
      rw [runBy_of_empty hempty] at hsecond
      cases hsecond
      simp [runBy_of_empty hempty]
  | false =>
      rw [runBy_add_of_ok hempty hfirst]
      cases hgone : m₁.genome.isEmpty with
      | false =>
          rw [runBy_of_not_empty hgone] at hsecond
          simp [hsecond, addCount]
      | true =>
          rw [runBy_of_empty hgone] at hsecond
          cases hsecond
          cases hhalted : m₁.halted with
          | true => simp [runFromBy_of_halted 0 b hhalted, addCount]
          | false => simp [runFromBy_of_empty hgone hhalted, addCount]

end Split

/-- The operations of this library leave the genome as it is. -/
theorem isEmpty_genome_run {m m' : Machine} {budget count : Nat}
    (h : run budget m = .ok count m') : m'.genome.isEmpty = m.genome.isEmpty := by
  have hstep (n : Machine) (hn : n.genome = m.genome) : (after (step n)).genome = m.genome :=
    (effects_step n).genome_eq.trans hn
  have hgenome := run_preserve hstep budget rfl
  rw [h, after_ok] at hgenome
  rw [hgenome]

/-! ## The steps of a batch -/

/-- The machine makes a number of steps, all of them before its turn has ended and none of them
with a fault. -/
def Proceeds (perform : Instruction → Action Unit) (m : Machine) (count : Nat) : Prop :=
  ∀ k < count, (m.afterStepsBy perform k).halted = false ∧
    stepBy perform (m.afterStepsBy perform k) = .ok () (m.afterStepsBy perform (k + 1))

section Steps

variable {perform : Instruction → Action Unit} {m m' next : Machine} {budget count : Nat}

theorem proceeds_zero (m : Machine) : m.Proceeds perform 0 :=
  fun k hk => absurd hk (Nat.not_lt_zero k)

/-- A machine that makes steps makes the first one. -/
theorem Proceeds.first (h : m.Proceeds perform count) (hcount : count ≠ 0) :
    m.halted = false ∧ stepBy perform m = .ok () (m.afterStepsBy perform 1) :=
  h 0 (Nat.pos_of_ne_zero hcount)

theorem proceeds_succ_iff (hstep : stepBy perform m = .ok () next) :
    m.Proceeds perform (count + 1) ↔ m.halted = false ∧ next.Proceeds perform count := by
  have hshift := afterStepsBy_of_ok hstep
  constructor
  · intro h
    refine ⟨(h.first (Nat.succ_ne_zero count)).1, ?_⟩
    intro k hk
    have hlater := h (k + 1) (Nat.succ_lt_succ hk)
    rwa [hshift, hshift] at hlater
  · rintro ⟨hhalted, h⟩ k hk
    cases k with
    | zero =>
        rw [hshift]
        exact ⟨hhalted, hstep⟩
    | succ k =>
        rw [hshift, hshift]
        exact h k (Nat.lt_of_succ_lt_succ hk)

/-- As long as its turn has not ended, a machine with a budget has a step to make. -/
theorem ne_zero_of_unfinished (h : m.halted = false) (hm' : m' = m.afterStepsBy perform count)
    (hend : count = budget + 1 ∨ m'.halted = true) : count ≠ 0 := by
  rintro rfl
  rcases hend with hend | hend
  · cases hend
  · rw [hm', afterStepsBy, h] at hend
    cases hend

theorem runFromBy_eq_ok_iff :
    runFromBy perform 0 budget m = .ok count m' ↔
      count ≤ budget ∧ m.Proceeds perform count ∧ m' = m.afterStepsBy perform count ∧
        (count = budget ∨ m'.halted = true) := by
  induction budget generalizing count m with
  | zero =>
      constructor
      · intro h
        cases h
        exact ⟨Nat.le_refl 0, proceeds_zero _, rfl, .inl rfl⟩
      · rintro ⟨hle, -, rfl, -⟩
        obtain rfl := Nat.le_zero.mp hle
        rfl
  | succ budget ih =>
      cases hhalted : m.halted with
      | true =>
          rw [runFromBy_of_halted _ _ hhalted]
          constructor
          · intro h
            cases h
            exact ⟨Nat.zero_le _, proceeds_zero _, rfl, .inr hhalted⟩
          · rintro ⟨-, hproceeds, rfl, -⟩
            cases count with
            | zero => rfl
            | succ count =>
                have hfirst := (hproceeds.first (Nat.succ_ne_zero count)).1
                rw [hhalted] at hfirst
                cases hfirst
      | false =>
          cases hstep : stepBy perform m with
          | error fault next =>
              rw [runFromBy_of_error _ _ hhalted hstep]
              constructor
              · intro h
                cases h
              · rintro ⟨-, hproceeds, hm', hend⟩
                have hfirst := (hproceeds.first (ne_zero_of_unfinished hhalted hm' hend)).2
                rw [hstep] at hfirst
                cases hfirst
          | ok _ next =>
              have hshift := afterStepsBy_of_ok hstep
              rw [runFromBy_of_ok _ _ hhalted hstep, runFromBy_eq_addCount, addCount_eq_ok_iff]
              constructor
              · rintro ⟨count, hrest, rfl⟩
                obtain ⟨hle, hproceeds, rfl, hend⟩ := ih.mp hrest
                rw [Nat.zero_add, Nat.add_comm 1 count, proceeds_succ_iff hstep, hshift]
                exact ⟨Nat.succ_le_succ hle, ⟨hhalted, hproceeds⟩, rfl,
                  hend.imp_left (congrArg (· + 1))⟩
              · rintro ⟨hle, hproceeds, hm', hend⟩
                obtain ⟨count, rfl⟩ :=
                  Nat.exists_eq_succ_of_ne_zero (ne_zero_of_unfinished hhalted hm' hend)
                rw [Nat.succ_eq_add_one, hshift] at hm'
                refine ⟨count, ih.mpr ⟨Nat.le_of_succ_le_succ hle, ?_, hm', ?_⟩, by omega⟩
                · exact ((proceeds_succ_iff hstep).mp hproceeds).2
                · exact hend.imp_left Nat.succ.inj

end Steps

end Machine

open Machine

/-- A batch of steps comes to the same as two batches whose sizes add up to its own: the steps that
they made are added, and the first fault ends everything. This is so however instructions are
carried out, except that a genome which the first batch took away is missed by the second one only.
With the operations of this library no genome is ever taken away. A batch on a genome with
instructions that made some number of steps made them one by one and without a fault, each while the
turn had not ended, and stopped with its last step or at the end of the turn. -/
theorem run_splits (perform : Instruction → Action Unit) (m : Machine) (a b : Nat) :
    (∀ i j m₁ m₂, runBy perform a m = .ok i m₁ → runBy perform b m₁ = .ok j m₂ →
        (runBy perform (a + b) m = .ok (i + j) m₂ ↔
          m.genome.isEmpty = true ∨ m₁.genome.isEmpty = false ∨ m₁.halted = true ∨ b = 0)) ∧
      (∀ i j m₁ m₂, run a m = .ok i m₁ → run b m₁ = .ok j m₂ → run (a + b) m = .ok (i + j) m₂) ∧
      (∀ fault m₁, runBy perform a m = .error fault m₁ →
        runBy perform (a + b) m = .error fault m₁) ∧
      (∀ i m₁ fault m₂, runBy perform a m = .ok i m₁ → runBy perform b m₁ = .error fault m₂ →
        runBy perform (a + b) m = .error fault m₂) ∧
      (m.genome.isEmpty = false → ∀ n i m', runBy perform n m = .ok i m' ↔
        i ≤ n ∧ (∀ k < i, (m.afterStepsBy perform k).halted = false ∧
          stepBy perform (m.afterStepsBy perform k) =
            .ok () (m.afterStepsBy perform (k + 1))) ∧
        m' = m.afterStepsBy perform i ∧ (i = n ∨ m'.halted = true)) := by
  refine ⟨?_, ?_, ?_, ?_, ?_⟩
  · intro i j m₁ m₂ hfirst hsecond
    exact runBy_add_eq_ok_iff hfirst hsecond
  · intro i j m₁ m₂ hfirst hsecond
    refine (runBy_add_eq_ok_iff hfirst hsecond).mpr ?_
    rw [isEmpty_genome_run hfirst]
    cases m.genome.isEmpty <;> simp
  · intro fault m₁ hfirst
    exact runBy_add_of_error hfirst b
  · intro i m₁ fault m₂ hfirst hsecond
    have hgenome := not_empty_of_runBy_error hsecond
    cases hempty : m.genome.isEmpty with
    | true =>
        rw [runBy_of_empty hempty] at hfirst
        cases hfirst
        rw [hgenome] at hempty
        cases hempty
    | false =>
        rw [runBy_of_not_empty hgenome] at hsecond
        rw [runBy_add_of_ok hempty hfirst, hsecond]
        rfl
  · intro hgenome n i m'
    rw [runBy_of_not_empty hgenome]
    exact runFromBy_eq_ok_iff

/-- The number of steps of a batch without a fault. -/
def count? : EStateM.Result Fault Machine Nat → Option Nat
  | .ok count _ => some count
  | .error _ _ => none

theorem count?_eq_some {result : EStateM.Result Fault Machine Nat} {count : Nat}
    (h : count? result = some count) : result = .ok count (after result) := by
  cases result with
  | ok _ m =>
      cases h
      rfl
  | error fault m => cases h

/-- A machine that ends its turn with its second step. The third one would fail. -/
def shortTurn : Machine :=
  Machine.new .standard #[⟨0, 0, 0, 0⟩, ⟨24, 0, 0, 0⟩, ⟨0, 16, 0, 0⟩]

/-- A machine that fails with its second step. -/
def stumbling : Machine :=
  Machine.new .standard #[⟨0, 0, 0, 0⟩, ⟨0, 16, 0, 0⟩]

theorem shortTurn_splits :
    (∃ m₁ m₂, (run 1 shortTurn = .ok 1 m₁ ∧ run 4 m₁ = .ok 1 m₂) ∧
      run (1 + 4) shortTurn = .ok 2 m₂ ∧ m₂ = shortTurn.afterSteps 2 ∧ m₂.halted = true) ∧
    ∃ m₁ m₂, (run 1 stumbling = .ok 1 m₁ ∧
        run 4 m₁ = .error (.registerOutOfRange 1 16) m₂) ∧
      run (1 + 4) stumbling = .error (.registerOutOfRange 1 16) m₂ := by
  have hcounts : count? (run 1 shortTurn) = some 1 ∧
      count? (run 4 (after (run 1 shortTurn))) = some 1 ∧ count? (run 1 stumbling) = some 1 ∧
      fault? (run 4 (after (run 1 stumbling))) = some (.registerOutOfRange 1 16) ∧
      shortTurn.genome.isEmpty = false := by
    decide +kernel
  obtain ⟨hfirst, hsecond, hstart, hfault, hgenome⟩ := hcounts
  replace hfirst := count?_eq_some hfirst
  replace hsecond := count?_eq_some hsecond
  replace hstart := count?_eq_some hstart
  replace hfault := fault?_eq_some.mp hfault
  obtain ⟨-, hok, -, -, hsteps⟩ := run_splits execute shortTurn 1 4
  obtain ⟨-, -, -, herror, -⟩ := run_splits execute stumbling 1 4
  have hboth := hok _ _ _ _ hfirst hsecond
  obtain ⟨-, -, hlast, hend⟩ := (hsteps hgenome _ _ _).mp hboth
  refine ⟨⟨_, _, ⟨hfirst, hsecond⟩, hboth, hlast, ?_⟩, _, _, ⟨hstart, hfault⟩,
    herror _ _ _ _ hstart hfault⟩
  exact hend.resolve_left (by decide)

/-- Carries out any instruction by taking the genome away. -/
def vanish (_ : Instruction) : Action Unit := fun m =>
  .ok () { m with genome := #[] }

def fleeting : Machine :=
  Machine.new .standard #[⟨0, 0, 0, 0⟩]

def vanished : Machine :=
  { fleeting with genome := #[], pointer := 1 }

/-- Two batches of one step come to one step here, and a batch of two steps comes to two: the second
one is made without a genome. -/
theorem not_run_splits :
    (runBy vanish 1 fleeting = .ok 1 vanished ∧ runBy vanish 1 vanished = .ok 0 vanished) ∧
      runBy vanish (1 + 1) fleeting = .ok 2 vanished ∧
      runBy vanish (1 + 1) fleeting ≠ .ok (1 + 0) vanished := by
  have hhalted : fleeting.halted = false := by decide +kernel
  have hgone : vanished.halted = false := hhalted
  have hstep : stepBy vanish fleeting = .ok () vanished := rfl
  have hfirst : runBy vanish 1 fleeting = .ok 1 vanished := by
    rw [runBy_of_not_empty rfl, runFromBy_of_ok _ _ hhalted hstep]
    rfl
  have hboth : runBy vanish (1 + 1) fleeting = .ok 2 vanished := by
    rw [runBy_of_not_empty rfl, runFromBy_of_ok _ _ hhalted hstep]
    exact runFromBy_of_empty rfl hgone 1 1
  refine ⟨⟨hfirst, runBy_of_empty rfl 1⟩, hboth, ?_⟩
  rw [hboth]
  simp

end GenomeMachine
