import GenomeMachine.Proofs.Structured.Simulation

/-! # Structured programs mean what their nesting says

The genome of a structured program goes through exactly the runs of the program. Where the
program has no run to an end, the machine goes on forever without a fault. -/

namespace GenomeMachine

open Machine

/-! ## Runs that end -/

/-- The machine gets through nodes, wherever they stand, and makes of one store the other. -/
def Simulates (nodes : Nodes) (s s' : Store) : Prop :=
  ∀ {level : Nat} {tail : List Instruction} {m n : Machine}, Ready level nodes tail n →
    m.closeFinished level = n → n.store = s →
    ∃ count m', Steps count m m' ∧
      m'.closeFinished level = n.jump s' (n.pointer + (nodes.layout level).length) ∧
      (nodes = .none ∨ 0 < count)

section Node

variable {level : Nat} {opener : Opener} {body : List PlainInstruction} {children rest : Nodes}
  {tail : List Instruction} {m n : Machine} {entered inner : Store}

theorem steps_inside (hn : Ready level (.node opener body children rest) tail n)
    (hm : m.closeFinished level = n) (henter : opener.enter n.store = some entered)
    (hchildren : Simulates children (runBody body entered).1 inner) :
    ∃ count m', Steps (1 + body.length + count) m m' ∧
      m'.closeFinished (level + 1) = n.inside (nodeFrame level opener n.pointer) inner
        (runBody body entered).2 (n.pointer + nodeLength level body children) := by
  have hinside := hn.toChildren (runBody body entered).1 (runBody body entered).2
  obtain ⟨count, m', hsteps, hm', _⟩ := hchildren hinside hinside.closeFinished_self rfl
  rw [jump_inside, pointer_inside, add_nodeLength] at hm'
  exact ⟨count, m', (hn.steps_enter hm henter).trans hsteps, hm'⟩

end Node

theorem simulates_of_runs {nodes : Nodes} {s s' : Store} (h : nodes.Runs s s') :
    Simulates nodes s s' := by
  induction h with
  | none s =>
      intro level tail m n _ hm hs
      subst hs
      exact ⟨0, m, .zero m, hm, .inl rfl⟩
  | skip henter _ ih =>
      intro level tail m n hn hm hs
      subst hs
      have hnext := hn.toRest n.store
      obtain ⟨count, m', hsteps, hm', _⟩ := ih hnext hnext.closeFinished_self rfl
      refine ⟨1 + count, m', (hn.steps_skip hm henter).trans hsteps, ?_, .inr (by omega)⟩
      rw [hm', jump_jump, pointer_jump, length_layout_node, Nat.add_assoc]
  | once henter hrepeats _ _ ihChildren ihRest =>
      intro level tail m n hn hm hs
      subst hs
      obtain ⟨count, m₁, hsteps, hm₁⟩ := steps_inside hn hm henter ihChildren
      obtain ⟨count', m', hsteps', hm', _⟩ :=
        ihRest (hn.toRest _) (hn.closeFinished_once hrepeats hm₁) rfl
      refine ⟨_, m', hsteps.trans hsteps', ?_, .inr (by omega)⟩
      rw [hm', jump_jump, pointer_jump, length_layout_node, Nat.add_assoc]
  | again henter hrepeats _ _ ihChildren ihAgain =>
      intro level tail m n hn hm hs
      subst hs
      obtain ⟨count, m₁, hsteps, hm₁⟩ := steps_inside hn hm henter ihChildren
      obtain ⟨hinside, hstep⟩ := hn.step_again hrepeats hm₁
      obtain ⟨count', m', hsteps', hm', hpos⟩ :=
        ihAgain (hn.restart _) (hn.restart _).closeFinished_self (store_jump n _ n.pointer)
      obtain ⟨last, rfl⟩ : ∃ last, count' = last + 1 := by
        rcases hpos with hnone | hpos
        · cases hnone
        · exact ⟨count' - 1, by omega⟩
      exact ⟨_, m', hsteps.trans (hsteps'.of_step_eq hinside hstep), hm', .inr (by omega)⟩

/-! ## Runs that do not end -/

/-- The machine never comes to the end of nodes that have no run to an end. -/
theorem steps_of_not_runs (count : Nat) {nodes : Nodes} {level : Nat} {tail : List Instruction}
    {m n : Machine} (hn : Ready level nodes tail n) (hm : m.closeFinished level = n)
    (hdiverges : ∀ s', ¬nodes.Runs n.store s') : ∃ m', Steps count m m' := by
  -- Each node takes a step of its own, and what comes after it has fewer steps to make.
  induction count generalizing nodes level tail m n with
  | zero => exact ⟨m, .zero m⟩
  | succ count ih =>
      cases nodes with
      | none => exact absurd (.none n.store) (hdiverges n.store)
      | node opener body children rest =>
          cases henter : opener.enter n.store with
          | none =>
              have hnext := hn.toRest n.store
              obtain ⟨m', hsteps⟩ := ih hnext hnext.closeFinished_self
                fun s' h => hdiverges s' (.skip henter h)
              exact ((hn.steps_skip hm henter).trans hsteps).truncate (by omega)
          | some entered =>
              by_cases hchildren : ∃ inner, children.Runs (runBody body entered).1 inner
              · obtain ⟨inner, hinner⟩ := hchildren
                obtain ⟨made, m₁, hsteps, hm₁⟩ :=
                  steps_inside hn hm henter (simulates_of_runs hinner)
                have hlater : ∃ m', Steps count m₁ m' := by
                  cases hrepeats : opener.repeats with
                  | false =>
                      exact ih (hn.toRest _) (hn.closeFinished_once hrepeats hm₁)
                        fun s' h => hdiverges s' (.once henter hrepeats hinner h)
                  | true =>
                      obtain ⟨hinside, hstep⟩ := hn.step_again hrepeats hm₁
                      have hnext := hn.restart (inner.restore (runBody body entered).2)
                      obtain ⟨m', hsteps'⟩ := ih hnext hnext.closeFinished_self
                        fun s' h => hdiverges s' (.again henter hrepeats hinner h)
                      cases count with
                      | zero => exact ⟨m₁, .zero m₁⟩
                      | succ count => exact ⟨m', hsteps'.of_step_eq hinside hstep⟩
                obtain ⟨m', hsteps'⟩ := hlater
                exact (hsteps.trans hsteps').truncate (by omega)
              · have hinside := hn.toChildren (runBody body entered).1 (runBody body entered).2
                obtain ⟨m', hsteps⟩ := ih hinside hinside.closeFinished_self
                  fun s' h => hchildren ⟨s', h⟩
                exact ((hn.steps_enter hm henter).trans hsteps).truncate (by omega)

/-! ## Programs -/

namespace Program

/-- A machine that has a program before it, with any data. -/
structure Loaded (p : Program) (m : Machine) : Prop where
  catalog : m.catalog = .standard
  genome : m.genome = p.genome
  pointer : m.pointer = 0
  opened : m.opened = []
  backups : ∀ b ∈ m.backups, b.depth = 0
  pending : m.pending = false

/-- The machine at the end of a program. The last opener has left its scope open, and what the
program's own body saved is still there. -/
def finish (p : Program) (m : Machine) (s : Store) : Machine :=
  { m.withStore s with
    pointer := p.genome.size
    opened := [⟨1, .basic, p.genome.size - 1⟩]
    backups := m.own (runBody p.body m.store).2 ++ m.backups }

theorem size_genome (p : Program) :
    p.genome.size = p.body.length + (p.nodes.layout 0).length + 1 := by
  simp [Program.genome, bodyInstructions, Nat.add_assoc]

theorem code_loaded {p : Program} {m : Machine} (h : p.Loaded m) :
    m.code = bodyInstructions p.body ++ (p.nodes.layout 0 ++ [Opener.block.instruction 0]) := by
  simp [Machine.code, h.genome, h.pointer, Program.genome]

/-- The machine behind the program's own body. -/
def afterBody (p : Program) (m : Machine) : Machine :=
  m.proceed (runBody p.body m.store).1 (runBody p.body m.store).2 p.body.length

/-- Behind the body, the machine is ready for the nodes of the program. -/
theorem ready_nodes {p : Program} {m : Machine} (h : p.Loaded m) :
    Ready 0 p.nodes [Opener.block.instruction 0] (p.afterBody m) := by
  have hroot : m.innermost.depth = 0 := by simp [innermost, h.opened, Frame.root]
  refine ⟨h.catalog, h.pending, ?_, ⟨.block, 0, [], Nat.le_refl 0, rfl⟩, ?_, ?_,
    Nat.le_of_eq hroot, ?_⟩
  · exact code_of_append (code_loaded h) rfl (by simp [afterBody, proceed, bodyInstructions])
  · simpa using p.height_le
  · simp [afterBody, proceed, withStore, h.opened]
  · intro b hb
    rcases List.mem_append.mp hb with hb | hb
    · obtain ⟨_, _, rfl⟩ := List.mem_map.mp hb
      exact Nat.le_of_eq hroot
    · exact Nat.le_of_eq (h.backups b hb)

/-- The last opener finishes what the nodes left open. -/
theorem steps_finish {p : Program} {m m' : Machine} (h : p.Loaded m) {s : Store}
    (hm' : m'.closeFinished 0 =
      (p.afterBody m).jump s ((p.afterBody m).pointer + (p.nodes.layout 0).length)) :
    Steps 1 m' (p.finish m s) := by
  have hend := (ready_nodes h).toEnd s
  obtain ⟨hcatalog, hpending, hcode⟩ := hend.of_closeFinished hm'
  have hdispatch := dispatch_enter .block hcatalog (by omega) hm' (Nat.lt_succ_of_le hend.depth)
    (by simp [frames, afterBody, jump, proceed, withStore, h.opened])
  have hfetch := fetch_of_code hcode
  refine .single (inside_of_fetch hfetch)
    ((step_of_dispatch hpending hfetch hdispatch h.pending).trans ?_)
  have hposition : (p.afterBody m).pointer + (p.nodes.layout 0).length + 1 = p.genome.size := by
    simp [afterBody, proceed, h.pointer, size_genome]
  rw [finish, ← hposition, Nat.add_sub_cancel, ← h.opened]
  rfl

theorem steps_afterBody {p : Program} {m : Machine} (h : p.Loaded m) :
    Steps p.body.length m (p.afterBody m) :=
  steps_body h.catalog h.pending (code_loaded h)

theorem steps_of_runs {p : Program} {m : Machine} (h : p.Loaded m) {s : Store}
    (hruns : p.Runs m.store s) : ∃ count, Steps count m (p.finish m s) := by
  have hready := ready_nodes h
  obtain ⟨count, m', hsteps, hm', _⟩ :=
    simulates_of_runs hruns hready hready.closeFinished_self rfl
  exact ⟨_, ((steps_afterBody h).trans hsteps).trans (steps_finish h hm')⟩

theorem steps_of_diverges {p : Program} {m : Machine} (h : p.Loaded m)
    (hdiverges : ∀ s, ¬p.Runs m.store s) (count : Nat) : ∃ m', Steps count m m' := by
  have hready := ready_nodes h
  obtain ⟨m', hsteps⟩ := steps_of_not_runs count hready hready.closeFinished_self hdiverges
  exact ((steps_afterBody h).trans hsteps).truncate (by omega)

theorem runs_of_steps {p : Program} {m : Machine} (h : p.Loaded m) {s : Store} {count : Nat}
    (hsteps : Steps count m (p.finish m s)) : p.Runs m.store s := by
  have houtside : (p.finish m s).genome.size ≤ (p.finish m s).pointer :=
    Nat.le_of_eq (congrArg Array.size h.genome)
  by_cases hruns : ∃ s', p.Runs m.store s'
  · obtain ⟨s', hs'⟩ := hruns
    obtain ⟨count', hsteps'⟩ := steps_of_runs h hs'
    have hcount : count' = count :=
      Nat.le_antisymm (hsteps.le_of_outside houtside hsteps')
        (hsteps'.le_of_outside houtside hsteps)
    have hfinish := hsteps.deterministic (hcount ▸ hsteps')
    have hstore : s = s' := congrArg store hfinish
    exact hstore ▸ hs'
  · obtain ⟨m', hlonger⟩ := steps_of_diverges h (fun s' hs' => hruns ⟨s', hs'⟩) (count + 1)
    have := hsteps.le_of_outside houtside hlonger
    omega

end Program

/-- A structured program takes one store to another exactly if the machine, stepping through its
genome from the start and without a fault, comes to the end with that store. If the program does
not end, the machine steps on inside the genome forever. -/
theorem structured_runs_iff_steps (p : Program) {m : Machine} (h : p.Loaded m) :
    (∀ s, p.Runs m.store s ↔ ∃ count, Steps count m (p.finish m s)) ∧
      ((∀ s, ¬p.Runs m.store s) → ∀ count, ∃ m', Steps count m m') := by
  refine ⟨fun s => ⟨Program.steps_of_runs h, ?_⟩, Program.steps_of_diverges h⟩
  rintro ⟨count, hsteps⟩
  exact Program.runs_of_steps h hsteps

/-- Twice adds one more than register 1 to register 3. Register 1 is only borrowed. -/
def tally : Program where
  body := []
  nodes := .node (.guarded .countdown 2)
    [⟨⟨37, 1, 0, 0⟩, standardEntries[37], by rw [Catalog.entry?_standard]; rfl, by decide,
        by decide⟩,
      ⟨⟨0, 1, 0, 0⟩, standardEntries[0], by rw [Catalog.entry?_standard]; rfl, by decide,
        by decide⟩]
    (.node (.guarded .once 1)
      [⟨⟨4, 1, 3, 3⟩, standardEntries[4], by rw [Catalog.entry?_standard]; rfl, by decide,
        by decide⟩] .none .none)
    .none
  height_le := by decide

/-- A loop on register 1, which nothing changes. -/
def endless : Program where
  body := []
  nodes := .node (.guarded .repeated 1) [] .none .none
  height_le := by decide

theorem loaded_new (p : Program) : p.Loaded (.new .standard p.genome) where
  catalog := by simp only [new]
  genome := by simp only [new]
  pointer := by simp only [new]
  opened := by simp only [new]
  backups := by simp [new]
  pending := by simp only [new]

theorem tally_runs : ∃ s, tally.Runs (Machine.new .standard tally.genome).store s ∧
    (s.registers.get 1 == 1.0 ∧ s.registers.get 2 == 0.0 ∧ s.registers.get 3 == 7.0) := by
  have hcountdown : ∀ {s : Store}, ¬(s.registers.get 2 == 0.0) →
      (Opener.guarded .countdown 2).enter s = some (s.setRegister 2 (s.registers.get 2 - 1.0)) :=
    fun h => if_neg h
  have honce : ∀ {s : Store}, ¬(s.registers.get 1 == 0.0) →
      (Opener.guarded .once 1).enter s = some s := fun h => if_neg h
  have hskip : ∀ {s : Store}, s.registers.get 2 == 0.0 →
      (Opener.guarded .countdown 2).enter s = none := fun h => if_pos h
  refine ⟨_, .again (hcountdown ?_) rfl (.once (honce ?_) rfl (.none _) (.none _))
    (.again (hcountdown ?_) rfl (.once (honce ?_) rfl (.none _) (.none _))
      (.skip (hskip ?_) (.none _))), ?_⟩
  all_goals decide +kernel

theorem endless_diverges {s s' : Store} (h : ¬(s.registers.get 1 == 0.0)) :
    ¬endless.nodes.Runs s s' := by
  intro hruns
  generalize hnodes : endless.nodes = nodes at hruns
  induction hruns with
  | none => cases hnodes
  | skip henter =>
      cases hnodes
      simp [Opener.enter, h] at henter
  | once _ hrepeats =>
      cases hnodes
      cases hrepeats
  | again henter _ hchildren _ _ ih =>
      cases hnodes
      cases hchildren
      simp only [Opener.enter, if_neg h, Option.some.injEq] at henter
      subst henter
      exact ih h rfl

theorem tally_endless_steps :
    (tally.Loaded (.new .standard tally.genome) ∧
      ∃ s count, Steps count (.new .standard tally.genome)
        (tally.finish (.new .standard tally.genome) s) ∧ s.registers.get 3 == 7.0) ∧
    endless.Loaded (.new .standard endless.genome) ∧
      ∀ count, ∃ m', Steps count (.new .standard endless.genome) m' := by
  refine ⟨⟨loaded_new tally, ?_⟩, loaded_new endless, ?_⟩
  · obtain ⟨s, hruns, _, _, hsum⟩ := tally_runs
    obtain ⟨count, hsteps⟩ := ((structured_runs_iff_steps tally (loaded_new tally)).1 s).mp hruns
    exact ⟨s, count, hsteps, hsum⟩
  · exact (structured_runs_iff_steps endless (loaded_new endless)).2
      fun s => endless_diverges (by decide +kernel)

end GenomeMachine
