import GenomeMachine.Proofs.Run.Course

/-! # Where scopes come from

While a genome runs, every open scope can be traced back to the instruction that opened it, and
every function to its definition. So a loop that is finished goes back to its own opener, which
finds the scopes around the loop as they were when the loop was opened. -/

namespace GenomeMachine

/-- The instruction has a control operation in the standard catalog. -/
def Instruction.Performs (i : Instruction) (op : ControlOp) : Prop :=
  (Catalog.standard.entry? i.id).map (·.opcode) = some (.control op)

instance (i : Instruction) (op : ControlOp) : Decidable (i.Performs op) :=
  inferInstanceAs (Decidable (_ = _))

theorem performs_iff {i : Instruction} {op : ControlOp} :
    i.Performs op ↔ standardEntries[i.id.toNat]?.map (·.opcode) = some (.control op) := by
  rw [Instruction.Performs, Catalog.entry?_standard]

/-- The instruction opens scopes like this one. A call opens the scope of a definition, and
guarded openers have a register to test. -/
inductive Opens (genome : Genome) (i : Instruction) : Frame → Prop where
  | guarded {guard : Guard} {start : Nat} (hop : i.Performs (.guarded guard))
      (htest : i.first.toNat < 16) : Opens genome i ⟨i.second.toNat + 1, guard.kind, start⟩
  | block {start : Nat} (hop : i.Performs .block) :
      Opens genome i ⟨i.first.toNat + 1, .basic, start⟩
  | call {definition : Instruction} {start : Nat} (hop : i.Performs .call)
      (hmem : definition ∈ genome) (hdefine : definition.Performs .define) :
      Opens genome i ⟨definition.second.toNat + 1, .function, start⟩

theorem Opens.guard_of_loop {genome : Genome} {i : Instruction} {frame : Frame}
    (h : Opens genome i frame) (hkind : frame.kind = .loop) :
    ∃ guard : Guard, i.Performs (.guarded guard) ∧ guard.kind = .loop ∧ i.first.toNat < 16 ∧
      frame.depth = i.second.toNat + 1 := by
  cases h with
  | guarded hop htest => exact ⟨_, hop, hkind, htest, rfl⟩
  | block => cases hkind
  | call => cases hkind

theorem Opens.performs_of_function {genome : Genome} {i : Instruction} {frame : Frame}
    (h : Opens genome i frame) (hkind : frame.kind = .function) : i.Performs .call := by
  cases h with
  | @guarded guard => cases guard <;> cases hkind
  | block => cases hkind
  | call hop => exact hop

theorem scopeRule?_of_define {i : Instruction} (h : i.Performs .define) :
    Catalog.standard.scopeRule? i.id = some ⟨.function, 1⟩ := by
  have hrule : ∀ e ∈ standardEntries, e.opcode = .control .define →
      e.scope = some ⟨.function, 1⟩ := by decide
  obtain ⟨e, he, hop⟩ := Option.map_eq_some_iff.mp h
  have hmem := Catalog.mem_standardEntries he
  rw [Catalog.scopeRule?, he, Option.bind_some, hrule e hmem hop]

theorem slot?_eq_some {n : Nat} {slot : Slot} : slot? n = some slot ↔ n = slot.val := by
  unfold slot?
  split
  next h => simp [Fin.ext_iff]
  next h =>
    have := slot.isLt
    simp
    omega

namespace Machine

/-- Everything that a machine has open or defined comes from its genome, and it points no further
than to a limit. -/
structure Provenance (genome : Genome) (limit : Nat) (m : Machine) : Prop where
  catalog_eq : m.catalog = .standard
  genome_eq : m.genome = genome
  frames : ∀ frame ∈ m.opened, ∃ i, genome[frame.start]? = some i ∧ Opens genome i frame
  functions : ∀ slot position, m.function? slot = some position →
    ∃ i, genome[position]? = some i ∧ i.Performs .define ∧ i.first.toNat = slot
  pointer_le : m.pointer ≤ limit

theorem provenance_initial (genome : Genome) (inputs : Cells) (limit : Nat) :
    Provenance genome limit (initial genome inputs) where
  catalog_eq := by simp only [initial, new]
  genome_eq := by simp only [initial, new]
  frames := by simp [initial, new]
  functions := by
    intro slot position h
    simp only [function?, initial, new, Option.join_eq_some_iff, Vector.getElem?_replicate] at h
    split at h <;> simp at h
  pointer_le := by simp [initial, new]

section Kept

variable {genome : Genome} {limit limit' : Nat} {m m' : Machine}

/-- The machine has no other scopes and functions than one of known provenance. -/
theorem Provenance.shrink (h : Provenance genome limit m) (hcatalog : m'.catalog = m.catalog)
    (hgenome : m'.genome = m.genome) (hfunctions : m'.functions = m.functions)
    (hopened : m'.opened ⊆ m.opened) (hpointer : m'.pointer ≤ limit') :
    Provenance genome limit' m' where
  catalog_eq := hcatalog.trans h.catalog_eq
  genome_eq := hgenome.trans h.genome_eq
  frames := fun frame hframe => h.frames frame (hopened hframe)
  functions := fun slot position hslot => by
    rw [function?, hfunctions] at hslot
    exact h.functions slot position hslot
  pointer_le := hpointer

theorem Provenance.closeScope (h : Provenance genome limit m) :
    Provenance genome limit m.closeScope :=
  h.shrink (by simp) (by simp) (by simp) (by simpa using m.opened.tail_suffix.subset)
    (by simpa using h.pointer_le)

theorem Provenance.closeFinished (h : Provenance genome limit m) (level : Nat) :
    Provenance genome limit (m.closeFinished level) :=
  closeFinished_induction level (fun _ _ hn => hn.closeScope) h

theorem Provenance.start_lt (h : Provenance genome limit m) {frame : Frame}
    (hframe : frame ∈ m.opened) : frame.start < genome.size := by
  obtain ⟨_, hstart, _⟩ := h.frames frame hframe
  exact (Array.getElem?_eq_some_iff.mp hstart).1

theorem Provenance.openScope (h : Provenance genome limit m) {i : Instruction}
    (hfetch : genome[m.pointer]? = some i) {depth : Nat} {kind : ScopeKind}
    (hopens : Opens genome i ⟨depth, kind, m.pointer⟩) :
    Provenance genome limit (m.openScope depth kind) := by
  refine { h with frames := ?_ }
  intro frame hframe
  rcases List.mem_cons.mp hframe with rfl | hframe
  · exact ⟨i, hfetch, hopens⟩
  · exact h.frames frame hframe

theorem function?_setFunction (m : Machine) (slot : Slot) (position : Option Nat) (n : Nat) :
    (m.setFunction slot position).function? n =
      if slot.val = n then position else m.function? n := by
  simp only [function?, setFunction, Vector.getElem?_set]
  split <;> simp_all

theorem Provenance.setFunction (h : Provenance genome limit m) {i : Instruction} {position : Nat}
    (hfetch : genome[position]? = some i) (hop : i.Performs .define) {slot : Slot}
    (hslot : i.first.toNat = slot.val) :
    Provenance genome limit (m.setFunction slot (some position)) := by
  refine { h with functions := ?_ }
  intro n p hn
  rw [function?_setFunction] at hn
  split at hn
  next heq =>
    cases hn
    exact ⟨i, hfetch, hop, hslot.trans heq⟩
  next => exact h.functions n p hn

theorem nextOpener?_lt {depth position : Nat} (h : m.nextOpener? depth = some position) :
    position < m.genome.size := by
  obtain ⟨index, hindex, rfl⟩ := Option.map_eq_some_iff.mp h
  obtain ⟨hlt, _⟩ := Array.findIdx?_eq_some_iff_getElem.mp hindex
  simp only [Array.size_extract, Nat.min_self] at hlt
  omega

/-- Leaving a scope does not lead out of the genome. -/
theorem pointer_leaveScope_le (h : m.pointer ≤ m.genome.size) (level : Nat) :
    (m.leaveScope level).pointer ≤ m.genome.size := by
  simp only [Machine.leaveScope]
  split
  · exact h
  · dsimp only
    split
    next position hposition =>
      have := nextOpener?_lt hposition
      omega
    next => omega

theorem opened_leaveScope_subset (level : Nat) : (m.leaveScope level).opened ⊆ m.opened := by
  by_cases hdepth : level < m.innermost.depth
  · rw [opened_leaveScope hdepth]
    exact m.opened.tail_suffix.subset
  · rw [leaveScope_of_le (Nat.le_of_not_lt hdepth)]
    exact List.Subset.refl _

theorem Provenance.leaveScope (h : Provenance genome genome.size m) (level : Nat) :
    Provenance genome genome.size (m.leaveScope level) := by
  have hsize : m.genome.size = genome.size := by rw [h.genome_eq]
  have hpointer := pointer_leaveScope_le (hsize ▸ h.pointer_le) level
  exact h.shrink (by simp) (by simp) (by simp) (opened_leaveScope_subset level) (hsize ▸ hpointer)

theorem Provenance.finishScope (h : Provenance genome genome.size m) {frame : Frame}
    (hframe : frame ∈ m.opened) : Provenance genome genome.size (m.finishScope frame) := by
  have hclose := h.closeScope
  unfold Machine.finishScope
  split
  · split
    next position hposition =>
      have hlt : position < genome.size := by
        simpa [h.genome_eq] using (Option.filter_eq_some_iff.mp hposition).2
      exact hclose.shrink rfl rfl rfl (List.Subset.refl _) (Nat.le_of_lt hlt)
    next => exact h.shrink rfl rfl rfl (List.nil_subset _) (Nat.zero_le _)
  · exact hclose.shrink rfl rfl rfl (List.Subset.refl _) (Nat.le_of_lt (h.start_lt hframe))

end Kept

/-! ## Instructions -/

section Instructions

variable {genome : Genome} {m : Machine} {i : Instruction}

theorem opcode?_eq_iff (hcatalog : m.catalog = .standard) {op : ControlOp} :
    m.opcode? i = some (.control op) ↔ i.Performs op := by
  rw [opcode?, hcatalog, Instruction.Performs]

/-- A call goes to a definition, at the level that this one has in the genome. -/
theorem Provenance.callTarget {limit slot position level : Nat} (h : Provenance genome limit m)
    (htarget : m.callTarget? slot = some (position, level)) :
    ∃ definition, genome[position]? = some definition ∧ definition.Performs .define ∧
      level = definition.second.toNat := by
  simp only [callTarget?, Option.bind_eq_bind, Option.bind_eq_some_iff] at htarget
  obtain ⟨start, hstart, definition, hdefinition, rule, hrule, hsome⟩ := htarget
  obtain ⟨i, hi, hdefine, _⟩ := h.functions slot start hstart
  rw [instruction?, h.genome_eq, hi] at hdefinition
  obtain rfl := Option.some.inj hdefinition
  rw [h.catalog_eq, scopeRule?_of_define hdefine] at hrule
  cases hrule
  rw [if_pos rfl] at hsome
  obtain ⟨rfl, rfl⟩ := Prod.mk.inj (Option.some.inj hsome)
  exact ⟨i, hi, hdefine, rfl⟩

/-- What an instruction does inside the scope that it opened keeps the provenance. -/
theorem Provenance.entered (h : Provenance genome genome.size m)
    (hfetch : genome[m.pointer]? = some i) {level : Nat} {kind : ScopeKind}
    {body : Machine → Machine} (hreach : Reaches i m level kind body) :
    Provenance genome genome.size (body ((m.closeFinished level).openScope (level + 1) kind)) := by
  have hclosed := h.closeFinished level
  have hpointer : genome[(m.closeFinished level).pointer]? = some i := by simpa using hfetch
  cases hreach with
  | guarded hop htest =>
      have htest := slot?_eq_some.mp htest
      have hopen := hclosed.openScope hpointer
        (.guarded ((opcode?_eq_iff h.catalog_eq).mp hop) (htest ▸ Fin.isLt _))
      unfold startGuarded
      split
      · exact hopen.leaveScope _
      · split <;> exact hopen.shrink rfl rfl rfl (List.Subset.refl _) hopen.pointer_le
  | block hop =>
      exact hclosed.openScope hpointer (.block ((opcode?_eq_iff h.catalog_eq).mp hop))
  | define hop hslot =>
      -- The scope of a definition is left at once, so it needs no provenance of its own.
      have hset := hclosed.setFunction hpointer ((opcode?_eq_iff h.catalog_eq).mp hop)
        (slot?_eq_some.mp hslot)
      have hsize : (m.closeFinished i.second.toNat).genome.size = genome.size := by
        rw [hclosed.genome_eq]
      refine hset.shrink (by simp [Machine.openScope, Machine.setFunction])
        (by simp [Machine.openScope, Machine.setFunction])
        (by simp [Machine.openScope, Machine.setFunction]) ?_ ?_
      · rw [opened_leaveScope (Nat.lt_succ_self _)]
        exact List.Subset.refl _
      · rw [← hsize]
        exact pointer_leaveScope_le (hsize ▸ hclosed.pointer_le) _
  | call hop htarget =>
      obtain ⟨definition, hdefinition, hdefine, rfl⟩ := h.callTarget htarget
      have hlt := (Array.getElem?_eq_some_iff.mp hdefinition).1
      have hopen := hclosed.openScope hpointer
        (.call ((opcode?_eq_iff h.catalog_eq).mp hop) (Array.mem_of_getElem? hdefinition) hdefine)
      exact hopen.shrink rfl rfl rfl (List.Subset.refl _) hlt

theorem Provenance.dispatch (h : Provenance genome genome.size m)
    (hfetch : genome[m.pointer]? = some i) :
    Provenance genome genome.size (after (Machine.dispatch i m)) := by
  have houtcome := dispatch_outcome i m
  generalize Machine.dispatch i m = result at houtcome ⊢
  cases houtcome with
  | refused fault => exact h
  | worked => exact h.shrink rfl rfl rfl (List.Subset.refl _) h.pointer_le
  | ignored => exact h
  | left hop => exact h.leaveScope _
  | full hreach hdepth hfull => exact h.closeFinished _
  | finished hfinish =>
      have hclosed := hfinish.induction (fun _ _ hn => hn.closeScope) h
      exact hclosed.finishScope (hfinish.opened_eq ▸ List.mem_cons_self)
  | entered hreach hdepth hroom => exact h.entered hfetch hreach

end Instructions

/-! ## The course of a genome -/

theorem phases_provenance (genome : Genome) :
    Phases (Provenance genome genome.size) (Provenance genome (genome.size + 1)) where
  arrive m h := by
    unfold arrive
    split
    next => exact h.shrink rfl rfl rfl (List.nil_subset _) (Nat.zero_le _)
    next hinside =>
      rw [h.genome_eq] at hinside
      exact h.shrink rfl rfl rfl (List.Subset.refl _) (Nat.le_of_not_le hinside)
  rest m h := { h with pointer_le := Nat.le_succ_of_le h.pointer_le }
  advance m h := { h with pointer_le := Nat.succ_le_succ h.pointer_le }

/-- Wherever a genome has got to, what is open and defined comes from the genome. -/
theorem provenance_stateAt (genome : Genome) (inputs : Cells) (n : Nat) :
    Provenance genome (genome.size + 1) (stateAt genome inputs n) ∧
      ∀ d, Carries (stateAt genome inputs n) d → Provenance genome genome.size d.machine := by
  refine stateAt_preserve (phases_provenance genome) (provenance_initial genome inputs _) ?_ n
  intro _ d hd h
  have hfetch := hd.fetched.2
  rw [instruction?, h.genome_eq] at hfetch
  exact h.dispatch hfetch

/-! ## Going back in a loop -/

/-- The machine outside a scope, at the opener of the scope. -/
def backAt (m : Machine) (frame : Frame) : Machine :=
  { m.closeScope with pointer := frame.start }

/-- Back at its opener, a loop finds room for its scope and nothing to close, and its guard
decides. -/
theorem Provenance.dispatch_backAt {genome : Genome} {limit : Nat} {m : Machine} {frame : Frame}
    (h : Provenance genome limit m) (hnested : Nested m)
    (hopened : m.opened = frame :: m.closeScope.opened) (hkind : frame.kind = .loop) :
    ∃ opener guard test, genome[frame.start]? = some opener ∧ Opens genome opener frame ∧
      slot? opener.first.toNat = some test ∧
      Machine.dispatch opener (m.backAt frame) = .ok ()
        (startGuarded guard test (frame.depth - 1)
          ((m.backAt frame).openScope frame.depth .loop)) := by
  have hmem : frame ∈ m.opened := hopened ▸ List.mem_cons_self
  obtain ⟨opener, hopener, hopens⟩ := h.frames frame hmem
  obtain ⟨guard, hop, hguard, htest, hdepth⟩ := hopens.guard_of_loop hkind
  have hslot : slot? opener.first.toNat = some ⟨_, htest⟩ := slot?_eq_some.mpr rfl
  have hcatalog : (m.backAt frame).catalog = .standard :=
    (catalog_closeScope m).trans h.catalog_eq
  have hopcode := (opcode?_eq_iff hcatalog).mpr hop
  have hframes : m.frames = frame :: (m.backAt frame).frames := by
    rw [Machine.frames, hopened]
    rfl
  have hbelow : (m.backAt frame).innermost.depth < opener.second.toNat + 1 := by
    have hordered := hnested.ordered
    rw [hframes] at hordered
    rw [← hdepth]
    exact List.rel_of_pairwise_cons hordered (innermost_mem_frames _)
  have hroom : (m.backAt frame).frames.length < 16 := by
    have hlength := hnested.length_le
    rwa [hframes] at hlength
  refine ⟨opener, guard, ⟨_, htest⟩, hopener, hopens, hslot, ?_⟩
  rw [(Reaches.guarded hopcode hslot).dispatch_enter (closeFinished_of_lt hbelow) hbelow hroom,
    hguard, hdepth]
  rfl

theorem Finishes.dispatch_loop {i : Instruction} {m closed : Machine} {frame : Frame}
    (h : Finishes i m frame closed) (hkind : frame.kind = .loop) :
    Machine.dispatch i m = .ok () { closed.backAt frame with pending := true } := by
  rw [h.dispatch_eq, finishScope, if_neg (by simp [hkind])]
  rfl

/-- The opener of a finished loop is carried out in the same step. -/
theorem Carries.again {m closed : Machine} {d : Dispatched} {frame : Frame} {opener : Instruction}
    (h : Carries m d) (hfinish : Finishes d.instruction d.machine frame closed)
    (hkind : frame.kind = .loop) (hopener : closed.genome[frame.start]? = some opener) :
    Carries m ⟨closed.backAt frame, opener⟩ := by
  refine h.due (hfinish.dispatch_loop hkind) ?_ ?_
  · simpa [backAt, hfinish.pending_eq] using h.fetched.1
  · simpa [backAt, instruction?] using hopener

/-- The guard of a scope decides whether its body is skipped. -/
theorem startGuarded_openScope (guard : Guard) (test : Slot) (m : Machine) {level depth : Nat}
    (kind : ScopeKind) (hdepth : level < depth) :
    if m.register test == 0.0 then
      startGuarded guard test level (m.openScope depth kind) =
          (m.openScope depth kind).leaveScope level ∧
        (startGuarded guard test level (m.openScope depth kind)).opened = m.opened
    else
      (startGuarded guard test level (m.openScope depth kind)).opened =
        ⟨depth, kind, m.pointer⟩ :: m.opened := by
  have hregister : (m.openScope depth kind).register test = m.register test := rfl
  unfold startGuarded
  rw [hregister]
  split
  · exact ⟨rfl, opened_leaveScope hdepth⟩
  · split <;> rfl

end Machine

open Machine

/-- While a genome runs, every open scope was opened by the instruction at its start, every
function is where a definition of it stands, and the pointer stays within the genome or close
behind it. So a finished loop goes back to its own opener in the same step. This one never fails
and closes no other scope: as its guard decides, it opens the same scope again, or skips the body
and leaves the scopes around it as they are. -/
theorem stateAt_provenance (genome : Genome) (inputs : Cells) (n : Nat) :
    (∀ frame ∈ (stateAt genome inputs n).opened,
        ∃ h : frame.start < genome.size, Opens genome genome[frame.start] frame) ∧
      (∀ slot position, (stateAt genome inputs n).function? slot = some position →
        ∃ h : position < genome.size,
          genome[position].Performs .define ∧ genome[position].first.toNat = slot) ∧
      (stateAt genome inputs n).pointer ≤ genome.size + 1 ∧
      ∀ d frame closed, Carries (stateAt genome inputs n) d →
        Finishes d.instruction d.machine frame closed → frame.kind = .loop →
        ∃ opener test outer next,
          genome[frame.start]? = some opener ∧ Opens genome opener frame ∧
          slot? opener.first.toNat = some test ∧ closed.opened = frame :: outer ∧
          dispatch d.instruction d.machine = .ok () { closed.backAt frame with pending := true } ∧
          Carries (stateAt genome inputs n) ⟨closed.backAt frame, opener⟩ ∧
          dispatch opener (closed.backAt frame) = .ok () next ∧ next.pending = false ∧
          if (closed.backAt frame).register test == 0.0 then
            next = ((closed.backAt frame).openScope frame.depth .loop).leaveScope
                (frame.depth - 1) ∧
              next.opened = outer
          else next.opened = frame :: outer := by
  obtain ⟨hresting, hworking⟩ := provenance_stateAt genome inputs n
  refine ⟨?_, ?_, hresting.pointer_le, ?_⟩
  · intro frame hframe
    obtain ⟨i, hi, hopens⟩ := hresting.frames frame hframe
    obtain ⟨hlt, rfl⟩ := Array.getElem?_eq_some_iff.mp hi
    exact ⟨hlt, hopens⟩
  · intro slot position hslot
    obtain ⟨i, hi, hdefine, hfirst⟩ := hresting.functions slot position hslot
    obtain ⟨hlt, rfl⟩ := Array.getElem?_eq_some_iff.mp hi
    exact ⟨hlt, hdefine, hfirst⟩
  · intro d frame closed hd hfinish hkind
    have hclosed := hfinish.induction (fun _ _ hn => hn.closeScope) (hworking d hd)
    have hnested := hfinish.induction (fun n _ hn => hn.move (.close n)) hd.nested
    obtain ⟨opener, guard, test, hopener, hopens, htest, hnext⟩ :=
      hclosed.dispatch_backAt hnested hfinish.opened_eq hkind
    have hdepth : frame.depth - 1 < frame.depth := by
      obtain ⟨_, _, _, _, hdepth⟩ := hopens.guard_of_loop hkind
      omega
    have hframe : frame = ⟨frame.depth, .loop, (closed.backAt frame).pointer⟩ := by
      rw [← hkind]
      rfl
    have hagain := hd.again hfinish hkind (hclosed.genome_eq ▸ hopener)
    refine ⟨opener, test, _, _, hopener, hopens, htest, hfinish.opened_eq,
      hfinish.dispatch_loop hkind, hagain, hnext, ?_, ?_⟩
    · rw [pending_startGuarded]
      simpa [backAt, openScope, hfinish.pending_eq] using hd.fetched.1
    · have hdecided := startGuarded_openScope guard test (closed.backAt frame) .loop hdepth
      rwa [← hframe] at hdecided

/-- A countdown on register 2, with one instruction inside and the end of the loop. -/
def countdown : Genome :=
  #[⟨14, 2, 0, 0⟩, ⟨0, 1, 0, 0⟩, outermostScope]

/-- The machine that has come to the end of the loop for the first time. -/
def countdownEnd : Machine :=
  stateAt countdown ∅ 2

theorem countdownEnd_opened :
    countdownEnd.opened = [⟨1, .loop, 0⟩] ∧
      countdownEnd.arrive.instruction? countdownEnd.arrive.pointer = some outermostScope ∧
      countdownEnd.arrive.opcode? outermostScope = some (.control .block) ∧
      (countdownEnd.arrive.closeFinished 0).opened = [⟨1, .loop, 0⟩] ∧
      ¬((countdownEnd.arrive.closeFinished 0).backAt ⟨1, .loop, 0⟩).register 2 == 0.0 := by
  decide +kernel

theorem countdownEnd_finishes :
    Finishes outermostScope countdownEnd.arrive ⟨1, .loop, 0⟩
      (countdownEnd.arrive.closeFinished 0) := by
  obtain ⟨_, _, hop, hopened, _⟩ := countdownEnd_opened
  have hinnermost : (countdownEnd.arrive.closeFinished 0).innermost = ⟨1, .loop, 0⟩ := by
    rw [innermost, hopened]
    rfl
  exact (Reaches.block hop).finishes hinnermost Nat.one_pos rfl

/-- With another pass to go, the loop is open again after the step that finished it. -/
theorem countdown_provenance :
    Carries countdownEnd ⟨countdownEnd.arrive, outermostScope⟩ ∧
      Opens countdown countdown[0] ⟨1, .loop, 0⟩ ∧
      ∃ next, dispatch countdown[0] ((countdownEnd.arrive.closeFinished 0).backAt ⟨1, .loop, 0⟩) =
          .ok () next ∧ next.opened = [⟨1, .loop, 0⟩] := by
  obtain ⟨hopened, hfetch, _, hclosed, htest⟩ := countdownEnd_opened
  obtain ⟨hframes, _, _, hloop⟩ := stateAt_provenance countdown ∅ 2
  obtain ⟨_, hopens⟩ := hframes ⟨1, .loop, 0⟩ (hopened ▸ List.mem_cons_self)
  have hloop := hloop ⟨_, _⟩ ⟨1, .loop, 0⟩ (countdownEnd.arrive.closeFinished 0)
    (carries_first hfetch)
  dsimp only at hloop
  obtain ⟨opener, test, outer, next, hopener, _, hslot, houter, _, _, hnext, _, hguard⟩ :=
    hloop countdownEnd_finishes rfl
  obtain rfl : countdown[0] = opener := Option.some.inj hopener
  obtain rfl : 2 = test := Option.some.inj hslot
  rw [if_neg htest] at hguard
  rw [hclosed] at houter
  exact ⟨carries_first hfetch, hopens, next, hnext, hguard.trans houter.symm⟩

end GenomeMachine
