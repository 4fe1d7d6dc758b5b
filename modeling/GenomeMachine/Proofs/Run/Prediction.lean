import GenomeMachine.Proofs.Run.Depths
import GenomeMachine.Proofs.Run.Log

/-! # Where the next step works

A machine can tell without a step where its next step does its work: `nextPosition` looks at the
open scopes and closes none of them. On the course of a genome it is right, as long as the first
instruction of the step finds its operands. -/

namespace GenomeMachine

/-! ## Instructions that declare a scope -/

theorem openedDepth_eq (c : Catalog) (i : Instruction) :
    c.openedDepth i = ((c.level? i).map (·.toNat + 1)).getD 0 := by
  rw [Catalog.openedDepth, Catalog.level?]
  cases c.scopeRule? i.id <;> rfl

theorem openedDepth_of_performs {i : Instruction} {op : ControlOp} (h : i.Performs op) :
    Catalog.standard.openedDepth i =
      ((Opcode.control op).levelSlot?.map fun slot => (i.arg slot).toNat + 1).getD 0 := by
  rw [openedDepth_eq, level?_of_performs h, Option.map_map]
  rfl

/-- An instruction declares a scope through its entry. -/
theorem exists_entry_of_openedDepth {c : Catalog} {i : Instruction} (h : 0 < c.openedDepth i) :
    ∃ e, c.entry? i.id = some e ∧ e.scope.isSome := by
  rw [Catalog.openedDepth, Catalog.scopeRule?] at h
  cases hentry : c.entry? i.id with
  | none => simp [hentry] at h
  | some e =>
      refine ⟨e, rfl, ?_⟩
      cases hscope : e.scope with
      | none => simp [hentry, hscope] at h
      | some rule => rfl

/-- Only control operations declare scopes. -/
theorem performs_of_openedDepth {i : Instruction} (h : 0 < Catalog.standard.openedDepth i) :
    ∃ op, i.Performs op := by
  obtain ⟨e, hentry, hscope⟩ := exists_entry_of_openedDepth h
  have hslot := slot_standardEntries e (Catalog.mem_standardEntries hentry)
  cases hop : e.opcode with
  | control op => exact ⟨op, Option.map_eq_some_iff.mpr ⟨e, hentry, hop⟩⟩
  | data op =>
      rw [hop, Opcode.levelSlot?, Option.map_eq_none_iff] at hslot
      simp [hslot] at hscope

namespace Machine

section Openers

variable {i : Instruction} {m : Machine} {level : Nat} {kind : ScopeKind}
  {body : Machine → Machine}

/-- An instruction that declares a scope reaches for that scope. -/
theorem Reaches.openedDepth_eq (h : Reaches i m level kind body) (hcatalog : m.catalog = .standard)
    (hopens : 0 < Catalog.standard.openedDepth i) : Catalog.standard.openedDepth i = level + 1 := by
  have hdepth {op : ControlOp} (hop : m.opcode? i = some (.control op)) :=
    openedDepth_of_performs ((opcode?_eq_iff hcatalog).mp hop)
  cases h with
  | guarded hop | block hop | define hop => exact hdepth hop
  | call hop => simp [hdepth hop, Opcode.levelSlot?] at hopens

/-- The instruction does not fail for want of a register or of a function slot. -/
def FindsOperands (i : Instruction) (m : Machine) : Prop :=
  ∀ position number,
    fault? (dispatch i m) ≠ some (.registerOutOfRange position number) ∧
      fault? (dispatch i m) ≠ some (.functionOutOfRange position number)

/-- An instruction that finishes a scope does not fail. -/
theorem Finishes.findsOperands {frame : Frame} {closed : Machine}
    (h : Finishes i m frame closed) : FindsOperands i m := by
  intro position number
  simp [h.dispatch_eq, fault?]

theorem reaches_of_findsOperands (hcatalog : m.catalog = .standard)
    (hopens : 0 < Catalog.standard.openedDepth i) (hfinds : FindsOperands i m) :
    ∃ level kind body, Reaches i m level kind body := by
  obtain ⟨op, hperforms⟩ := performs_of_openedDepth hopens
  have hdepth := openedDepth_of_performs hperforms
  have hop := (opcode?_eq_iff hcatalog).mpr hperforms
  have hdispatch := dispatch_of_opcode? hop
  cases op with
  | guarded guard =>
      cases htest : slot? i.first.toNat with
      | some test => exact ⟨_, _, _, .guarded hop htest⟩
      | none =>
          simp only [ControlOp.perform, registerArg, htest] at hdispatch
          exact absurd (by rw [hdispatch]; rfl) (hfinds m.pointer i.first).1
  | block => exact ⟨_, _, _, .block hop⟩
  | define =>
      cases hslot : slot? i.first.toNat with
      | some slot => exact ⟨_, _, _, .define hop hslot⟩
      | none =>
          simp only [ControlOp.perform, hslot] at hdispatch
          exact absurd (by rw [hdispatch]; rfl) (hfinds m.pointer i.first).2
  | leave | call => simp [hdepth, Opcode.levelSlot?] at hopens

end Openers

/-! ## Looking instead of closing -/

/-- The innermost loop or function that an opener finishes is found without closing the scopes
inside it. -/
theorem find?_eq_head?_closeFinished (m : Machine) (level : Nat) :
    (m.opened.takeWhile (level + 1 ≤ ·.depth)).find? (! ·.kind.closesSilently) =
      (m.closeFinished level).opened.head?.filter (level + 1 ≤ ·.depth) := by
  induction hopened : m.opened generalizing m with
  | nil =>
      have hroot : m.innermost.depth < level + 1 := by simp [innermost, hopened, Frame.root]
      rw [closeFinished_of_lt hroot, hopened]
      rfl
  | cons frame rest ih =>
      have hinnermost : m.innermost = frame := by simp [innermost, hopened]
      by_cases hdepth : level + 1 ≤ frame.depth
      · rw [List.takeWhile_cons_of_pos (by simpa using hdepth)]
        cases hkind : frame.kind.closesSilently with
        | false =>
            rw [List.find?_cons_of_pos (by simp [hkind]),
              closeFinished_of_not_silent level (hinnermost ▸ hkind), hopened]
            simp [Option.filter, hdepth]
        | true =>
            rw [List.find?_cons_of_neg (by simp [hkind]),
              closeFinished_of_silent (hinnermost ▸ hdepth) (hinnermost ▸ hkind)]
            exact ih m.closeScope (by simp [hopened])
      · rw [List.takeWhile_cons_of_neg (by simpa using hdepth),
          closeFinished_of_lt (by rw [hinnermost]; omega), hopened]
        simp [Option.filter, hdepth]

section Prediction

variable {i : Instruction} {m closed : Machine} {frame : Frame}

theorem pointer_finishScope (m : Machine) (frame : Frame) :
    (m.finishScope frame).pointer =
      if frame.kind = .function then m.returnPosition?.getD 0 else frame.start := by
  unfold finishScope
  split
  · cases m.returnPosition? <;> rfl
  · rfl

/-- A machine that is about to finish a scope expects to go where that leads. -/
theorem nextPosition_of_finishes (hcatalog : m.catalog = .standard)
    (hfetch : m.instruction? m.pointer = some i) (hopens : 0 < Catalog.standard.openedDepth i)
    (h : Finishes i m frame closed) : m.nextPosition = (closed.finishScope frame).pointer := by
  cases h with
  | @intro level kind body hreach hdepth hkind =>
      have hlevel := hreach.openedDepth_eq hcatalog hopens
      have hfound := find?_eq_head?_closeFinished m level
      rw [opened_eq_cons (Nat.zero_lt_of_lt hdepth), List.head?_cons,
        Option.filter_some, if_pos (by simpa using Nat.succ_le_of_lt hdepth)] at hfound
      rw [pointer_finishScope, closeFinished_keeps returnPosition?_closeScope]
      simp only [nextPosition, hfetch, hcatalog, hlevel, hfound, Nat.succ_ne_zero, if_false]

/-- A machine that finishes nothing expects to stay. -/
theorem nextPosition_of_not_finishes (hcatalog : m.catalog = .standard)
    (hfetch : m.instruction? m.pointer = some i) (hopens : 0 < Catalog.standard.openedDepth i)
    {level : Nat} {kind : ScopeKind} {body : Machine → Machine}
    (hreach : Reaches i m level kind body) (hnone : ¬∃ frame closed, Finishes i m frame closed) :
    m.nextPosition = m.pointer := by
  have hlevel := hreach.openedDepth_eq hcatalog hopens
  have hdepth : (m.closeFinished level).innermost.depth < level + 1 := by
    by_contra hdeep
    have hdeep : level < (m.closeFinished level).innermost.depth := Nat.le_of_not_lt hdeep
    exact hnone ⟨_, _, .intro hreach hdeep (closesSilently_closeFinished hdeep)⟩
  have hfound : (m.closeFinished level).opened.head?.filter (level + 1 ≤ ·.depth) = none := by
    rw [innermost, List.headD_eq_head?_getD] at hdepth
    cases hhead : (m.closeFinished level).opened.head? with
    | none => rfl
    | some frame => simpa [hhead, Option.filter] using hdepth
  simp only [nextPosition, hfetch, hcatalog, hlevel, find?_eq_head?_closeFinished, hfound,
    Nat.succ_ne_zero, if_false]

theorem nextPosition_of_plain (hfetch : m.instruction? m.pointer = some i)
    (hopens : m.catalog.openedDepth i = 0) : m.nextPosition = m.pointer := by
  simp only [nextPosition, hfetch, hopens, if_true]

theorem nextPosition_outside (h : m.genome.size ≤ m.pointer) : m.nextPosition = 0 := by
  have hnone : m.instruction? m.pointer = none := Array.getElem?_eq_none h
  simp only [nextPosition, hnone]

/-- Going back to the start first makes no difference. -/
theorem nextPosition_arrive (m : Machine) : m.arrive.nextPosition = m.nextPosition := by
  by_cases houtside : m.genome.size ≤ m.pointer
  · rw [nextPosition_outside houtside, arrive, if_pos houtside]
    simp only [nextPosition]
    split
    · rfl
    · split <;> rfl
  · rw [arrive, if_neg houtside]
    rfl

end Prediction

/-! ## The log of the step -/

section Log

variable {i : Instruction} {m next : Machine}

theorem Reaches.pending_body {level : Nat} {kind : ScopeKind} {body : Machine → Machine}
    (h : Reaches i m level kind body) (n : Machine) : (body n).pending = n.pending := by
  cases h with
  | guarded => exact pending_startGuarded ..
  | block | call => rfl
  | define => exact pending_leaveScope ..

/-- Only what finishes a scope leaves an instruction due. -/
theorem finishes_of_pending (hpending : m.pending = false) (hdispatch : dispatch i m = .ok () next)
    (hdue : next.pending = true) : ∃ frame closed, Finishes i m frame closed := by
  have houtcome := dispatch_outcome i m
  rw [hdispatch] at houtcome
  cases houtcome with
  | worked | ignored => exact absurd hdue (by simpa [absorb, withStore] using hpending)
  | left => exact absurd hdue (by simpa using hpending)
  | finished hfinish => exact ⟨_, _, hfinish⟩
  | entered hreach =>
      rw [hreach.pending_body] at hdue
      exact absurd hdue (by simpa [openScope] using hpending)

/-- In a genome with instructions there is one to arrive at. -/
theorem exists_fetch (h : 0 < m.genome.size) :
    ∃ i, m.arrive.instruction? m.arrive.pointer = some i := by
  unfold arrive
  split
  next => exact ⟨_, Array.getElem?_eq_getElem h⟩
  next hinside => exact ⟨_, Array.getElem?_eq_getElem (Nat.lt_of_not_le hinside)⟩

theorem stepLog_of_fetch (hfetch : m.arrive.instruction? m.arrive.pointer = some i) :
    ∃ rest, m.stepLog = ⟨m.arrive, i⟩ :: rest := by
  rw [stepLog, hfetch]
  dsimp only
  split
  · exact ⟨_, rfl⟩
  · exact ⟨_, rfl⟩

/-- A step that finishes no scope carries out one instruction. -/
theorem stepLog_of_not_finishes (hfetch : m.arrive.instruction? m.arrive.pointer = some i)
    (hnone : ¬∃ frame closed, Finishes i m.arrive frame closed) :
    m.stepLog = [⟨m.arrive, i⟩] := by
  rw [stepLog, hfetch]
  dsimp only
  split
  · rfl
  next next hdispatch =>
    have hpending : next.pending = false := by
      by_contra hdue
      exact hnone (finishes_of_pending (pending_arrive m) hdispatch (by simpa using hdue))
    rw [dueLog, hpending]
    rfl

/-- What is due inside the genome is carried out first. -/
theorem dueLog_of_inside (hdue : m.pending = true) (hinside : m.pointer < m.genome.size) :
    ∃ first rest, m.dueLog = first :: rest ∧ first.machine.pointer = m.pointer := by
  have harrive : m.arrive = { m with pending := false } := by
    rw [arrive, if_neg (Nat.not_le.mpr hinside)]
  have hfetch : m.arrive.instruction? m.arrive.pointer = some m.genome[m.pointer] := by
    rw [harrive]
    exact Array.getElem?_eq_getElem hinside
  rw [dueLog, if_pos hdue, hfetch, harrive]
  dsimp only
  split
  · exact ⟨_, _, rfl, rfl⟩
  · exact ⟨_, _, rfl, rfl⟩

theorem pending_finishScope (m : Machine) (frame : Frame) :
    (m.finishScope frame).pending = true := by
  unfold finishScope
  split
  · split <;> rfl
  · rfl

/-- A step that finishes a scope goes on where this leads. -/
theorem stepLog_of_finishes {closed : Machine} {frame : Frame}
    (hfetch : m.arrive.instruction? m.arrive.pointer = some i)
    (hfinish : Finishes i m.arrive frame closed)
    (hinside : (closed.finishScope frame).pointer < (closed.finishScope frame).genome.size) :
    ∃ second rest, m.stepLog = ⟨m.arrive, i⟩ :: second :: rest ∧
      second.machine.pointer = (closed.finishScope frame).pointer := by
  obtain ⟨second, rest, hlog, hpointer⟩ := dueLog_of_inside (pending_finishScope _ _) hinside
  refine ⟨second, rest, ?_, hpointer⟩
  rw [stepLog, hfetch]
  simp only [hfinish.dispatch_eq, hlog]

end Log

/-- A finished scope leads to a position in the genome. -/
theorem Provenance.finishScope_inside {genome : Genome} {m : Machine} {frame : Frame}
    (h : Provenance genome genome.size m) (hgenome : 0 < genome.size) (hframe : frame ∈ m.opened) :
    (m.finishScope frame).pointer < (m.finishScope frame).genome.size := by
  rw [eq_of_background_eq Machine.genome (background_finishScope m frame), pointer_finishScope,
    h.genome_eq]
  split
  · cases hreturn : m.returnPosition? with
    | none => exact hgenome
    | some position =>
        simpa [h.genome_eq] using (Option.filter_eq_some_iff.mp hreturn).2
  · exact h.start_lt hframe

end Machine

open Machine

/-- On the course of a genome, the first instruction of a step is where the step was expected to
work, if this instruction declares no scope. If it does, and finds its operands, then a loop or
function that it finishes makes the step go on where it was expected, and with nothing to finish the
step does its one instruction there. Expected is the start of the genome if the pointer is behind
the end, and if what is finished sends the machine back there. -/
theorem stateAt_nextPosition {genome : Genome} (hgenome : 0 < genome.size) (inputs : Cells)
    (n : Nat) :
    ∃ first rest, (stateAt genome inputs n).stepLog = first :: rest ∧
      (Catalog.standard.openedDepth first.instruction = 0 →
        (stateAt genome inputs n).nextPosition = first.machine.pointer) ∧
      (0 < Catalog.standard.openedDepth first.instruction →
        FindsOperands first.instruction first.machine →
        ((∃ frame closed, Finishes first.instruction first.machine frame closed) →
          ∃ second others, rest = second :: others ∧
            (stateAt genome inputs n).nextPosition = second.machine.pointer) ∧
        ((¬∃ frame closed, Finishes first.instruction first.machine frame closed) →
          rest = [] ∧ (stateAt genome inputs n).nextPosition = first.machine.pointer)) ∧
      (genome.size ≤ (stateAt genome inputs n).pointer →
        (stateAt genome inputs n).nextPosition = 0) ∧
      ∀ frame closed, 0 < Catalog.standard.openedDepth first.instruction →
        Finishes first.instruction first.machine frame closed →
        dispatch first.instruction first.machine =
          .ok () { first.machine.rewind with pending := true } →
        (stateAt genome inputs n).nextPosition = 0 := by
  have hnext := nextPosition_arrive (stateAt genome inputs n)
  have hresting := (provenance_stateAt genome inputs n).1
  have hprovenance := (phases_provenance genome).arrive _ hresting
  have houtside : genome.size ≤ (stateAt genome inputs n).pointer →
      (stateAt genome inputs n).nextPosition = 0 := by
    intro houtside
    exact nextPosition_outside (by rwa [hresting.genome_eq])
  obtain ⟨i, hfetch⟩ := exists_fetch (by rwa [hresting.genome_eq])
  generalize stateAt genome inputs n = m at hnext hprovenance houtside hfetch ⊢
  have hcatalog := hprovenance.catalog_eq
  obtain ⟨rest, hlog⟩ := stepLog_of_fetch hfetch
  have hfinishes {frame : Frame} {closed : Machine} (hfinish : Finishes i m.arrive frame closed) :
      (closed.finishScope frame).pointer < (closed.finishScope frame).genome.size :=
    (hfinish.induction (fun _ _ hn => hn.closeScope) hprovenance).finishScope_inside hgenome
      (hfinish.opened_eq ▸ List.mem_cons_self)
  refine ⟨_, _, hlog, ?_, ?_, houtside, ?_⟩
  · intro hplain
    rw [← hnext, nextPosition_of_plain hfetch (hcatalog ▸ hplain)]
  · intro hopens hfinds
    refine ⟨?_, ?_⟩
    · rintro ⟨frame, closed, hfinish⟩
      obtain ⟨second, others, hlog', hpointer⟩ :=
        stepLog_of_finishes hfetch hfinish (hfinishes hfinish)
      rw [hlog] at hlog'
      refine ⟨second, others, (List.cons.inj hlog').2, ?_⟩
      rw [hpointer, ← hnext, nextPosition_of_finishes hcatalog hfetch hopens hfinish]
    · intro hnone
      rw [stepLog_of_not_finishes hfetch hnone] at hlog
      obtain ⟨level, kind, body, hreach⟩ := reaches_of_findsOperands hcatalog hopens hfinds
      refine ⟨(List.cons.inj hlog).2.symm, ?_⟩
      rw [← hnext, nextPosition_of_not_finishes hcatalog hfetch hopens hreach hnone]
  · intro frame closed hopens hfinish hrewind
    have hresult := hfinish.dispatch_eq.symm.trans hrewind
    rw [← hnext, nextPosition_of_finishes hcatalog hfetch hopens hfinish,
      (EStateM.Result.ok.inj hresult).2]
    rfl

/-- An opener that does not find its register is tried where it stands, although the loop around it
would have been finished. -/
example :
    let m := stateAt #[⟨13, 1, 0, 0⟩, ⟨12, 16, 0, 0⟩] ∅ 1
    m.nextPosition = 0 ∧ fault? (step m) = some (.registerOutOfRange 1 16) := by
  decide +kernel

/-- A loop with two scopes inside it, at depths that leave gaps, and the end of the loop. -/
def detour : Genome :=
  #[⟨13, 1, 0, 0⟩, ⟨16, 3, 0, 0⟩, ⟨16, 5, 0, 0⟩, outermostScope]

/-- The machine that has come to the end of the loop. -/
def detourEnd : Machine :=
  stateAt detour ∅ 3

theorem detourEnd_opened :
    detourEnd.opened = [⟨6, .basic, 2⟩, ⟨4, .basic, 1⟩, ⟨1, .loop, 0⟩] ∧
      detourEnd.nextPosition = 0 ∧ detourEnd.arrive.pointer = 3 ∧
      detourEnd.arrive.instruction? detourEnd.arrive.pointer = some outermostScope ∧
      detourEnd.arrive.opcode? outermostScope = some (.control .block) ∧
      (detourEnd.arrive.closeFinished outermostScope.first.toNat).innermost = ⟨1, .loop, 0⟩ ∧
      0 < Catalog.standard.openedDepth outermostScope := by
  decide +kernel

/-- The step goes through both scopes to the loop, and on at its opener. -/
theorem detour_nextPosition :
    detourEnd.opened = [⟨6, .basic, 2⟩, ⟨4, .basic, 1⟩, ⟨1, .loop, 0⟩] ∧
      ∃ first second others, detourEnd.stepLog = first :: second :: others ∧
        first.machine.pointer = 3 ∧ second.machine.pointer = 0 := by
  obtain ⟨hopened, hnext, hpointer, hfetch, hop, hinnermost, hopens⟩ := detourEnd_opened
  have hfinish := (Reaches.block hop).finishes hinnermost Nat.one_pos rfl
  have hcourse := stateAt_nextPosition (show 0 < detour.size by decide) ∅ 3
  rw [← detourEnd] at hcourse
  obtain ⟨first, rest, hlog, _, hopener, _⟩ := hcourse
  obtain ⟨_, hfirst⟩ := stepLog_of_fetch hfetch
  obtain ⟨rfl, rfl⟩ := List.cons.inj (hlog.symm.trans hfirst)
  dsimp only at hopener
  obtain ⟨second, others, rfl, hsecond⟩ := (hopener hopens hfinish.findsOperands).1 ⟨_, _, hfinish⟩
  refine ⟨hopened, _, second, others, hlog, hpointer, ?_⟩
  rw [← hsecond, hnext]

end GenomeMachine
