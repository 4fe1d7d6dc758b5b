import GenomeMachine.Proofs.Dispatch.Outcome
import GenomeMachine.Proofs.Structured.Openers

/-! # Structured programs on the machine

Between two nodes the machine may still have scopes open that the text has left behind: they
close when the next opener is reached. The simulation therefore relates a machine to what it is
without them, and that machine is `Ready` for the nodes to come. -/

namespace GenomeMachine

open Machine

/-- Code that goes on with an opener no deeper than a level. -/
def Closes (level : Nat) (code : List Instruction) : Prop :=
  ∃ (opener : Opener) (outer : Nat) (tail : List Instruction),
    outer ≤ level ∧ code = opener.instruction outer :: tail

theorem Closes.layout {level : Nat} {tail : List Instruction} (h : Closes level tail)
    (nodes : Nodes) : Closes level (nodes.layout level ++ tail) := by
  cases nodes with
  | none => exact h
  | node opener body children rest => exact ⟨opener, level, _, Nat.le_refl level, rfl⟩

theorem Closes.mono {level level' : Nat} {tail : List Instruction} (h : Closes level tail)
    (hle : level ≤ level') : Closes level' tail := by
  obtain ⟨opener, outer, rest, houter, rfl⟩ := h
  exact ⟨opener, outer, rest, Nat.le_trans houter hle, rfl⟩

/-- A machine before nodes of a level, with no scope open but those around the nodes. -/
structure Ready (level : Nat) (nodes : Nodes) (tail : List Instruction) (m : Machine) : Prop where
  catalog : m.catalog = .standard
  pending : m.pending = false
  code : m.code = nodes.layout level ++ tail
  closes : Closes level tail
  height : level + nodes.height ≤ 15
  opened : m.opened.length ≤ level
  depth : m.innermost.depth ≤ level
  backups : ∀ b ∈ m.backups, b.depth ≤ level

/-- How many instructions a node has. -/
def nodeLength (level : Nat) (body : List PlainInstruction) (children : Nodes) : Nat :=
  1 + (body.length + (children.layout (level + 1)).length)

theorem length_layout_node (level : Nat) (opener : Opener) (body : List PlainInstruction)
    (children rest : Nodes) : ((Nodes.node opener body children rest).layout level).length =
      nodeLength level body children + (rest.layout level).length := by
  simp [Nodes.layout, nodeLength, bodyInstructions]
  omega

theorem add_nodeLength (position level : Nat) (body : List PlainInstruction) (children : Nodes) :
    position + 1 + body.length + (children.layout (level + 1)).length =
      position + nodeLength level body children := by
  unfold nodeLength
  omega

/-- The scope of a node whose opener is at a position. -/
def nodeFrame (level : Nat) (opener : Opener) (position : Nat) : Frame :=
  ⟨level + 1, opener.kind, position⟩

namespace Ready

variable {level : Nat} {nodes : Nodes} {tail : List Instruction} {m n : Machine}

theorem closeFinished_self (hn : Ready level nodes tail n) : n.closeFinished level = n :=
  closeFinished_of_lt (Nat.lt_succ_of_le hn.depth)

theorem restart (hn : Ready level nodes tail n) (s : Store) :
    Ready level nodes tail (n.jump s n.pointer) :=
  { hn with }

theorem toEnd (hn : Ready level nodes tail n) (s : Store) :
    Ready level .none tail (n.jump s (n.pointer + (nodes.layout level).length)) :=
  { hn with
    code := code_of_append hn.code rfl rfl
    height := Nat.le_trans (Nat.le_add_right level nodes.height) hn.height }

/-- An opener finds on a machine what it finds without the finished scopes. -/
theorem of_closeFinished (hn : Ready level nodes tail n) (hm : m.closeFinished level = n) :
    m.catalog = .standard ∧ m.pending = false ∧ m.code = nodes.layout level ++ tail := by
  subst hm
  have hcode (m : Machine) : m.closeScope.code = m.code := by
    simp only [Machine.code, genome_closeScope, pointer_closeScope]
  refine ⟨?_, ?_, ?_⟩
  · rw [← hn.catalog, closeFinished_keeps catalog_closeScope]
  · rw [← hn.pending, pending_closeFinished]
  · rw [← hn.code, closeFinished_keeps hcode]

variable {opener : Opener} {body : List PlainInstruction} {children rest : Nodes}

theorem backups_lt (hn : Ready level (.node opener body children rest) tail n) :
    ∀ b ∈ n.backups, b.depth < (nodeFrame level opener n.pointer).depth :=
  fun b hb => Nat.lt_succ_of_le (hn.backups b hb)

theorem height_children (hn : Ready level (.node opener body children rest) tail n) :
    level + 1 + children.height ≤ 15 := by
  have hheight := hn.height
  simp only [Nodes.height] at hheight
  omega

theorem height_rest (hn : Ready level (.node opener body children rest) tail n) :
    level + rest.height ≤ 15 := by
  have hheight := hn.height
  simp only [Nodes.height] at hheight
  omega

theorem toRest (hn : Ready level (.node opener body children rest) tail n) (s : Store) :
    Ready level rest tail (n.jump s (n.pointer + nodeLength level body children)) := by
  have hcode : n.code = (opener.instruction level :: (bodyInstructions body ++
      children.layout (level + 1))) ++ (rest.layout level ++ tail) := by
    simpa [Nodes.layout] using hn.code
  refine { hn with code := code_of_append hcode rfl ?_, height := hn.height_rest }
  simp [jump, nodeLength, bodyInstructions]
  omega

theorem toChildren (hn : Ready level (.node opener body children rest) tail n) (s : Store)
    (saved : List (Slot × Float)) :
    Ready (level + 1) children (rest.layout level ++ tail)
      (n.inside (nodeFrame level opener n.pointer) s saved (n.pointer + 1 + body.length)) := by
  have hcode : n.code = (opener.instruction level :: bodyInstructions body) ++
      (children.layout (level + 1) ++ (rest.layout level ++ tail)) := by
    simpa [Nodes.layout] using hn.code
  refine ⟨hn.catalog, hn.pending, code_of_append hcode rfl ?_, ?_, hn.height_children, ?_,
    Nat.le_refl _, ?_⟩
  · simp [inside, jump, bodyInstructions]
    omega
  · exact (hn.closes.layout rest).mono (Nat.le_succ level)
  · simpa [inside, jump] using hn.opened
  · intro b hb
    rcases List.mem_append.mp hb with hb | hb
    · obtain ⟨_, _, rfl⟩ := List.mem_map.mp hb
      exact Nat.le_refl _
    · exact Nat.le_succ_of_le (hn.backups b hb)

theorem dispatch_node (hn : Ready level (.node opener body children rest) tail n)
    (hm : m.closeFinished level = n) :
    dispatch (opener.instruction level) m = .ok () (openerStart opener level
      (n.inside (nodeFrame level opener n.pointer) n.store [] n.pointer)) := by
  have hheight := hn.height_children
  refine dispatch_enter opener (hn.of_closeFinished hm).1 (by omega) hm
    (Nat.lt_succ_of_le hn.depth) ?_
  have := hn.opened
  simp [frames]
  omega

theorem fetch_node (hn : Ready level (.node opener body children rest) tail n)
    (hm : m.closeFinished level = n) :
    m.genome[m.pointer]? = some (opener.instruction level) :=
  fetch_of_code (hn.of_closeFinished hm).2.2

/-- Inside a node nothing ends the search for what comes after it. -/
theorem leaveScope_node (hn : Ready level (.node opener body children rest) tail n) :
    (n.inside (nodeFrame level opener n.pointer) n.store [] n.pointer).leaveScope level =
      n.jump n.store (n.pointer + (nodeLength level body children - 1)) := by
  have hheight := hn.height_children
  obtain ⟨closer, outer, code, houter, hcloser⟩ := hn.closes.layout rest
  have hdepth : Catalog.standard.openedDepth (closer.instruction outer) = outer + 1 :=
    openedDepth_opener closer (by omega)
  have hcode : n.code = opener.instruction level :: ((bodyInstructions body ++
      children.layout (level + 1)) ++ closer.instruction outer :: code) := by
    rw [List.append_assoc, ← hcloser]
    simpa [Nodes.layout] using hn.code
  have hposition : (bodyInstructions body ++ children.layout (level + 1)).length =
      nodeLength level body children - 1 := by
    simp [nodeLength, bodyInstructions]
  rw [← hposition]
  refine leaveScope_inside hn.backups_lt (Nat.lt_succ_self level) hcode ?_ ?_
  · intro i hi
    rw [hn.catalog]
    rcases List.mem_append.mp hi with hi | hi
    · exact .inl (openedDepth_body hi)
    · exact openedDepth_layout (by omega) hi
  · rw [hn.catalog, hdepth]
    omega

/-- A node whose guard fails is left out. -/
theorem steps_skip (hn : Ready level (.node opener body children rest) tail n)
    (hm : m.closeFinished level = n) (henter : opener.enter n.store = none) :
    Steps 1 m (n.jump n.store (n.pointer + nodeLength level body children)) := by
  have hskip := openerStart_of_skip
    (m := n.inside (nodeFrame level opener n.pointer) n.store [] n.pointer) henter level
  have hdispatch := hn.dispatch_node hm
  rw [hskip, hn.leaveScope_node] at hdispatch
  have hfetch := hn.fetch_node hm
  have hstep := step_of_dispatch (hn.of_closeFinished hm).2.1 hfetch hdispatch hn.pending
  have hposition : n.pointer + (nodeLength level body children - 1) + 1 =
      n.pointer + nodeLength level body children := by
    simp only [nodeLength]
    omega
  refine .single (inside_of_fetch hfetch) (hstep.trans ?_)
  simp only [jump, hposition]

/-- A node that is entered has its body run. -/
theorem steps_enter (hn : Ready level (.node opener body children rest) tail n)
    (hm : m.closeFinished level = n) {entered : Store}
    (henter : opener.enter n.store = some entered) :
    Steps (1 + body.length) m (n.inside (nodeFrame level opener n.pointer)
      (runBody body entered).1 (runBody body entered).2 (n.pointer + 1 + body.length)) := by
  have hstart := openerStart_of_enter
    (m := n.inside (nodeFrame level opener n.pointer) n.store [] n.pointer) henter level
  have hdispatch := hn.dispatch_node hm
  rw [hstart] at hdispatch
  have hfetch := hn.fetch_node hm
  have hstep : step m =
      .ok () (n.inside (nodeFrame level opener n.pointer) entered [] (n.pointer + 1)) :=
    step_of_dispatch (hn.of_closeFinished hm).2.1 hfetch hdispatch hn.pending
  have hcode : n.code = [opener.instruction level] ++ (bodyInstructions body ++
      (children.layout (level + 1) ++ (rest.layout level ++ tail))) := by
    simpa [Nodes.layout] using hn.code
  have hbody := steps_body
    (m := n.inside (nodeFrame level opener n.pointer) entered [] (n.pointer + 1))
    hn.catalog hn.pending (code_of_append hcode rfl rfl)
  rw [proceed_inside, store_inside] at hbody
  exact Steps.trans (.single (inside_of_fetch hfetch) hstep) hbody

/-- After its body, a node that does not repeat is over. -/
theorem closeFinished_once (hn : Ready level (.node opener body children rest) tail n)
    (hrepeats : opener.repeats = false) {s : Store} {saved : List (Slot × Float)} {pointer : Nat}
    (hm : m.closeFinished (level + 1) =
      n.inside (nodeFrame level opener n.pointer) s saved pointer) :
    m.closeFinished level = n.jump (s.restore saved) pointer := by
  have hkind : opener.kind.closesSilently = true := by
    rw [Opener.kind_of_not_repeats hrepeats]
    rfl
  calc m.closeFinished level
      = (m.closeFinished (level + 1)).closeFinished level :=
        (closeFinished_closeFinished (Nat.le_succ level) m).symm
    _ = (n.jump (s.restore saved) pointer).closeFinished level := by
        rw [hm, closeFinished_of_silent (by exact Nat.lt_succ_self level) (by exact hkind),
          closeScope_inside hn.backups_lt]
    _ = n.jump (s.restore saved) pointer := closeFinished_of_lt (Nat.lt_succ_of_le hn.depth)

/-- After its body, a node that repeats is back at its opener. -/
theorem step_again (hn : Ready level (.node opener body children rest) tail n)
    (hrepeats : opener.repeats = true) {s : Store} {saved : List (Slot × Float)}
    (hm : m.closeFinished (level + 1) = n.inside (nodeFrame level opener n.pointer) s saved
      (n.pointer + nodeLength level body children)) :
    m.pointer < m.genome.size ∧ step m = step (n.jump (s.restore saved) n.pointer) := by
  have hkind := Opener.kind_of_repeats hrepeats
  have hend : Ready (level + 1) .none (rest.layout level ++ tail)
      (n.inside (nodeFrame level opener n.pointer) s saved
        (n.pointer + nodeLength level body children)) := by
    simpa only [jump_inside, pointer_inside, add_nodeLength] using
      (hn.toChildren s saved).toEnd s
  obtain ⟨hcatalog, hpending, hcode⟩ := hend.of_closeFinished hm
  obtain ⟨closer, outer, code, houter, hcloser⟩ := hn.closes.layout rest
  simp only [Nodes.layout, List.nil_append, hcloser] at hcode
  have hclosed : m.closeFinished outer = n.inside (nodeFrame level opener n.pointer) s saved
      (n.pointer + nodeLength level body children) := by
    rw [← closeFinished_closeFinished (Nat.le_succ_of_le houter), hm,
      closeFinished_of_not_silent outer (by simp [nodeFrame, hkind, ScopeKind.closesSilently])]
  have houter' : outer < 65536 := by
    have := hn.height
    omega
  have hdispatch := dispatch_loop closer hcatalog houter' hclosed
    (by exact Nat.lt_succ_of_le houter) (by exact hkind)
  rw [closeScope_inside hn.backups_lt] at hdispatch
  have hrestart := hn.restart (s.restore saved)
  exact ⟨inside_of_fetch (fetch_of_code hcode), step_of_redispatch hpending (fetch_of_code hcode)
    hdispatch hrestart.pending (hrestart.fetch_node hrestart.closeFinished_self)⟩

end Ready

end GenomeMachine
