import GenomeMachine.Proofs.Dispatch.Outcome

/-! # What control flow looks at

Of the instructions in a genome, scopes and calls see which of them open a scope, and what kind of
scope at which level. Of the traits they see nothing. A `Disguise` is another genome and other
traits for a machine, and control operations do to a machine in a fitting disguise what they do to
the machine. -/

namespace GenomeMachine

namespace Catalog

variable (c : Catalog)

/-- The kind and the level of the scope that an instruction opens. -/
def opener? (i : Instruction) : Option (ScopeKind × Nat) :=
  (c.scopeRule? i.id).map fun rule => (rule.kind, (i.arg rule.slot).toNat)

theorem openedDepth_eq_opener? (i : Instruction) :
    c.openedDepth i = ((c.opener? i).map (·.2 + 1)).getD 0 := by
  rw [openedDepth, opener?]
  cases c.scopeRule? i.id <;> rfl

end Catalog

/-- What a machine has in place of its genome and its traits. -/
structure Disguise where
  genome : Catalog → Genome → Genome
  traits : Array Float → Array Float

namespace Disguise

/-- Control flow does not notice the disguise: the same openers stand at the same positions. -/
def Fits (d : Disguise) (c : Catalog) : Prop :=
  ∀ g, (d.genome c g).map c.opener? = g.map c.opener?

variable {d : Disguise} {c : Catalog}

theorem Fits.size_genome (h : d.Fits c) (g : Genome) : (d.genome c g).size = g.size := by
  simpa using congrArg Array.size (h g)

theorem Fits.opener?_getElem? (h : d.Fits c) (g : Genome) (position : Nat) :
    (d.genome c g)[position]?.map c.opener? = g[position]?.map c.opener? := by
  rw [← Array.getElem?_map, ← Array.getElem?_map, h g]

end Disguise

namespace Machine

/-- The machine in disguise. -/
def disguise (d : Disguise) (m : Machine) : Machine :=
  { m with genome := d.genome m.catalog m.genome, traits := d.traits m.traits }

section Reading

variable (d : Disguise) (m : Machine)

@[simp] theorem catalog_disguise : (m.disguise d).catalog = m.catalog := rfl

@[simp] theorem pointer_disguise : (m.disguise d).pointer = m.pointer := rfl

@[simp] theorem opened_disguise : (m.disguise d).opened = m.opened := rfl

@[simp] theorem frames_disguise : (m.disguise d).frames = m.frames := rfl

@[simp] theorem innermost_disguise : (m.disguise d).innermost = m.innermost := rfl

@[simp] theorem register_disguise (r : Slot) : (m.disguise d).register r = m.register r := rfl

theorem closeScope_disguise : (m.disguise d).closeScope = m.closeScope.disguise d := by
  cases hopened : m.opened with
  | nil => simp [closeScope, disguise, hopened]
  | cons frame rest => simp [closeScope, disguise, hopened]

theorem closeSilent_disguise (depth : Nat) (frames : List Frame) :
    closeSilent depth frames (m.disguise d) = (closeSilent depth frames m).disguise d := by
  induction frames generalizing m with
  | nil => rfl
  | cons frame rest ih =>
      rw [closeSilent, closeSilent, closeScope_disguise, ih]
      split <;> rfl

end Reading

section Fits

variable {d : Disguise} {m : Machine} (hfits : d.Fits m.catalog)
include hfits

theorem size_genome_disguise : (m.disguise d).genome.size = m.genome.size :=
  hfits.size_genome m.genome

theorem opener?_instruction?_disguise (position : Nat) :
    ((m.disguise d).instruction? position).map m.catalog.opener? =
      (m.instruction? position).map m.catalog.opener? :=
  hfits.opener?_getElem? m.genome position

/-! ## Scopes -/

theorem returnPosition?_disguise : (m.disguise d).returnPosition? = m.returnPosition? := by
  rw [returnPosition?, returnPosition?, size_genome_disguise hfits]
  rfl

theorem finishScope_disguise (frame : Frame) :
    (m.disguise d).finishScope frame = (m.finishScope frame).disguise d := by
  rw [finishScope, finishScope, returnPosition?_disguise hfits, closeScope_disguise]
  split
  · cases m.returnPosition? <;> rfl
  · rfl

theorem enterScope_disguise (level : Nat) (kind : ScopeKind) :
    enterScope level kind (m.disguise d) = onMachine (disguise d) (enterScope level kind m) := by
  have hcatalog : (closeSilent (level + 1) m.opened m).catalog = m.catalog :=
    closeFinished_keeps catalog_closeScope m level
  simp only [enterScope, opened_disguise, closeSilent_disguise]
  generalize closeSilent (level + 1) m.opened m = closed at hcatalog ⊢
  cases closed.opened.head?.filter (level + 1 ≤ ·.depth) with
  | some frame => simp only [finishScope_disguise (hcatalog.symm ▸ hfits), onMachine]
  | none =>
      by_cases hroom : closed.frames.length < 16
      · simp only [frames_disguise, hroom, if_true]
        rfl
      · simp only [frames_disguise, hroom, if_false]
        rfl

omit hfits in
theorem catalog_enterScope (m : Machine) (level : Nat) (kind : ScopeKind) :
    (after (enterScope level kind m)).catalog = m.catalog := by
  have hclosed : (closeSilent (level + 1) m.opened m).catalog = m.catalog :=
    closeFinished_keeps catalog_closeScope m level
  simp only [enterScope]
  generalize closeSilent (level + 1) m.opened m = closed at hclosed ⊢
  split
  · exact (eq_of_background_eq catalog (background_finishScope ..)).trans hclosed
  · split <;> exact hclosed

theorem opening_disguise (level : Nat) (kind : ScopeKind) {body : Machine → Machine}
    (hbody : ∀ next, next.catalog = m.catalog → body (next.disguise d) = (body next).disguise d) :
    opening level kind body (m.disguise d) =
      onMachine (disguise d) (opening level kind body m) := by
  have hcatalog := catalog_enterScope m level kind
  simp only [opening, enterScope_disguise hfits]
  generalize enterScope level kind m = result at hcatalog ⊢
  cases result with
  | error fault next => rfl
  | ok entered next =>
      cases entered with
      | false => rfl
      | true => simp only [onMachine, hbody next hcatalog]

theorem nextOpener?_disguise (depth : Nat) :
    (m.disguise d).nextOpener? depth = m.nextOpener? depth := by
  have hextract (start stop : Nat) :
      ((m.disguise d).genome.extract start stop).map m.catalog.opener? =
        (m.genome.extract start stop).map m.catalog.opener? := by
    rw [Array.map_extract, Array.map_extract]
    exact congrArg (·.extract start stop) (hfits m.genome)
  -- Whether an instruction is such an opener can be told from what it opens.
  have hopener (g : Genome) (c : Catalog) :
      g.findIdx? (fun i => 0 < c.openedDepth i && c.openedDepth i ≤ depth) =
        (g.map c.opener?).findIdx? fun o =>
          0 < (o.map (·.2 + 1)).getD 0 && (o.map (·.2 + 1)).getD 0 ≤ depth := by
    simp only [Array.findIdx?_map, Function.comp_def, Catalog.openedDepth_eq_opener?]
  rw [nextOpener?, nextOpener?, hopener, hopener, catalog_disguise, pointer_disguise, hextract,
    size_genome_disguise hfits]

theorem leaveScope_disguise (level : Nat) :
    (m.disguise d).leaveScope level = (m.leaveScope level).disguise d := by
  simp only [leaveScope, innermost_disguise, pointer_disguise, size_genome_disguise hfits,
    nextOpener?_disguise hfits, closeScope_disguise]
  by_cases hdepth : m.innermost.depth < level + 1
  · simp only [hdepth, if_true]
  · simp only [hdepth, if_false]
    rfl

/-! ## Control operations -/

theorem startGuarded_disguise (guard : Guard) (test : Slot) (level : Nat) :
    startGuarded guard test level (m.disguise d) =
      (startGuarded guard test level m).disguise d := by
  unfold startGuarded
  rw [leaveScope_disguise hfits, register_disguise]
  split
  · rfl
  · cases guard <;> rfl

omit hfits in
theorem callTarget?_eq_opener? (m : Machine) (slot : Nat) :
    m.callTarget? slot = (m.function? slot).bind fun position =>
      ((m.instruction? position).map m.catalog.opener?).join.bind fun opener =>
        if opener.1 = .function then some (position, opener.2) else none := by
  rw [callTarget?]
  refine Option.bind_congr fun position _ => ?_
  cases m.instruction? position with
  | none => rfl
  | some definition =>
      simp only [Option.bind_eq_bind, Option.bind_some, Option.map_some, Option.join_some,
        Catalog.opener?]
      cases m.catalog.scopeRule? definition.id <;> rfl

theorem callTarget?_disguise (slot : Nat) :
    (m.disguise d).callTarget? slot = m.callTarget? slot := by
  simp only [callTarget?_eq_opener?, catalog_disguise, opener?_instruction?_disguise hfits]
  rfl

/-- Control operations do the same in disguise. -/
theorem controlPerform_disguise (op : ControlOp) (i : Instruction) :
    op.perform i (m.disguise d) = onMachine (disguise d) (op.perform i m) := by
  have hnext {next : Machine} (hcatalog : next.catalog = m.catalog) : d.Fits next.catalog :=
    hcatalog ▸ hfits
  cases op with
  | guarded guard =>
      have harg : (m.disguise d).registerArg i.first = m.registerArg i.first := rfl
      simp only [ControlOp.perform, harg]
      cases m.registerArg i.first with
      | error fault => rfl
      | ok test =>
          exact opening_disguise hfits _ _ fun _ h => startGuarded_disguise (hnext h) ..
  | leave => simp only [ControlOp.perform, leaveScope_disguise hfits, onMachine]
  | block => exact opening_disguise hfits _ _ fun _ _ => rfl
  | define =>
      simp only [ControlOp.perform]
      cases slot? i.first.toNat with
      | none => rfl
      | some slot =>
          refine opening_disguise hfits _ _ fun next h => ?_
          exact leaveScope_disguise (m := next.setFunction slot (some next.pointer)) (hnext h) _
  | call =>
      simp only [ControlOp.perform, callTarget?_disguise hfits]
      cases m.callTarget? i.first.toNat with
      | none => rfl
      | some target => exact opening_disguise hfits _ _ fun _ _ => rfl

theorem arrive_disguise : (m.disguise d).arrive = m.arrive.disguise d := by
  rw [arrive, arrive, size_genome_disguise hfits, pointer_disguise]
  split <;> rfl

theorem nextPosition_disguise : (m.disguise d).nextPosition = m.nextPosition := by
  have hopener := opener?_instruction?_disguise hfits m.pointer
  simp only [nextPosition, pointer_disguise, catalog_disguise, opened_disguise,
    returnPosition?_disguise hfits, Catalog.openedDepth_eq_opener?]
  cases hi : m.instruction? m.pointer with
  | none =>
      rw [hi, Option.map_none, Option.map_eq_none_iff] at hopener
      rw [hopener]
  | some i =>
      rw [hi, Option.map_some, Option.map_eq_some_iff] at hopener
      obtain ⟨j, hj, heq⟩ := hopener
      simp only [hj, heq]

end Fits

end Machine

end GenomeMachine
