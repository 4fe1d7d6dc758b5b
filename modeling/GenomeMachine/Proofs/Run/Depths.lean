import GenomeMachine.Proofs.Run.Failure
import GenomeMachine.Proofs.Run.Provenance
import Mathlib.Data.Finset.Card

/-! # Running out of scopes

The depth of every open scope comes from the argument of some opener in the genome, and no depth is
open twice. So a genome whose openers have few different arguments never runs out of scopes. -/

namespace GenomeMachine

/-- The argument with the depth of the scope that an instruction opens. -/
def Catalog.level? (c : Catalog) (i : Instruction) : Option UInt16 :=
  (c.scopeRule? i.id).map fun rule => i.arg rule.slot

/-- The arguments that say how deep the scopes of a genome are. -/
def scopeLevels (genome : Genome) : Finset UInt16 :=
  (genome.toList.filterMap Catalog.standard.level?).toFinset

/-- The argument slot with the depth of a scope. Breaks and calls have none: they refer to a scope
that another instruction has opened or defined. -/
def Opcode.levelSlot? : Opcode → Option Nat
  | control (.guarded _) | control .define => some 1
  | control .block => some 0
  | control .leave | control .call | data _ => none

/-- The standard entries declare their scopes in the slots that their operations read. -/
theorem slot_standardEntries : ∀ e ∈ standardEntries, e.scope.map (·.slot) = e.opcode.levelSlot? := by
  decide

theorem level?_of_performs {i : Instruction} {op : ControlOp} (h : i.Performs op) :
    Catalog.standard.level? i = (Opcode.control op).levelSlot?.map i.arg := by
  obtain ⟨e, he, hop⟩ := Option.map_eq_some_iff.mp h
  have hmem := Catalog.mem_standardEntries he
  rw [Catalog.level?, Catalog.scopeRule?, he, Option.bind_some, ← hop, ← slot_standardEntries e hmem,
    Option.map_map]
  rfl

theorem mem_scopeLevels {genome : Genome} {i : Instruction} {level : UInt16} (hi : i ∈ genome)
    (hlevel : Catalog.standard.level? i = some level) : level ∈ scopeLevels genome := by
  rw [scopeLevels, List.mem_toFinset, List.mem_filterMap]
  exact ⟨i, Array.mem_toList_iff.mpr hi, hlevel⟩

section Levels

variable {genome : Genome} {i : Instruction}

/-- A scope is as deep as an opener of the genome says, which for a call is the definition. -/
theorem Opens.level_mem {frame : Frame} (h : Opens genome i frame) (hi : i ∈ genome) :
    ∃ level ∈ scopeLevels genome, frame.depth = level.toNat + 1 := by
  cases h with
  | guarded hop => exact ⟨i.second, mem_scopeLevels hi (level?_of_performs hop), rfl⟩
  | block hop => exact ⟨i.first, mem_scopeLevels hi (level?_of_performs hop), rfl⟩
  | @call definition _ _ hmem hdefine =>
      exact ⟨definition.second, mem_scopeLevels hmem (level?_of_performs hdefine), rfl⟩

namespace Machine

variable {m : Machine} {limit : Nat}

theorem Provenance.depth_mem (h : Provenance genome limit m) {frame : Frame}
    (hframe : frame ∈ m.opened) : ∃ level ∈ scopeLevels genome, frame.depth = level.toNat + 1 := by
  obtain ⟨i, hi, hopens⟩ := h.frames frame hframe
  exact hopens.level_mem (Array.mem_of_getElem? hi)

/-- What an instruction reaches for is a scope that the genome has. -/
theorem Provenance.level_mem (h : Provenance genome limit m) (hi : i ∈ genome) {level : Nat}
    {kind : ScopeKind} {body : Machine → Machine} (hreach : Reaches i m level kind body) :
    ∃ l ∈ scopeLevels genome, level = l.toNat := by
  have hperforms {op : ControlOp} (hop : m.opcode? i = some (.control op)) : i.Performs op :=
    (opcode?_eq_iff h.catalog_eq).mp hop
  cases hreach with
  | guarded hop => exact ⟨i.second, mem_scopeLevels hi (level?_of_performs (hperforms hop)), rfl⟩
  | block hop => exact ⟨i.first, mem_scopeLevels hi (level?_of_performs (hperforms hop)), rfl⟩
  | define hop => exact ⟨i.second, mem_scopeLevels hi (level?_of_performs (hperforms hop)), rfl⟩
  | call hop htarget =>
      obtain ⟨definition, hdefinition, hdefine, rfl⟩ := h.callTarget htarget
      exact ⟨definition.second,
        mem_scopeLevels (Array.mem_of_getElem? hdefinition) (level?_of_performs hdefine), rfl⟩

/-- A scope to be opened and the open ones it goes into all have depths of their own. -/
theorem Nested.nodup_depths (h : Nested m) {depth : Nat} (hdepth : m.innermost.depth < depth) :
    (depth :: m.opened.map (·.depth)).Nodup := by
  have hordered : (m.opened.map (·.depth)).Pairwise (· > ·) :=
    List.pairwise_map.mpr (List.pairwise_append.mp h.ordered).1
  refine List.Pairwise.imp (fun hgt => Nat.ne_of_gt hgt) (List.pairwise_cons.mpr ⟨?_, hordered⟩)
  intro d hd
  obtain ⟨frame, hframe, rfl⟩ := List.mem_map.mp hd
  exact Nat.lt_of_le_of_lt (h.depth_le (List.mem_append_left _ hframe)) hdepth

/-- Every scope that is open, and one more to go, takes an argument of its own. -/
theorem Provenance.length_frames_le (h : Provenance genome limit m) (hnested : Nested m)
    (hi : i ∈ genome) {level : Nat} {kind : ScopeKind} {body : Machine → Machine}
    (hreach : Reaches i m level kind body) (hdepth : m.innermost.depth < level + 1) :
    m.frames.length ≤ (scopeLevels genome).card := by
  have hsubset : ((level + 1) :: m.opened.map (·.depth)).toFinset ⊆
      (scopeLevels genome).image (·.toNat + 1) := by
    intro d hd
    rw [List.mem_toFinset] at hd
    rw [Finset.mem_image]
    rcases List.mem_cons.mp hd with rfl | hd
    · obtain ⟨l, hl, rfl⟩ := h.level_mem hi hreach
      exact ⟨l, hl, rfl⟩
    · obtain ⟨frame, hframe, rfl⟩ := List.mem_map.mp hd
      obtain ⟨l, hl, heq⟩ := h.depth_mem hframe
      exact ⟨l, hl, heq.symm⟩
  calc m.frames.length
      = ((level + 1) :: m.opened.map (·.depth)).length := by simp [length_frames]
    _ = ((level + 1) :: m.opened.map (·.depth)).toFinset.card :=
        (List.toFinset_card_of_nodup (hnested.nodup_depths hdepth)).symm
    _ ≤ ((scopeLevels genome).image (·.toNat + 1)).card := Finset.card_le_card hsubset
    _ ≤ (scopeLevels genome).card := Finset.card_image_le

end Machine

end Levels

open Machine

/-- A genome whose openers have at most fifteen different scope arguments does not run out of
scopes, however long it runs. -/
theorem stateAt_no_overflow {genome : Genome} (hlevels : (scopeLevels genome).card ≤ 15)
    (inputs : Cells) (n position depth : Nat) :
    fault? (step (stateAt genome inputs n)) ≠ some (.scopeOverflow position depth) := by
  intro hfault
  have hnested := nested_of_reachable (reachable_stateAt genome inputs n)
  obtain ⟨i, hcarries, _, hfailure⟩ := carries_of_error hnested (fault?_eq_some.mp hfault)
  have hprovenance := (provenance_stateAt genome inputs n).2 _ hcarries
  have hfetch := hcarries.fetched.2
  rw [instruction?, hprovenance.genome_eq] at hfetch
  cases hfailure with
  | full hreach hdepth hfull =>
      have hlength := hprovenance.length_frames_le hcarries.nested (Array.mem_of_getElem? hfetch)
        hreach hdepth
      exact absurd (Nat.le_trans hfull hlength) (by omega)

/-- Scopes each of which opens inside the one before, and the last one twice. -/
def nest (count : Nat) : Genome :=
  ((List.range count ++ [count - 1]).map fun n => ⟨16, .ofNat (2 * n), 0, 0⟩).toArray

/-- With fifteen arguments all scopes can be open when the next opener is reached. -/
theorem nest_no_overflow :
    ((scopeLevels (nest 15)).card = 15 ∧ (stateAt (nest 15) ∅ 15).frames.length = 16 ∧
        (stateAt (nest 15) ∅ 15).pointer = 15) ∧
      ∀ position depth,
        fault? (step (stateAt (nest 15) ∅ 15)) ≠ some (.scopeOverflow position depth) := by
  have hnest : (scopeLevels (nest 15)).card = 15 ∧ (stateAt (nest 15) ∅ 15).frames.length = 16 ∧
      (stateAt (nest 15) ∅ 15).pointer = 15 := by
    decide +kernel
  exact ⟨hnest, stateAt_no_overflow hnest.1.le ∅ 15⟩

/-- One argument more is too many. -/
example : (scopeLevels (nest 16)).card = 16 ∧
    fault? (step (stateAt (nest 16) ∅ 15)) = some (.scopeOverflow 15 31) := by
  decide +kernel

end GenomeMachine
