import GenomeMachine.Proofs.Store

/-! # Shifting memory

A shift gives every entry another key, and may take it past an end of the 64-bit range and so to
another place in the order. Adding a distance is one-to-one all the same. So no entry takes the
place of another when the block is put together again, and a shift is undone by its opposite. -/

namespace GenomeMachine

namespace Cells

variable (cells : Cells) (distance : Int64)

/-- The entries under their new keys, in the order of the old ones. -/
def moved : List (Int64 × Float) :=
  cells.toList.map fun (key, value) => (key + distance, value)

theorem shift_eq_ofList : cells.shift distance = .ofList (cells.moved distance) := rfl

theorem moved_distinct : (cells.moved distance).Pairwise fun a b => ¬compare a.1 b.1 = .eq := by
  rw [moved, List.pairwise_map]
  apply cells.distinct_keys_toList.imp
  intro a b hne heq
  apply hne
  rw [Std.compare_eq_iff_eq] at heq ⊢
  exact (Int64.add_left_inj distance).mp heq

theorem mem_moved_iff {key : Int64} {value : Float} :
    (key + distance, value) ∈ cells.moved distance ↔ cells[key]? = some value := by
  rw [moved, List.mem_map, ← Std.ExtTreeMap.mem_toList_iff_getElem?_eq_some]
  constructor
  · rintro ⟨⟨old, _⟩, hentry, heq⟩
    obtain ⟨hkey, rfl⟩ := Prod.mk.inj heq
    rwa [(Int64.add_left_inj distance).mp hkey] at hentry
  · intro hentry
    exact ⟨_, hentry, rfl⟩

/-- Each entry is found a distance away, and nothing else is. -/
theorem getElem?_shift (key : Int64) : (cells.shift distance)[key + distance]? = cells[key]? := by
  rw [shift_eq_ofList]
  cases hentry : cells[key]? with
  | some value =>
      have hmem := (cells.mem_moved_iff distance).mpr hentry
      exact Std.ExtTreeMap.getElem?_ofList_of_mem Std.ReflCmp.compare_self
        (cells.moved_distinct distance) hmem
  | none =>
      apply Std.ExtTreeMap.getElem?_ofList_of_contains_eq_false
      rw [Bool.eq_false_iff, Ne, List.contains_iff_mem, List.mem_map]
      rintro ⟨⟨_, value⟩, hmem, rfl⟩
      rw [mem_moved_iff, hentry] at hmem
      cases hmem

theorem size_shift : (cells.shift distance).size = cells.size := by
  rw [shift_eq_ofList, Std.ExtTreeMap.size_ofList (cells.moved_distinct distance), moved,
    List.length_map, Std.ExtTreeMap.length_toList]

theorem mem_shift_iff {key : Int64} : key + distance ∈ cells.shift distance ↔ key ∈ cells := by
  rw [← Std.ExtTreeMap.isSome_getElem?_iff_mem, getElem?_shift,
    Std.ExtTreeMap.isSome_getElem?_iff_mem]

/-- To look at all keys is to look at all keys a distance away. -/
theorem eq_shift_of_forall {cells moved : Cells} {distance : Int64}
    (h : ∀ key : Int64, moved[key + distance]? = cells[key]?) : moved = cells.shift distance := by
  apply Std.ExtTreeMap.ext_getElem?
  intro key
  rw [← Int64.sub_add_cancel key distance, h, getElem?_shift]

theorem shift_shift (a b : Int64) : (cells.shift a).shift b = cells.shift (a + b) := by
  apply eq_shift_of_forall
  intro key
  rw [← Int64.add_assoc, getElem?_shift, getElem?_shift]

theorem shift_zero : cells.shift 0 = cells := by
  symm
  apply eq_shift_of_forall
  intro key
  rw [Int64.add_zero]

end Cells

namespace Machine

variable (m : Machine) (b : Slot)

theorem block_shiftBlock (s : Int64) (other : Slot) :
    (m.shiftBlock b s).block other = if b = other then (m.block b).shift s else m.block other :=
  get_set ..

theorem block_shiftBlock_self (s : Int64) : (m.shiftBlock b s).block b = (m.block b).shift s := by
  rw [block_shiftBlock, if_pos rfl]

theorem shiftBlock_shiftBlock (s t : Int64) :
    (m.shiftBlock b s).shiftBlock b t = m.shiftBlock b (s + t) := by
  have htwice : (m.shiftBlock b s).shiftBlock b t =
      { m with memory :=
          (m.memory.set b ((m.block b).shift s)).set b (((m.block b).shift s).shift t) } := by
    rw [shiftBlock, block_shiftBlock_self]
    rfl
  rw [htwice, Vector.set_set, Cells.shift_shift]
  rfl

theorem shiftBlock_zero : m.shiftBlock b 0 = m := by
  have hmemory : m.memory.set b (m.block b) = m.memory := Vector.set_getElem_self ..
  rw [shiftBlock, Cells.shift_zero, hmemory]

end Machine

/-- A shift keeps the number of entries of a block. It has an entry at a key and the distance from
there, around the ends of the 64-bit range, exactly if there was one at the key, and with the same
value. Other blocks do not change. Two shifts are one by the sum of their distances, and the
opposite shift leads back to the same machine. -/
theorem shiftBlock_rekeys (m : Machine) (b : Slot) (s : Int64) :
    ((m.shiftBlock b s).block b).size = (m.block b).size ∧
      (∀ key : Int64, (key + s ∈ (m.shiftBlock b s).block b ↔ key ∈ m.block b) ∧
        ((m.shiftBlock b s).block b)[key + s]? = (m.block b)[key]?) ∧
      (∀ other, other ≠ b → (m.shiftBlock b s).block other = m.block other) ∧
      (∀ t, (m.shiftBlock b s).shiftBlock b t = m.shiftBlock b (s + t)) ∧
      (m.shiftBlock b s).shiftBlock b (-s) = m := by
  refine ⟨?_, ?_, ?_, m.shiftBlock_shiftBlock b s, ?_⟩
  · rw [Machine.block_shiftBlock_self, Cells.size_shift]
  · intro key
    rw [Machine.block_shiftBlock_self]
    exact ⟨Cells.mem_shift_iff .., Cells.getElem?_shift ..⟩
  · intro other hother
    rw [Machine.block_shiftBlock, if_neg hother.symm]
  · rw [Machine.shiftBlock_shiftBlock, Int64.add_right_neg, Machine.shiftBlock_zero]

/-- A machine with an entry at each end of the range in one block, and one entry in another. -/
def brink : Machine :=
  (((Machine.new .empty #[]).setCell ⟨9, by decide⟩ Int64.minValue 1.0).setCell ⟨9, by decide⟩
    Int64.maxValue 2.0).setCell ⟨11, by decide⟩ 0 3.0

/-- The last entry becomes the first one, and the least distance is its own opposite. -/
theorem brink_rekeys :
    ((brink.block 9).size = 2 ∧ (brink.block 9)[Int64.maxValue]? = some 2.0) ∧
      (((brink.shiftBlock 9 1).block 9).size = 2 ∧
        ((brink.shiftBlock 9 1).block 9)[Int64.minValue]? = some 2.0) ∧
      (brink.shiftBlock 9 1).block 11 = brink.block 11 ∧
      (brink.shiftBlock 9 Int64.minValue).shiftBlock 9 Int64.minValue = brink := by
  have hblock : brink.block 9 =
      ((∅ : Cells).insert Int64.minValue 1.0).insert Int64.maxValue 2.0 := rfl
  have hsize : (brink.block 9).size = 2 := by
    rw [hblock]
    decide +kernel
  have hlast : (brink.block 9)[Int64.maxValue]? = some 2.0 := by
    rw [hblock, Std.ExtTreeMap.getElem?_insert_self]
  obtain ⟨hentries, hkeys, hothers, _, _⟩ := shiftBlock_rekeys brink 9 1
  obtain ⟨_, _, _, _, hback⟩ := shiftBlock_rekeys brink 9 Int64.minValue
  exact ⟨⟨hsize, hlast⟩, ⟨hentries.trans hsize, (hkeys Int64.maxValue).2.trans hlast⟩,
    hothers 11 (by decide), hback⟩

end GenomeMachine
