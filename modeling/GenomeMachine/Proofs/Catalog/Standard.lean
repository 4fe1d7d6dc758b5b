import GenomeMachine.Catalog.Standard

/-! # Entries of the standard catalog -/

namespace GenomeMachine.Catalog

/-- None of the standard entries is refused, so each has its place in the list as its id. -/
theorem entries_standard : standard.entries = standardEntries.toArray := by
  decide +kernel

theorem entry?_standard (id : UInt16) : standard.entry? id = standardEntries[id.toNat]? := by
  unfold entry?
  rw [entries_standard, List.getElem?_toArray]

theorem mem_standardEntries {id : UInt16} {e : Entry} (h : standard.entry? id = some e) :
    e ∈ standardEntries := by
  rw [entry?_standard] at h
  exact List.mem_of_getElem? h

end GenomeMachine.Catalog
