import GenomeMachine.Proofs.Catalog.Standard

/-! # Catalogs that were built

A catalog grows by registrations, some of which are refused, and by symbolic arguments. However
that went, names and ids belong together, and every entry keeps to the three argument slots. -/

namespace GenomeMachine

/-- The entry keeps to the three argument slots, and to those that it declares. -/
def Entry.Sound (e : Entry) : Prop :=
  e.arity ≤ 3 ∧ ∀ rule, e.scope = some rule → rule.kind ≠ .root ∧ rule.slot < e.arity

namespace Catalog

/-- The catalogs that can be built, with any registrations tried on the way. -/
inductive Built : Catalog → Prop where
  | empty : Built .empty
  | register {c : Catalog} (e : Entry) : Built c → Built (c.register e).2
  | setSymbol {c : Catalog} (name : String) (value : UInt16) :
      Built c → Built (c.setSymbol name value)

/-- What holds in every catalog that was built. -/
structure Consistent (c : Catalog) : Prop where
  size_le : c.size ≤ 65536
  id?_iff : ∀ name id, c.id? name = some id ↔ ∃ e, c.entry? id = some e ∧ e.name = name
  arity_le : ∀ e ∈ c.entries, e.arity ≤ 3
  scope_lt : ∀ e ∈ c.entries, ∀ rule, e.scope = some rule → rule.kind ≠ .root ∧ rule.slot < e.arity

theorem consistent_empty : Consistent .empty where
  size_le := Nat.zero_le _
  id?_iff name id := by simp [id?, entry?, empty]
  arity_le e he := by simp [empty] at he
  scope_lt e he := by simp [empty] at he

/-! ## One registration -/

/-- The catalog with one more entry at its end. -/
def push (c : Catalog) (e : Entry) : Catalog :=
  { c with entries := c.entries.push e, ids := c.ids.insert e.name (.ofNat c.size) }

theorem register_of_refusal {c : Catalog} {e : Entry} {fault : RegistrationError}
    (h : c.refusal? e = some fault) : c.register e = (.error fault, c) := by
  rw [register, h]

theorem register_of_no_refusal {c : Catalog} {e : Entry} (h : c.refusal? e = none) :
    c.register e = (.ok (.ofNat c.size), c.push e) := by
  rw [register, h]
  rfl

theorem scopeFault?_eq_none_iff {e : Entry} :
    e.scopeFault? = none ↔
      ∀ rule, e.scope = some rule → rule.kind ≠ .root ∧ rule.slot < e.arity := by
  cases hscope : e.scope with
  | none => simp [Entry.scopeFault?, hscope]
  | some rule =>
      simp only [Entry.scopeFault?, hscope]
      grind

theorem contains_ids (c : Catalog) (name : String) :
    c.ids.contains name = (c.id? name).isSome :=
  Std.ExtTreeMap.contains_eq_isSome_getElem?

/-- An entry is taken in if it is sound and its name and the next id are free. -/
theorem refusal?_eq_none_iff {c : Catalog} {e : Entry} :
    c.refusal? e = none ↔ e.Sound ∧ c.id? e.name = none ∧ c.size < 65536 := by
  rw [Entry.Sound, ← scopeFault?_eq_none_iff]
  cases hfault : e.scopeFault? with
  | some fault => simp [refusal?, hfault]
  | none =>
      simp only [refusal?, hfault, contains_ids, Option.isSome_iff_ne_none]
      grind

theorem entry?_push (c : Catalog) (e : Entry) (id : UInt16) :
    entry? (c.push e) id = if id.toNat = c.size then some e else c.entry? id := by
  unfold entry?
  rw [push, size, Array.getElem?_push]

theorem id?_push (c : Catalog) (e : Entry) (name : String) :
    (c.push e).id? name = if e.name = name then some (.ofNat c.size) else c.id? name := by
  simp only [id?, push, Std.ExtTreeMap.getElem?_insert, Std.compare_eq_iff_eq]

theorem lt_size_of_entry? {c : Catalog} {id : UInt16} {e : Entry} (h : c.entry? id = some e) :
    id.toNat < c.size :=
  (Array.getElem?_eq_some_iff.mp h).1

theorem Consistent.push {c : Catalog} (h : Consistent c) {e : Entry} (hnone : c.refusal? e = none) :
    Consistent (c.push e) := by
  obtain ⟨⟨harity, hscope⟩, hname, hsize⟩ := refusal?_eq_none_iff.mp hnone
  have hnew : (UInt16.ofNat c.size).toNat = c.size := UInt16.toNat_ofNat_of_lt hsize
  refine ⟨?_, ?_, ?_, ?_⟩
  · rw [size, Catalog.push, Array.size_push]
    exact hsize
  · intro name id
    rw [id?_push, entry?_push]
    by_cases hid : id.toNat = c.size
    · have hlast : .ofNat c.size = id := UInt16.toNat_inj.mp (hnew.trans hid.symm)
      have hold : c.id? name ≠ some id := by
        intro hsome
        obtain ⟨e', he', _⟩ := (h.id?_iff name id).mp hsome
        have := lt_size_of_entry? he'
        omega
      rw [if_pos hid]
      by_cases hsame : e.name = name
      · simp [hsame, hlast]
      · simp [hsame, hold]
    · have hlast : .ofNat c.size ≠ id := by
        rintro rfl
        exact hid hnew
      rw [if_neg hid, ← h.id?_iff]
      by_cases hsame : e.name = name
      · rw [if_pos hsame, ← hsame, hname]
        simp [hlast]
      · rw [if_neg hsame]
  · intro e' he'
    rcases Array.mem_push.mp he' with he' | rfl
    · exact h.arity_le e' he'
    · exact harity
  · intro e' he'
    rcases Array.mem_push.mp he' with he' | rfl
    · exact h.scope_lt e' he'
    · exact hscope

/-- However a catalog was built, it is consistent. -/
theorem Built.consistent {c : Catalog} (h : Built c) : Consistent c := by
  induction h with
  | empty => exact consistent_empty
  | @register c e _ ih =>
      cases hrefusal : c.refusal? e with
      | some fault => rwa [register_of_refusal hrefusal]
      | none =>
          rw [register_of_no_refusal hrefusal]
          exact ih.push hrefusal
  | setSymbol name value _ ih => exact { ih with }

/-- A name leads back to the entry that has it. -/
theorem Consistent.named?_name {c : Catalog} (h : Consistent c) {id : UInt16} {e : Entry}
    (hentry : c.entry? id = some e) : c.named? e.name = some (id, e) := by
  have hid : c.id? e.name = some id := (h.id?_iff e.name id).mpr ⟨e, hentry, rfl⟩
  simp [named?, hid, hentry]

theorem Consistent.of_named? {c : Catalog} (h : Consistent c) {name : String} {id : UInt16}
    {e : Entry} (hnamed : c.named? name = some (id, e)) :
    c.entry? id = some e ∧ e.name = name := by
  simp only [named?, Option.bind_eq_bind, Option.bind_eq_some_iff] at hnamed
  obtain ⟨found, hid, entry, hentry, hpair⟩ := hnamed
  cases hpair
  obtain ⟨e', he', hname⟩ := (h.id?_iff name id).mp hid
  rw [hentry] at he'
  cases he'
  exact ⟨hentry, hname⟩

/-! ## Names -/

/-- The name of the entry with an id. -/
def name? (c : Catalog) (id : UInt16) : Option String :=
  (c.entry? id).map (·.name)

theorem isSome_name?_iff (c : Catalog) (id : UInt16) :
    (c.name? id).isSome ↔ id.toNat < c.size := by
  simp [name?, entry?, size]

theorem Consistent.id?_iff_name? {c : Catalog} (h : Consistent c) (name : String) (id : UInt16) :
    c.id? name = some id ↔ c.name? id = some name := by
  rw [h.id?_iff, name?, Option.map_eq_some_iff]

theorem Consistent.nodup_names {c : Catalog} (h : Consistent c) :
    (c.entries.toList.map (·.name)).Nodup := by
  have hfound (n : Nat) (hn : n < c.entries.toList.length) :
      ∃ id, id.toNat = n ∧ c.id? c.entries.toList[n].name = some id := by
    have hsmall : n < 65536 := Nat.lt_of_lt_of_le (by simpa [size] using hn) h.size_le
    have hid : (UInt16.ofNat n).toNat = n := UInt16.toNat_ofNat_of_lt hsmall
    refine ⟨.ofNat n, hid, (h.id?_iff _ _).mpr ⟨c.entries.toList[n], ?_, rfl⟩⟩
    unfold entry?
    rw [hid, Array.getElem?_eq_getElem (by simpa using hn), Array.getElem_toList]
  refine List.pairwise_iff_getElem.mpr ?_
  intro i j hi hj hlt hname
  rw [List.getElem_map, List.getElem_map] at hname
  -- Both ids are what the one name leads to.
  obtain ⟨a, ha, hfirst⟩ := hfound i (by simpa using hi)
  obtain ⟨b, hb, hsecond⟩ := hfound j (by simpa using hj)
  have hsame : a = b := Option.some.inj (hfirst.symm.trans (hname ▸ hsecond))
  rw [← ha, ← hb, hsame] at hlt
  exact Nat.lt_irrefl _ hlt

/-! ## What a registration changes -/

/-- An entry was taken into a catalog under an id. It comes behind all others, and everything that
the catalog had stays as it was. -/
structure Added (c : Catalog) (e : Entry) (id : UInt16) (c' : Catalog) : Prop where
  id_eq : id.toNat = c.size
  size_eq : c'.size = c.size + 1
  entry?_new : c'.entry? id = some e
  entry?_old : ∀ i, i.toNat < c.size → c'.entry? i = c.entry? i
  id?_new : c.id? e.name = none ∧ c'.id? e.name = some id
  id?_old : ∀ name, name ≠ e.name → c'.id? name = c.id? name
  symbol?_eq : ∀ name, c'.symbol? name = c.symbol? name

theorem added_of_register {c c' : Catalog} {e : Entry} {id : UInt16}
    (h : c.register e = (.ok id, c')) : Added c e id c' := by
  cases hrefusal : c.refusal? e with
  | some fault => cases (register_of_refusal hrefusal).symm.trans h
  | none =>
      obtain ⟨_, hname, hsize⟩ := refusal?_eq_none_iff.mp hrefusal
      have hid : (UInt16.ofNat c.size).toNat = c.size := UInt16.toNat_ofNat_of_lt hsize
      cases (register_of_no_refusal hrefusal).symm.trans h
      refine ⟨hid, Array.size_push .., ?_, ?_, ⟨hname, ?_⟩, ?_, fun _ => rfl⟩
      · rw [entry?_push, if_pos hid]
      · intro i hi
        rw [entry?_push, if_neg (Nat.ne_of_lt hi)]
      · rw [id?_push, if_pos rfl]
      · intro name hne
        rw [id?_push, if_neg hne.symm]

theorem register_eq_ok_iff {c : Catalog} {e : Entry} :
    (∃ id, (c.register e).1 = .ok id) ↔ e.Sound ∧ c.id? e.name = none ∧ c.size < 65536 := by
  rw [← refusal?_eq_none_iff]
  cases hrefusal : c.refusal? e with
  | some fault => simp [register_of_refusal hrefusal]
  | none => simp [register_of_no_refusal hrefusal]

theorem eq_of_register_error {c c' : Catalog} {e : Entry} {fault : RegistrationError}
    (h : c.register e = (.error fault, c')) : c' = c := by
  cases hrefusal : c.refusal? e with
  | some fault =>
      cases (register_of_refusal hrefusal).symm.trans h
      rfl
  | none => cases (register_of_no_refusal hrefusal).symm.trans h

/-! ## The standard catalog -/

theorem Built.registerAll {c : Catalog} (h : Built c) (es : List Entry) :
    Built (c.registerAll es) := by
  induction es generalizing c with
  | nil => exact h
  | cons e es ih => exact ih (h.register e)

theorem Built.withRegisterNames {c : Catalog} (h : Built c) : Built c.withRegisterNames := by
  rw [Catalog.withRegisterNames]
  generalize registerLetters.zipIdx = letters
  induction letters generalizing c with
  | nil => exact h
  | cons letter letters ih => exact ih ((h.setSymbol _ _).setSymbol _ _)

theorem built_standard : Built standard :=
  (Built.empty.registerAll standardEntries).withRegisterNames

end Catalog

/-- However a catalog was built, names and ids lead to each other, and every entry is sound. The
next registration is accepted for a sound entry with a free name, as long as there are ids left; it
then gets the next id and nothing else changes. A refused one changes nothing at all, and symbolic
arguments change no entry. -/
theorem built_catalog {c : Catalog} (h : c.Built) :
    c.size ≤ 65536 ∧
      (∀ id, (c.name? id).isSome ↔ id.toNat < c.size) ∧
      (∀ name id, c.id? name = some id ↔ c.name? id = some name) ∧
      (c.entries.toList.map (·.name)).Nodup ∧
      (∀ e ∈ c.entries, e.Sound) ∧
      (∀ e, (∃ id, (c.register e).1 = .ok id) ↔
        e.Sound ∧ c.id? e.name = none ∧ c.size < 65536) ∧
      (∀ e id c', c.register e = (.ok id, c') → c.Added e id c') ∧
      (∀ e fault c', c.register e = (.error fault, c') → c' = c) ∧
      ∀ name value, (c.setSymbol name value).entries = c.entries ∧
        ∀ other, (c.setSymbol name value).id? other = c.id? other := by
  have hc := h.consistent
  refine ⟨hc.size_le, c.isSome_name?_iff, hc.id?_iff_name?, hc.nodup_names, ?_, ?_, ?_, ?_, ?_⟩
  · intro e he
    exact ⟨hc.arity_le e he, hc.scope_lt e he⟩
  · exact fun e => Catalog.register_eq_ok_iff
  · exact fun e id c' => Catalog.added_of_register
  · exact fun e fault c' => Catalog.eq_of_register_error
  · exact fun name value => ⟨rfl, fun other => rfl⟩

/-- A catalog that was built with two entries and a symbolic argument. Four more entries were
refused on the way: a second one of the same name, one with too many arguments, one that opens a
root scope, and one with its depth in a slot that it does not declare. -/
def patchwork : Catalog :=
  (Catalog.empty.registerAll
    [⟨"Wait", .data .idle, 0, "", none⟩, ⟨"Wait", .data .endTurn, 1, "", none⟩,
      ⟨"Wide", .data .idle, 4, "", none⟩, ⟨"Top", .control .block, 1, "", some ⟨.root, 0⟩⟩,
      ⟨"Deep", .control .block, 1, "", some ⟨.basic, 1⟩⟩,
      ⟨"Again", .control (.guarded .repeated), 2, "", some ⟨.loop, 1⟩⟩]).setSymbol "Here" 7

theorem built_patchwork : patchwork.Built :=
  (Catalog.Built.empty.registerAll _).setSymbol "Here" 7

/-- The next sound entry becomes the third one, also under a name that was refused before. A name
that is in use stays where it is. -/
theorem patchwork_catalog :
    patchwork.size = 2 ∧ (∀ id, (patchwork.name? id).isSome ↔ id.toNat < 2) ∧
      (patchwork.id? "Again" = some 1 ∧ patchwork.name? 1 = some "Again") ∧
      (∃ c', patchwork.register ⟨"Deep", .data .idle, 3, "", none⟩ = (.ok 2, c') ∧
        patchwork.Added ⟨"Deep", .data .idle, 3, "", none⟩ 2 c') ∧
      patchwork.register ⟨"Again", .data .idle, 0, "", none⟩ =
        (.error (.duplicateName "Again"), patchwork) := by
  have hevaluate : patchwork.size = 2 ∧ patchwork.id? "Again" = some 1 ∧
      patchwork.refusal? ⟨"Deep", .data .idle, 3, "", none⟩ = none ∧
      patchwork.refusal? ⟨"Again", .data .idle, 0, "", none⟩ = some (.duplicateName "Again") := by
    decide +kernel
  obtain ⟨hsize, hagain, hdeep, hused⟩ := hevaluate
  obtain ⟨_, hnames, hids, _, _, _, hadded, _⟩ := built_catalog built_patchwork
  rw [hsize] at hnames
  have hregister := Catalog.register_of_no_refusal hdeep
  rw [hsize] at hregister
  exact ⟨hsize, hnames, ⟨hagain, (hids _ _).mp hagain⟩, ⟨_, hregister, hadded _ _ _ hregister⟩,
    Catalog.register_of_refusal hused⟩

end GenomeMachine
