import GenomeMachine.Command.Disk
import GenomeMachine.Except
import GenomeMachine.Proofs.Command.Path

/-! # Reading what was written

A file that was written is read back under its path, and every path that leads to another file
still leads there: a new file takes no directory away. Files with different names in the same
directory are different files. -/

namespace GenomeMachine

namespace Place

theorem intercalate_append_singleton {α : Type} (separator : List α) (xs : List (List α))
    (x : List α) :
    separator.intercalate (xs ++ [x]) = xs.flatMap (· ++ separator) ++ x := by
  induction xs with
  | nil => simp [List.intercalate]
  | cons y ys ih =>
      obtain ⟨z, zs, hrest⟩ : ∃ z zs, ys ++ [x] = z :: zs :=
        List.exists_cons_of_ne_nil (by simp)
      rw [List.cons_append, hrest, List.intercalate_cons_cons, ← hrest, ih]
      simp

/-- Names in a directory tell its files apart. -/
theorem text_cons_inj {name name' : List Char} {directory : Place} (hname : name ≠ [])
    (hname' : name' ≠ []) (h : text (name :: directory) = text (name' :: directory)) :
    name = name' := by
  have hroot {name : List Char} (hname : name ≠ []) : name :: directory ≠ root := by
    simp [root, hname]
  rw [text, text, if_neg (hroot hname), if_neg (hroot hname'), List.reverse_cons, List.reverse_cons,
    intercalate_append_singleton, intercalate_append_singleton] at h
  exact List.append_cancel_left (String.ofList_injective h)

end Place

namespace Disk

/-- The disk with a file at a place. -/
def put (disk : Disk) (place : Place) (bytes : List UInt8) : Disk where
  files := disk.files.insert place.text bytes

/-- A path leads to a place. -/
def Leads (disk : Disk) (path : String) (place : Place) : Prop :=
  ∃ start parts, route path = .ok (start, parts) ∧ disk.follow start parts = .ok place

variable {disk : Disk}

/-! ## Following a path -/

theorem isDirectory_put {place : Place} (h : disk.isDirectory place = true) (file : Place)
    (bytes : List UInt8) : (disk.put file bytes).isDirectory place = true := by
  rw [isDirectory, Bool.or_eq_true, List.any_eq_true] at h ⊢
  refine h.imp_right ?_
  rintro ⟨inside, hmem, hprefix⟩
  refine ⟨inside, ?_, hprefix⟩
  rw [Std.ExtTreeMap.mem_keys] at hmem ⊢
  exact Std.ExtTreeMap.mem_insert.mpr (.inr hmem)

theorem enter_eq_ok_iff {place : Place} :
    disk.enter place = .ok () ↔ disk.isDirectory place = true := by
  unfold enter
  split
  · simp_all
  · split <;> simp_all

theorem descend_put {place next : Place} {part : List Char} (h : disk.descend place part = .ok next)
    (file : Place) (bytes : List UInt8) : (disk.put file bytes).descend place part = .ok next := by
  obtain ⟨_, henter, hnext⟩ := bind_eq_ok_iff.mp h
  have henter' := enter_eq_ok_iff.mpr (isDirectory_put (enter_eq_ok_iff.mp henter) file bytes)
  exact bind_eq_ok_iff.mpr ⟨(), henter', hnext⟩

theorem follow_cons {start place : Place} {part : List Char} {parts : List (List Char)} :
    disk.follow start (part :: parts) = .ok place ↔
      ∃ next, disk.descend start part = .ok next ∧ disk.follow next parts = .ok place := by
  rw [follow, List.foldlM_cons]
  exact bind_eq_ok_iff

theorem follow_put {start place : Place} {parts : List (List Char)}
    (h : disk.follow start parts = .ok place) (file : Place) (bytes : List UInt8) :
    (disk.put file bytes).follow start parts = .ok place := by
  induction parts generalizing start with
  | nil => exact h
  | cons part parts ih =>
      obtain ⟨next, hnext, hrest⟩ := follow_cons.mp h
      exact follow_cons.mpr ⟨next, descend_put hnext file bytes, ih hrest⟩

theorem Leads.put {path : String} {place : Place} (h : disk.Leads path place) (file : Place)
    (bytes : List UInt8) : (disk.put file bytes).Leads path place := by
  obtain ⟨start, parts, hroute, hfollow⟩ := h
  exact ⟨start, parts, hroute, follow_put hfollow file bytes⟩

/-! ## Reading and writing -/

theorem read_eq_ok_iff {path : String} {bytes : List UInt8} :
    disk.read path = .ok bytes ↔
      ∃ place, disk.Leads path place ∧ disk.files[place.text]? = some bytes := by
  constructor
  · intro h
    obtain ⟨⟨start, parts⟩, hroute, h⟩ := bind_eq_ok_iff.mp h
    obtain ⟨place, hfollow, h⟩ := bind_eq_ok_iff.mp h
    refine ⟨place, ⟨start, parts, hroute, hfollow⟩, ?_⟩
    cases hfile : disk.files[place.text]? with
    | none =>
        simp only [hfile] at h
        cases h
    | some found =>
        simp only [hfile] at h
        cases h
        rfl
  · rintro ⟨place, ⟨start, parts, hroute, hfollow⟩, hfile⟩
    refine bind_eq_ok_iff.mpr ⟨(start, parts), hroute, bind_eq_ok_iff.mpr ⟨place, hfollow, ?_⟩⟩
    simp only [hfile]
    rfl

theorem exists_put_of_write {path : String} {bytes : List UInt8} {disk' : Disk}
    (h : disk.write path bytes = .ok disk') :
    ∃ place, disk.Leads path place ∧ disk' = disk.put place bytes := by
  obtain ⟨⟨start, parts⟩, hroute, h⟩ := bind_eq_ok_iff.mp h
  obtain ⟨place, hfollow, hput⟩ : ∃ place, disk.follow start parts = .ok place ∧
      (if disk.isDirectory place then throw FileError.isDirectory
        else pure (disk.put place bytes)) = Except.ok disk' := by
    dsimp only at h
    split at h
    · split at h
      · -- A name with a slash behind it is never written to.
        obtain ⟨_, _, h⟩ := bind_eq_ok_iff.mp h
        obtain ⟨_, _, h⟩ := bind_eq_ok_iff.mp h
        cases h
      · exact bind_eq_ok_iff.mp h
    · exact bind_eq_ok_iff.mp h
  refine ⟨place, ⟨start, parts, hroute, hfollow⟩, ?_⟩
  split at hput
  · cases hput
  · cases hput
    rfl

/-- What was written is read back. -/
theorem read_of_write {path : String} {bytes : List UInt8} {disk' : Disk}
    (h : disk.write path bytes = .ok disk') : disk'.read path = .ok bytes := by
  obtain ⟨place, hleads, rfl⟩ := exists_put_of_write h
  exact read_eq_ok_iff.mpr ⟨place, hleads.put place bytes, by simp [put]⟩

/-- Other files stay as they are. -/
theorem read_put_of_ne {path : String} {bytes : List UInt8} {place file : Place}
    (hleads : disk.Leads path place) (hbytes : disk.files[place.text]? = some bytes)
    (hne : file.text ≠ place.text) (other : List UInt8) :
    (disk.put file other).read path = .ok bytes := by
  refine read_eq_ok_iff.mpr ⟨place, hleads.put file other, ?_⟩
  rw [put, Std.ExtTreeMap.getElem?_insert, if_neg (by simpa using hne), hbytes]

/-! ## Files in one directory -/

theorem follow_append {start place : Place} {front rest : List (List Char)} :
    disk.follow start (front ++ rest) = .ok place ↔
      ∃ next, disk.follow start front = .ok next ∧ disk.follow next rest = .ok place := by
  rw [follow, List.foldlM_append]
  exact bind_eq_ok_iff

theorem descend_idle {place next : Place} {part : List Char} (hidle : isIdlePart part = true)
    (h : disk.descend place part = .ok next) : next = place := by
  obtain ⟨_, _, h⟩ := bind_eq_ok_iff.mp h
  rw [if_pos hidle] at h
  cases h
  rfl

theorem descend_name {place next : Place} {part : List Char} (hidle : isIdlePart part = false)
    (hup : part ≠ parentPart) (h : disk.descend place part = .ok next) : next = part :: place := by
  obtain ⟨_, _, h⟩ := bind_eq_ok_iff.mp h
  rw [if_neg (by simp [hidle]), if_neg hup] at h
  split at h
  · cases h
  · cases h
    rfl

theorem follow_idle {start place : Place} {parts : List (List Char)}
    (hidle : ∀ part ∈ parts, isIdlePart part = true) (h : disk.follow start parts = .ok place) :
    place = start := by
  induction parts generalizing start with
  | nil =>
      cases h
      rfl
  | cons part parts ih =>
      obtain ⟨next, hnext, hrest⟩ := follow_cons.mp h
      obtain rfl := descend_idle (hidle part (by simp)) hnext
      exact ih (fun part hmem => hidle part (by simp [hmem])) hrest

/-- Where the parts in front of a file name start. -/
def startOf (parents : List (List Char)) : Place :=
  if parents.head? = some [] then .root else []

/-- A path leads to its file name in the directory that the parts in front of it lead to. -/
theorem Leads.of_namesFile {path : String} {parents : List (List Char)} {name : List Char}
    {place : Place} (h : disk.Leads path place) (hpath : NamesFile path parents name) :
    ∃ directory, disk.follow (startOf parents) parents = .ok directory ∧
      place = name :: directory := by
  obtain ⟨start, parts, hroute, hfollow⟩ := h
  obtain ⟨idle, hparts, hidle⟩ := hpath.parts_eq
  rw [route] at hroute
  split at hroute
  · cases hroute
  · cases hroute
    have hstart : (if path.toList.head? = some '/' then Place.root else []) = startOf parents := by
      simp only [startOf, hpath.head?_eq_slash_iff]
    rw [hstart, hparts] at hfollow
    obtain ⟨directory, hdirectory, hfollow⟩ := follow_append.mp hfollow
    obtain ⟨next, hnext, hfollow⟩ := follow_cons.mp hfollow
    obtain rfl := descend_name hpath.not_idle hpath.not_up hnext
    exact ⟨directory, hdirectory, follow_idle hidle hfollow⟩

/-- A file written beside another one leaves that one as it is. -/
theorem read_of_write_beside {path path' : String} {parents : List (List Char)}
    {name name' : List Char} {bytes bytes' : List UInt8} {disk' : Disk}
    (hpath : NamesFile path parents name) (hpath' : NamesFile path' parents name')
    (hne : name' ≠ name) (hread : disk.read path = .ok bytes)
    (hwrite : disk.write path' bytes' = .ok disk') : disk'.read path = .ok bytes := by
  obtain ⟨place, hleads, hbytes⟩ := read_eq_ok_iff.mp hread
  obtain ⟨file, hleads', rfl⟩ := exists_put_of_write hwrite
  obtain ⟨directory, hdirectory, rfl⟩ := hleads.of_namesFile hpath
  obtain ⟨directory', hdirectory', rfl⟩ := hleads'.of_namesFile hpath'
  cases hdirectory.symm.trans hdirectory'
  refine read_put_of_ne hleads hbytes (fun htext => hne ?_) bytes'
  exact Place.text_cons_inj hpath'.name_ne_nil hpath.name_ne_nil htext

end Disk

end GenomeMachine
