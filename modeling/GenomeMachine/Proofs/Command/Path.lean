import GenomeMachine.Command.Path
import GenomeMachine.Proofs.Text.Words
import Mathlib.Data.List.TakeDrop
import Mathlib.Data.List.TakeWhile

/-! # Paths and their extensions

A path with a file name is its parents, the name, and parts behind it that lead nowhere new. With
another extension the parents stay, the name keeps its stem, and nothing stands behind it. -/

namespace GenomeMachine

/-! ## Parts -/

theorem slash_not_mem_of_mem_pathParts {path : String} {part : List Char}
    (h : part ∈ pathParts path) : '/' ∉ part := by
  intro hslash
  have hnot := (mem_splitWhere h '/' hslash).1
  simp at hnot

theorem pathParts_ofList_of_slash_not_mem {part : List Char} (h : '/' ∉ part) :
    pathParts (String.ofList part) = [part] := by
  rw [pathParts, String.toList_ofList, splitWhere_eq_splitOnP]
  refine List.splitOnP_eq_singleton ?_
  intro ch hch
  simpa using ne_of_mem_of_not_mem hch h

/-- Parts that are put together with slashes come apart again. -/
theorem pathParts_ofList {parents : List (List Char)} {name : List Char}
    (hparents : ∀ part ∈ parents, '/' ∉ part) (hname : '/' ∉ name) :
    pathParts (String.ofList (parents.flatMap (· ++ ['/']) ++ name)) = parents ++ [name] := by
  induction parents with
  | nil => exact pathParts_ofList_of_slash_not_mem hname
  | cons part parents ih =>
      have hpart : splitWhere (· == '/') part = [part] := by
        simpa [pathParts] using pathParts_ofList_of_slash_not_mem (hparents part (by simp))
      have hrest := ih fun part hmem => hparents part (by simp [hmem])
      simp only [pathParts, String.toList_ofList, splitWhere_eq_splitOnP] at hpart hrest ⊢
      calc List.splitOnP (· == '/') ((part :: parents).flatMap (· ++ ['/']) ++ name)
          = List.splitOnP (· == '/') (part ++ '/' :: (parents.flatMap (· ++ ['/']) ++ name)) := by
            simp
        _ = List.splitOnP (· == '/') part ++
              List.splitOnP (· == '/') (parents.flatMap (· ++ ['/']) ++ name) :=
            List.splitOnP_append_cons part _ rfl
        _ = part :: parents ++ [name] := by rw [hpart, hrest]; rfl

/-- A path begins with a slash if its first part is empty and not the only one. -/
theorem head?_eq_slash_iff (path : String) :
    path.toList.head? = some '/' ↔ ∃ part rest, pathParts path = [] :: part :: rest := by
  rw [pathParts, splitWhere_eq_splitOnP]
  cases path.toList with
  | nil => simp
  | cons ch chs =>
      obtain ⟨part, rest, hparts⟩ :=
        List.exists_cons_of_ne_nil (List.splitOnP_ne_nil (· == '/') chs)
      rw [List.splitOnP_cons_eq_if_modifyHead, hparts]
      by_cases hch : ch = '/'
      · simp [hch]
      · simp [hch]

/-! ## File names -/

/-- The file name of a path and the parts in front of it. -/
structure NamesFile (path : String) (parents : List (List Char)) (name : List Char) : Prop where
  parts_eq : ∃ idle, pathParts path = parents ++ name :: idle ∧ ∀ part ∈ idle, isIdlePart part
  not_idle : isIdlePart name = false
  not_up : name ≠ ['.', '.']

theorem dropWhile_append_cons {α : Type} {p : α → Bool} {front rest : List α} {x : α}
    (hfront : ∀ y ∈ front, p y = true) (hx : p x = false) :
    (front ++ x :: rest).dropWhile p = x :: rest := by
  rw [List.dropWhile_append_of_pos hfront, List.dropWhile_cons_of_neg (by simp [hx])]

theorem splitFileName?_eq_some_iff {path : String} {parents : List (List Char)}
    {name : List Char} :
    splitFileName? path = some (parents, name) ↔ NamesFile path parents name := by
  constructor
  · intro h
    have hsplit := List.takeWhile_append_dropWhile (p := isIdlePart) (l := (pathParts path).reverse)
    rw [splitFileName?] at h
    split at h
    · cases h
    next last outer hlast =>
      split at h
      · cases h
      next hup =>
        cases h
        rw [hlast] at hsplit
        refine ⟨⟨((pathParts path).reverse.takeWhile isIdlePart).reverse, ?_, ?_⟩, ?_, hup⟩
        · have hparts := congrArg List.reverse hsplit
          simpa using hparts.symm
        · intro part hpart
          exact List.mem_takeWhile_imp (List.mem_reverse.mp hpart)
        · have hhead := List.head?_dropWhile_not isIdlePart (pathParts path).reverse
          rw [hlast] at hhead
          exact hhead
  · rintro ⟨⟨idle, hparts, hidle⟩, hname, hup⟩
    have hlast : (pathParts path).reverse.dropWhile isIdlePart = name :: parents.reverse := by
      rw [hparts, List.reverse_append, List.reverse_cons, List.append_assoc]
      refine dropWhile_append_cons (fun part hpart => hidle part (List.mem_reverse.mp hpart)) hname
    simp only [splitFileName?, hlast, if_neg hup, List.reverse_reverse]

/-! ## Extensions -/

theorem splitExtension_append {stem extension : List Char} (hstem : stem ≠ [])
    (hextension : '.' ∉ extension) :
    splitExtension (stem ++ '.' :: extension) = (stem, some extension) := by
  have hspan : (stem ++ '.' :: extension).reverse.span (· ≠ '.') =
      (extension.reverse, '.' :: stem.reverse) := by
    have hkeep : ∀ ch ∈ extension.reverse, decide (ch ≠ '.') = true := by
      intro ch hch
      simpa using ne_of_mem_of_not_mem (List.mem_reverse.mp hch) hextension
    rw [List.span_eq_takeWhile_dropWhile, List.reverse_append, List.reverse_cons,
      List.append_assoc, List.singleton_append, dropWhile_append_cons hkeep (by simp),
      List.takeWhile_append_of_pos hkeep, List.takeWhile_cons_of_neg (by simp), List.append_nil]
  obtain ⟨ch, rest, hreverse⟩ := List.exists_cons_of_ne_nil (List.reverse_ne_nil_iff.mpr hstem)
  rw [splitExtension, hspan, hreverse]
  simp [← hreverse]

/-- The stem of a name is the beginning of it, and it is not empty. -/
theorem stem_spec {name : List Char} (hname : name ≠ []) :
    (splitExtension name).1 ≠ [] ∧ (splitExtension name).1 <+: name := by
  rw [splitExtension, List.span_eq_takeWhile_dropWhile]
  have hsplit := List.takeWhile_append_dropWhile (p := (· ≠ '.')) (l := name.reverse)
  split
  · exact ⟨hname, List.prefix_refl name⟩
  · exact ⟨hname, List.prefix_refl name⟩
  next extension dot stem hnot heq =>
    obtain ⟨rfl, hdrop⟩ := Prod.mk.inj heq
    rw [hdrop] at hsplit
    refine ⟨by simpa using hnot, dot :: (name.reverse.takeWhile (· ≠ '.')).reverse, ?_⟩
    simpa using congrArg List.reverse hsplit

/-- A name with another extension. -/
def renamed (name extension : List Char) : List Char :=
  (splitExtension name).1 ++ '.' :: extension

section NamesFile

variable {path : String} {parents : List (List Char)} {name : List Char}
  (h : NamesFile path parents name)
include h

theorem NamesFile.name_ne_nil : name ≠ [] := by
  rintro rfl
  exact absurd h.not_idle (by decide)

/-- Whether a path starts at the root can be told from what is in front of its file name. -/
theorem NamesFile.head?_eq_slash_iff :
    path.toList.head? = some '/' ↔ parents.head? = some [] := by
  obtain ⟨idle, hparts, -⟩ := h.parts_eq
  rw [GenomeMachine.head?_eq_slash_iff, hparts]
  cases parents with
  | nil => simp [h.name_ne_nil]
  | cons part parents => cases parents <;> simp

/-- The last part of a path with another extension is its name. -/
theorem NamesFile.pathParts_withExtension {extension : String} (hslash : '/' ∉ extension.toList) :
    pathParts (withExtension path extension) = parents ++ [renamed name extension.toList] := by
  obtain ⟨idle, hparts, -⟩ := h.parts_eq
  have hsame : withExtension path extension =
      String.ofList (parents.flatMap (· ++ ['/']) ++ renamed name extension.toList) := by
    simp only [withExtension, splitFileName?_eq_some_iff.mpr h, renamed, List.append_assoc]
  have hpart {part : List Char} (hmem : part ∈ parents ++ name :: idle) : '/' ∉ part :=
    slash_not_mem_of_mem_pathParts (hparts ▸ hmem)
  rw [hsame]
  refine pathParts_ofList (fun part hmem => hpart (by simp [hmem])) ?_
  have hname : '/' ∉ name := hpart (by simp)
  have hstem : '/' ∉ (splitExtension name).1 :=
    fun hmem => hname ((stem_spec h.name_ne_nil).2.subset hmem)
  simp [renamed, hstem, hslash]

/-- With another extension a path has a file name again, in the same place. -/
theorem NamesFile.withExtension {extension : String} (hslash : '/' ∉ extension.toList)
    (hne : extension.toList ≠ []) :
    NamesFile (withExtension path extension) parents (renamed name extension.toList) := by
  have hstem := List.length_pos_iff.mpr (stem_spec h.name_ne_nil).1
  have hlength : 2 < (renamed name extension.toList).length := by
    have hextension := List.length_pos_iff.mpr hne
    simp only [renamed, List.length_append, List.length_cons]
    omega
  refine ⟨⟨[], h.pathParts_withExtension hslash, by simp⟩, ?_, ?_⟩
  · rw [isIdlePart, Bool.or_eq_false_iff]
    refine ⟨?_, ?_⟩
    · rw [List.isEmpty_eq_false_iff, ← List.length_pos_iff]
      omega
    · rw [beq_eq_false_iff_ne]
      exact fun heq => by simp [heq] at hlength
  · exact fun heq => by simp [heq] at hlength

theorem NamesFile.extension?_eq :
    extension? path = (splitExtension name).2.map String.ofList := by
  simp only [extension?, splitFileName?_eq_some_iff.mpr h, Option.bind_eq_bind, Option.bind_some]
  cases (splitExtension name).2 <;> rfl

theorem NamesFile.extension?_withExtension {extension : String}
    (hslash : '/' ∉ extension.toList) (hdot : '.' ∉ extension.toList)
    (hne : extension.toList ≠ []) :
    extension? (GenomeMachine.withExtension path extension) = some extension := by
  rw [(h.withExtension hslash hne).extension?_eq, renamed,
    splitExtension_append (stem_spec h.name_ne_nil).1 hdot, Option.map_some, String.ofList_toList]

/-- A name with another extension is another name. -/
theorem NamesFile.renamed_ne {extension : String} (hdot : '.' ∉ extension.toList)
    (hextension : extension? path ≠ some extension) : renamed name extension.toList ≠ name := by
  intro hsame
  have hsplit : splitExtension (renamed name extension.toList) = _ :=
    splitExtension_append (stem_spec h.name_ne_nil).1 hdot
  rw [hsame] at hsplit
  rw [h.extension?_eq, hsplit, Option.map_some, String.ofList_toList] at hextension
  exact hextension rfl

end NamesFile

end GenomeMachine
