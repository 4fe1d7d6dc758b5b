import GenomeMachine.Text.Blank

/-! # Words and lines

Texts that were put together from words or from lines come apart into the same words and lines.
`words_eq_iff` and `lines_eq_iff` say which texts have given words or lines. -/

namespace GenomeMachine

theorem splitWhere_eq_splitOnP {α : Type} (separates : α → Bool) (xs : List α) :
    splitWhere separates xs = xs.splitOnP separates := by
  induction xs with
  | nil => simp [splitWhere]
  | cons x xs ih =>
      rw [List.splitOnP_cons_eq_if_modifyHead, ← ih]
      cases hpieces : splitWhere separates xs with
      | nil => exact absurd (ih.symm.trans hpieces) (List.splitOnP_ne_nil separates xs)
      | cons piece rest =>
          rw [splitWhere] at hpieces
          simp only [splitWhere, List.foldr_cons, hpieces, List.modifyHead_cons]

/-- The pieces are parts of the whole, and no separator is in them. -/
theorem mem_splitWhere {α : Type} {separates : α → Bool} {xs piece : List α}
    (h : piece ∈ splitWhere separates xs) : ∀ x ∈ piece, separates x = false ∧ x ∈ xs := by
  rw [splitWhere_eq_splitOnP] at h
  induction xs generalizing piece with
  | nil => simp_all
  | cons x xs ih =>
      have hlater {piece : List α} (hpiece : piece ∈ xs.splitOnP separates) :
          ∀ y ∈ piece, separates y = false ∧ y ∈ x :: xs :=
        fun y hy => ⟨(ih hpiece y hy).1, List.mem_cons_of_mem x (ih hpiece y hy).2⟩
      rw [List.splitOnP_cons_eq_if_modifyHead] at h
      by_cases hx : separates x = true
      · rw [if_pos hx] at h
        rcases List.mem_cons.mp h with rfl | h
        · simp
        · exact hlater h
      · rw [if_neg hx] at h
        obtain ⟨first, rest, hpieces⟩ :=
          List.exists_cons_of_ne_nil (List.splitOnP_ne_nil separates xs)
        rw [hpieces, List.modifyHead_cons] at h
        rcases List.mem_cons.mp h with rfl | h
        · intro y hy
          rcases List.mem_cons.mp hy with rfl | hy
          · exact ⟨by simpa using hx, List.mem_cons_self⟩
          · exact hlater (hpieces ▸ List.mem_cons_self) y hy
        · exact hlater (hpieces ▸ List.mem_cons_of_mem _ h)

/-- Each separator makes one more piece. -/
theorem length_splitWhere {α : Type} (separates : α → Bool) (xs : List α) :
    (splitWhere separates xs).length = xs.countP separates + 1 := by
  rw [splitWhere_eq_splitOnP]
  induction xs with
  | nil => simp
  | cons x xs ih =>
      rw [List.splitOnP_cons_eq_if_modifyHead]
      by_cases hx : separates x = true
      · rw [if_pos hx, List.length_cons, ih, List.countP_cons_of_pos hx]
      · rw [if_neg hx, List.length_modifyHead, ih, List.countP_cons_of_neg hx]

/-! ## Lines -/

theorem length_lines (cs : List Char) : (lines cs).length = cs.count '\n' + 1 :=
  length_splitWhere _ cs

theorem lines_append (front rest : List Char) :
    lines (front ++ '\n' :: rest) = lines front ++ lines rest := by
  simp only [lines, splitWhere_eq_splitOnP]
  exact List.splitOnP_append_cons front rest rfl

theorem lines_of_not_mem {line : List Char} (h : '\n' ∉ line) : lines line = [line] := by
  rw [lines, splitWhere_eq_splitOnP]
  refine List.splitOnP_eq_singleton ?_
  rintro ch hch
  simpa using ne_of_mem_of_not_mem hch h

/-- The lines of a text are what line feeds join to it. -/
theorem lines_eq_iff {cs : List Char} {ls : List (List Char)} :
    lines cs = ls ↔ ls ≠ [] ∧ (∀ line ∈ ls, '\n' ∉ line) ∧ cs = ['\n'].intercalate ls := by
  have hsplit : lines cs = cs.splitOn '\n' := splitWhere_eq_splitOnP ..
  constructor
  · rintro rfl
    refine ⟨?_, ?_, ?_⟩
    · rw [hsplit]
      exact List.splitOnP_ne_nil _ cs
    · intro line hline hfeed
      simpa using (mem_splitWhere hline _ hfeed).1
    · rw [hsplit, List.intercalate_splitOn]
  · rintro ⟨hne, hfeeds, rfl⟩
    rw [hsplit, List.splitOn_intercalate '\n' hfeeds hne]

/-! ## Words -/

theorem mem_words {cs word : List Char} (h : word ∈ words cs) :
    word ≠ [] ∧ ∀ ch ∈ word, isBlank ch = false ∧ ch ∈ cs := by
  obtain ⟨hpiece, hne⟩ := List.mem_filter.mp h
  exact ⟨by simpa using hne, mem_splitWhere hpiece⟩

theorem words_append_blank {blank : Char} (hblank : isBlank blank = true)
    (front rest : List Char) : words (front ++ blank :: rest) = words front ++ words rest := by
  simp only [words, splitWhere_eq_splitOnP]
  rw [List.splitOnP_append_cons front rest hblank, List.filter_append]

theorem words_of_solid {word : List Char} (hne : word ≠ [])
    (hsolid : ∀ ch ∈ word, isBlank ch = false) : words word = [word] := by
  rw [words, splitWhere_eq_splitOnP, List.splitOnP_eq_singleton hsolid]
  simpa using hne

theorem words_cons_blank {blank : Char} (hblank : isBlank blank = true) (rest : List Char) :
    words (blank :: rest) = words rest :=
  words_append_blank hblank [] rest

/-- Blanks before a text add no words. -/
theorem words_gap_append {gap : List Char} (hgap : ∀ ch ∈ gap, isBlank ch = true)
    (rest : List Char) : words (gap ++ rest) = words rest := by
  induction gap with
  | nil => rfl
  | cons blank gap ih =>
      obtain ⟨hblank, hgap⟩ := List.forall_mem_cons.mp hgap
      rw [List.cons_append, words_cons_blank hblank, ih hgap]

theorem words_indented (depth : Nat) (line : List Char) :
    words (List.replicate depth ' ' ++ line) = words line := by
  refine words_gap_append ?_ line
  intro ch hch
  rw [List.eq_of_mem_replicate hch]
  decide

/-- A text starts with a word that reaches up to a blank or to the end. -/
theorem words_solid_append {word rest : List Char} (hne : word ≠ [])
    (hsolid : ∀ ch ∈ word, isBlank ch = false) (hend : ∀ ch ∈ rest.head?, isBlank ch = true) :
    words (word ++ rest) = word :: words rest := by
  cases rest with
  | nil =>
      rw [List.append_nil, words_of_solid hne hsolid]
      rfl
  | cons blank rest =>
      have hblank := hend blank rfl
      rw [words_append_blank hblank, words_of_solid hne hsolid, words_cons_blank hblank]
      rfl

/-- A text is made of these words, with blanks around and between them. -/
inductive Spells : List (List Char) → List Char → Prop where
  | nil {gap : List Char} (hgap : ∀ ch ∈ gap, isBlank ch = true) : Spells [] gap
  | cons {gap word rest : List Char} {ws : List (List Char)}
      (hgap : ∀ ch ∈ gap, isBlank ch = true) (hne : word ≠ [])
      (hsolid : ∀ ch ∈ word, isBlank ch = false) (hend : ∀ ch ∈ rest.head?, isBlank ch = true) :
      Spells ws rest → Spells (word :: ws) (gap ++ (word ++ rest))

theorem Spells.words_eq {ws : List (List Char)} {cs : List Char} (h : Spells ws cs) :
    words cs = ws := by
  induction h with
  | @nil gap hgap =>
      rw [← List.append_nil gap, words_gap_append hgap]
      rfl
  | cons hgap hne hsolid hend _ ih =>
      rw [words_gap_append hgap, words_solid_append hne hsolid hend, ih]

theorem Spells.blank_cons {ws : List (List Char)} {cs : List Char} (h : Spells ws cs) {blank : Char}
    (hblank : isBlank blank = true) : Spells ws (blank :: cs) := by
  cases h with
  | nil hgap => exact .nil (List.forall_mem_cons.mpr ⟨hblank, hgap⟩)
  | cons hgap hne hsolid hend hrest =>
      exact .cons (List.forall_mem_cons.mpr ⟨hblank, hgap⟩) hne hsolid hend hrest

/-- One more character either starts a word of its own or becomes part of the first word. -/
theorem Spells.solid_cons {ws : List (List Char)} {cs : List Char} (h : Spells ws cs) {ch : Char}
    (hch : isBlank ch = false) : ∃ ws', Spells ws' (ch :: cs) := by
  have hnone : ∀ c ∈ ([] : List Char), isBlank c = true := by simp
  have hsingle : ∀ c ∈ [ch], isBlank c = false := by simpa using hch
  have hstart (hend : ∀ c ∈ cs.head?, isBlank c = true) : Spells ([ch] :: ws) (ch :: cs) :=
    .cons hnone (List.cons_ne_nil ch []) hsingle hend h
  cases h with
  | nil hgap => exact ⟨_, hstart fun c hc => hgap c (List.mem_of_mem_head? hc)⟩
  | @cons gap word rest ws hgap hne hsolid hend hrest =>
      cases gap with
      | nil =>
          exact ⟨_, .cons hnone (List.cons_ne_nil ch word)
            (List.forall_mem_cons.mpr ⟨hch, hsolid⟩) hend hrest⟩
      | cons blank gap => exact ⟨_, hstart fun c hc => hgap c (by simp_all)⟩

theorem exists_spells (cs : List Char) : ∃ ws, Spells ws cs := by
  induction cs with
  | nil => exact ⟨[], .nil (by simp)⟩
  | cons ch cs ih =>
      obtain ⟨ws, hws⟩ := ih
      cases hch : isBlank ch with
      | true => exact ⟨ws, hws.blank_cons hch⟩
      | false => exact hws.solid_cons hch

/-- Every text is made of words and blanks in one way only. -/
theorem words_eq_iff {cs : List Char} {ws : List (List Char)} : words cs = ws ↔ Spells ws cs := by
  constructor
  · rintro rfl
    obtain ⟨ws, hws⟩ := exists_spells cs
    rwa [hws.words_eq]
  · exact Spells.words_eq

/-- Words with a blank before each of them. -/
def spaced (ws : List (List Char)) : List Char :=
  ws.flatMap (' ' :: ·)

@[simp] theorem spaced_cons (word : List Char) (ws : List (List Char)) :
    spaced (word :: ws) = ' ' :: word ++ spaced ws := by
  simp [spaced]

/-- Words that stand behind blanks are found again. -/
theorem words_append_spaced (front : List Char) {ws : List (List Char)}
    (hws : ∀ word ∈ ws, word ≠ [] ∧ ∀ ch ∈ word, isBlank ch = false) :
    words (front ++ spaced ws) = words front ++ ws := by
  induction ws generalizing front with
  | nil => simp [spaced]
  | cons word ws ih =>
      obtain ⟨hne, hsolid⟩ := hws word (by simp)
      calc words (front ++ spaced (word :: ws))
          = words ((front ++ ' ' :: word) ++ spaced ws) := by simp
        _ = words (front ++ ' ' :: word) ++ ws := ih _ fun w hw => hws w (by simp [hw])
        _ = words front ++ word :: ws := by
            rw [words_append_blank (by decide), words_of_solid hne hsolid]
            simp

theorem mem_spaced {ws : List (List Char)} {ch : Char} (h : ch ∈ spaced ws) :
    ch = ' ' ∨ ∃ word ∈ ws, ch ∈ word := by
  obtain ⟨word, hword, hch⟩ := List.mem_flatMap.mp h
  rcases List.mem_cons.mp hch with rfl | hch
  · exact .inl rfl
  · exact .inr ⟨word, hword, hch⟩

end GenomeMachine
