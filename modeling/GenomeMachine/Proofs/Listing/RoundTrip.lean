import GenomeMachine.Listing.Assemble
import GenomeMachine.Listing.Print
import GenomeMachine.Proofs.Catalog.Built
import GenomeMachine.Proofs.Catalog.Standard
import GenomeMachine.Proofs.Text.Numeral
import GenomeMachine.Proofs.Text.Words
import Mathlib.Data.List.TakeWhile
import Mathlib.Tactic.MkIffOfInductiveProp

/-! # Reading listings back

Both layouts of a genome are read back as the genome, but for what a listing does not show:
instructions that the catalog does not have, and argument slots that their entry does not use. -/

namespace GenomeMachine

/-! ## Words -/

theorem read_toDigits {n : Nat} (h : n ≤ wordLimit) :
    Token.read (Nat.toDigits 10 n) = .ok (.number n) := by
  have hdigit (ch : Char) (hch : ch ∈ Nat.toDigits 10 n) : isDigitIn 10 ch = true := by
    rw [isDigitIn_ten, isDigit_of_mem_toDigits hch]
  have hhead : (Nat.toDigits 10 n).head?.any (isDigitIn 10) = true := by
    cases hdigits : Nat.toDigits 10 n with
    | nil => exact absurd hdigits Nat.toDigits_ne_nil
    | cons ch cs => exact hdigit ch (by simp [hdigits])
  have hnumber : wordNumber? (Nat.toDigits 10 n) = some n := by
    rw [← word?_toDigits h, wordNumber?.eq_def]
    -- A hexadecimal numeral would have a letter in it.
    split
    next hdigits => exact absurd (hdigit 'x' (by simp [hdigits])) (by decide)
    next hdigits => exact absurd (hdigit 'X' (by simp [hdigits])) (by decide)
    next => rfl
  rw [Token.read, if_pos hhead, hnumber]

theorem read_name {name : String} (h : ∀ ch ∈ name.toList.head?, ch.isDigit = false) :
    Token.read name.toList = .ok (.name name) := by
  have hhead : ¬name.toList.head?.any (isDigitIn 10) := by
    cases hname : name.toList.head? with
    | none => simp
    | some ch => simp [isDigitIn_ten, h ch hname]
  rw [Token.read, if_neg hhead, String.ofList_toList]

/-- Indentation carries no meaning. -/
theorem lineWords_indented (depth : Nat) (line : List Char) :
    lineWords (List.replicate depth ' ' ++ line) = lineWords line := by
  have hcode : (List.replicate depth ' ' ++ line).takeWhile (· ≠ ';') =
      List.replicate depth ' ' ++ line.takeWhile (· ≠ ';') := by
    apply List.takeWhile_append_of_pos
    intro ch hch
    rw [List.eq_of_mem_replicate hch]
    decide
  rw [lineWords, hcode, words_indented, lineWords]

/-! ## Lines of an instruction -/

/-- The entry has a name that listings can show: one word, and none that means something else. -/
@[mk_iff]
structure Entry.Readable (e : Entry) : Prop where
  ne_empty : e.name ≠ ""
  not_blank : ∀ ch ∈ e.name.toList, isBlank ch = false
  not_comment : ';' ∉ e.name.toList
  not_digit : ∀ ch ∈ e.name.toList.head?, ch.isDigit = false
  ne_openMark : e.name.toList ≠ openMark
  ne_siblingMark : e.arity = 0 → e.name.toList ≠ siblingMark

-- Only the characters of the name are looked at, not all there are.
instance : DecidablePred Entry.Readable := fun e =>
  haveI : Decidable (∀ ch ∈ e.name.toList, isBlank ch = false) := List.decidableBAll _ _
  haveI : Decidable (∀ ch ∈ e.name.toList.head?, ch.isDigit = false) :=
    Option.decidableForallMem _
  decidable_of_iff' _ e.readable_iff

/-- The words of arguments. -/
def argumentWords (args : List UInt16) : List (List Char) :=
  args.map fun arg => Nat.toDigits 10 arg.toNat

theorem mem_argumentWords {args : List UInt16} {word : List Char} (h : word ∈ argumentWords args) :
    word ≠ [] ∧ ∀ ch ∈ word, ch.isDigit = true := by
  obtain ⟨arg, _, rfl⟩ := List.mem_map.mp h
  exact ⟨Nat.toDigits_ne_nil, fun ch hch => isDigit_of_mem_toDigits hch⟩

theorem forall_mem_openMark {P : Char → Prop} (hdash : P '-') (htip : P '>') :
    ∀ ch ∈ openMark, P ch := by
  simp [openMark, hdash, htip]

/-- A line with the name of an entry, arguments, and marks that carry no meaning. -/
def entryLine (e : Entry) (args : List UInt16) (marks : List (List Char)) : List Char :=
  e.name.toList ++ spaced (argumentWords args ++ marks)

section EntryLine

variable {e : Entry} {args : List UInt16} {marks : List (List Char)}

theorem Entry.Readable.words_entryLine (he : e.Readable)
    (hmarks : ∀ mark ∈ marks, mark = openMark) :
    words (entryLine e args marks) = e.name.toList :: (argumentWords args ++ marks) := by
  have hname : e.name.toList ≠ [] := by simpa using he.ne_empty
  rw [entryLine, words_append_spaced, words_of_solid hname he.not_blank, List.singleton_append]
  intro word hword
  rcases List.mem_append.mp hword with hword | hword
  · obtain ⟨hne, hdigit⟩ := mem_argumentWords hword
    exact ⟨hne, fun ch hch => isBlank_of_isDigit (hdigit ch hch)⟩
  · rw [hmarks word hword]
    exact ⟨by decide, forall_mem_openMark (by decide) (by decide)⟩

/-- The characters of a line are blanks or belong to its words. -/
theorem forall_mem_entryLine (hmarks : ∀ mark ∈ marks, mark = openMark) {P : Char → Prop}
    (hblank : P ' ') (hdash : P '-') (htip : P '>') (hname : ∀ ch ∈ e.name.toList, P ch)
    (hdigit : ∀ ch, ch.isDigit = true → P ch) :
    ∀ ch ∈ entryLine e args marks, P ch := by
  intro ch hch
  rcases List.mem_append.mp hch with hch | hch
  · exact hname ch hch
  rcases mem_spaced hch with rfl | ⟨word, hword, hch⟩
  · exact hblank
  rcases List.mem_append.mp hword with hword | hword
  · exact hdigit ch ((mem_argumentWords hword).2 ch hch)
  · rw [hmarks word hword] at hch
    exact forall_mem_openMark hdash htip ch hch

theorem Entry.Readable.newline_not_mem (he : e.Readable)
    (hmarks : ∀ mark ∈ marks, mark = openMark) : '\n' ∉ entryLine e args marks := by
  intro hmem
  refine forall_mem_entryLine hmarks (P := (· ≠ '\n')) (by decide) (by decide) (by decide) ?_ ?_
    _ hmem rfl
  · rintro _ hch rfl
    exact absurd (he.not_blank _ hch) (by decide)
  · rintro _ hch rfl
    exact absurd hch (by decide)

theorem Entry.Readable.lineWords_entryLine (he : e.Readable) (hargs : args.length = e.arity)
    (hmarks : ∀ mark ∈ marks, mark = openMark) :
    lineWords (entryLine e args marks) = e.name.toList :: argumentWords args := by
  have hcode : (entryLine e args marks).takeWhile (· ≠ ';') = entryLine e args marks := by
    rw [List.takeWhile_eq_self_iff]
    refine forall_mem_entryLine hmarks (by decide) (by decide) (by decide) ?_ ?_
    · intro ch hch
      simpa using ne_of_mem_of_not_mem hch he.not_comment
    · intro ch hch
      rw [decide_eq_true_iff]
      rintro rfl
      exact absurd hch (by decide)
  have hsibling : e.name.toList :: (argumentWords args ++ marks) ≠ [siblingMark] := by
    intro hwords
    obtain ⟨hname, htail⟩ := List.cons.inj hwords
    have hnone : args.length = 0 := by
      simpa [argumentWords] using congrArg List.length (List.append_eq_nil_iff.mp htail).1
    exact he.ne_siblingMark (hargs ▸ hnone) hname
  have hdigits : ∀ word ∈ argumentWords args, word ≠ openMark := by
    rintro word hword rfl
    exact absurd ((mem_argumentWords hword).2 '-' (by decide)) (by decide)
  simp only [lineWords, hcode, he.words_entryLine hmarks, if_neg hsibling]
  rw [List.filter_cons_of_pos (by simpa using he.ne_openMark), List.filter_append,
    List.filter_eq_self.mpr (by simpa using hdigits), List.filter_eq_nil_iff.mpr ?_,
    List.append_nil]
  intro mark hmark
  simp [hmarks mark hmark]

end EntryLine

/-- The instruction with its first arguments only. All other slots hold zero. -/
def Instruction.trim (arity : Nat) (i : Instruction) : Instruction where
  id := i.id
  first := if 0 < arity then i.first else 0
  second := if 1 < arity then i.second else 0
  third := if 2 < arity then i.third else 0

theorem ofArgs_take (arity : Nat) (i : Instruction) :
    .ofArgs i.id (i.args.take arity) = i.trim arity := by
  match arity with
  | 0 | 1 | 2 => rfl
  | n + 3 => simp [Instruction.args, Instruction.ofArgs, Instruction.trim]

namespace Catalog

variable {c : Catalog}

/-! ## What lines are read as -/

theorem mapM_read_argumentWords (args : List UInt16) :
    (argumentWords args).mapM Token.read = .ok (args.map fun arg => .number arg.toNat) := by
  induction args with
  | nil => rfl
  | cons arg args ih =>
      have hle : arg.toNat ≤ wordLimit := by
        have := arg.toNat_lt
        unfold wordLimit
        omega
      rw [argumentWords, List.map_cons, List.mapM_cons, read_toDigits hle, ← argumentWords, ih]
      rfl

theorem readArguments_numbers (e : Entry) (args : List UInt16) :
    c.readArguments e args.length (args.map fun arg => .number arg.toNat) = .ok args := by
  induction args with
  | nil => rfl
  | cons arg args ih =>
      have hvalue : c.readArgument (.number arg.toNat) = .ok arg := by
        rw [readArgument, if_pos arg.toNat_lt, UInt16.ofNat_toNat]
      rw [List.length_cons, List.map_cons, readArguments, hvalue, ih]
      rfl

theorem readLine_entryLine (hconsistent : Consistent c) {id : UInt16} {e : Entry}
    (hentry : c.entry? id = some e) (he : e.Readable) {args : List UInt16}
    (hargs : args.length = e.arity) {marks : List (List Char)}
    (hmarks : ∀ mark ∈ marks, mark = openMark) :
    c.readLine (entryLine e args marks) = .ok (some (.ofArgs id args)) := by
  have htokens : lineTokens (entryLine e args marks) =
      .ok (.name e.name :: args.map fun arg => .number arg.toNat) := by
    rw [lineTokens, he.lineWords_entryLine hargs hmarks, List.mapM_cons, read_name he.not_digit,
      mapM_read_argumentWords]
    rfl
  have harguments := readArguments_numbers (c := c) e args
  rw [hargs] at harguments
  rw [readLine, htokens]
  change c.readInstruction (.name e.name :: args.map fun arg => .number arg.toNat) = _
  rw [readInstruction, hconsistent.named?_name hentry]
  dsimp only
  rw [harguments]
  rfl

/-- A line denotes an instruction, or none. -/
structure LineDenotes (c : Catalog) (line : List Char) (i : Option Instruction) : Prop where
  single : '\n' ∉ line
  readLine : c.readLine line = .ok i

theorem LineDenotes.indented {line : List Char} {i : Option Instruction} (h : c.LineDenotes line i)
    (depth : Nat) : c.LineDenotes (List.replicate depth ' ' ++ line) i where
  single := by
    intro hmem
    rcases List.mem_append.mp hmem with hmem | hmem
    · exact absurd (List.eq_of_mem_replicate hmem) (by decide)
    · exact h.single hmem
  readLine := by
    rw [← h.readLine, Catalog.readLine, lineTokens, lineWords_indented]
    rfl

/-- A line without words denotes nothing. -/
theorem lineDenotes_none {line : List Char} (hsingle : '\n' ∉ line) (hwords : lineWords line = []) :
    c.LineDenotes line none where
  single := hsingle
  readLine := by
    rw [readLine, lineTokens, hwords]
    rfl

/-! ## Texts -/

/-- A text of whole lines, and the instructions that the lines denote. -/
inductive Denotes (c : Catalog) : List Char → List Instruction → Prop where
  | nil : Denotes c [] []
  | line {text line : List Char} {is : List Instruction} {i : Option Instruction} :
      Denotes c text is → c.LineDenotes line i →
      Denotes c (text ++ (line ++ ['\n'])) (is ++ i.toList)

theorem readLines_cons {line : List Char} {i : Option Instruction} (h : c.readLine line = .ok i)
    (number : Nat) (rest : List (List Char)) :
    c.readLines number (line :: rest) = (c.readLines (number + 1) rest).map (i.toList ++ ·) := by
  rw [readLines, h]
  cases i with
  | none => cases c.readLines (number + 1) rest <;> rfl
  | some i => rfl

/-- Whole lines are read on their own, whatever follows. -/
theorem Denotes.readLines {text : List Char} {is : List Instruction} (h : Denotes c text is)
    (number : Nat) :
    ∃ number', ∀ rest, c.readLines number (lines (text ++ rest)) =
      (c.readLines number' (lines rest)).map (is ++ ·) := by
  induction h with
  | nil =>
      refine ⟨number, ?_⟩
      intro rest
      rw [List.nil_append]
      cases c.readLines number (lines rest) <;> rfl
  | @line text line is i _ hline ih =>
      obtain ⟨number', hnumber'⟩ := ih
      refine ⟨number' + 1, ?_⟩
      intro rest
      have hsplit : text ++ (line ++ ['\n']) ++ rest = text ++ (line ++ '\n' :: rest) := by simp
      rw [hsplit, hnumber', lines_append, lines_of_not_mem hline.single, List.singleton_append,
        readLines_cons hline.readLine]
      cases c.readLines (number' + 1) (lines rest) <;> simp [Except.map]

theorem Denotes.assemble {text : String} {is : List Instruction} (h : Denotes c text.toList is) :
    c.assemble text = .ok is.toArray := by
  obtain ⟨number, hnumber⟩ := h.readLines 1
  have hrest : c.readLines number (lines []) = .ok [] := rfl
  have hall := hnumber []
  rw [List.append_nil, hrest] at hall
  rw [Catalog.assemble, hall]
  simp [Except.map]

/-! ## Listings -/

/-- What a listing shows of an instruction. -/
def canonical? (c : Catalog) (i : Instruction) : Option Instruction :=
  (c.entry? i.id).map fun e => i.trim e.arity

/-- What a listing shows of a genome: the instructions that the catalog has, with the arguments that
their entries declare. -/
def canonical (c : Catalog) (g : Genome) : Genome :=
  g.filterMap c.canonical?

theorem toList_arguments (name : String) (args : List UInt16) :
    (args.foldl (fun text arg => text ++ " " ++ toString arg.toNat) name).toList =
      name.toList ++ spaced (argumentWords args) := by
  induction args generalizing name with
  | nil => simp [argumentWords, spaced]
  | cons arg args ih =>
      rw [List.foldl_cons, ih]
      simp [argumentWords, Nat.toString_eq_repr, Nat.toList_repr]

theorem toList_instructionLine {i : Instruction} {e : Entry} (h : c.entry? i.id = some e) :
    (c.instructionLine i).toList =
      e.name.toList ++ spaced (argumentWords (i.args.take e.arity)) := by
  rw [instructionLine, text?, h, Option.map_some, Option.getD_some, toList_arguments]

theorem toList_instructionLine_unknown {i : Instruction} (h : c.entry? i.id = none) :
    (c.instructionLine i).toList =
      "; unknown instruction ".toList ++ Nat.toDigits 10 i.id.toNat := by
  have hid : (toString i.id).toList = Nat.toDigits 10 i.id.toNat := Nat.toList_repr
  rw [instructionLine, text?, h, Option.map_none, Option.getD_none, ← hid, ← String.toList_append]
  rfl

theorem Denotes.indented {text : List Char} {is : List Instruction} (h : Denotes c text is)
    {line : String} {i : Option Instruction} (hline : c.LineDenotes line.toList i) (depth : Nat) :
    Denotes c (text ++ (Catalog.indented depth line).toList) (is ++ i.toList) := by
  have htext : (Catalog.indented depth line).toList =
      List.replicate depth ' ' ++ line.toList ++ ['\n'] := by
    simp [Catalog.indented]
  rw [htext]
  exact h.line (hline.indented depth)

/-- A listing that adds to its text, instruction by instruction, what denotes the instruction. -/
theorem Denotes.foldl {σ : Type} (text : σ → String) {add : σ → Instruction → σ} {g : Genome}
    (hadd : ∀ i ∈ g, ∀ state is, Denotes c (text state).toList is →
      Denotes c (text (add state i)).toList (is ++ (c.canonical? i).toList))
    (state : σ) {is : List Instruction} (h : Denotes c (text state).toList is) :
    Denotes c (text (g.foldl add state)).toList (is ++ (c.canonical g).toList) := by
  rw [← Array.foldl_toList, canonical, Array.toList_filterMap]
  simp only [← Array.mem_toList_iff] at hadd
  generalize g.toList = all at hadd ⊢
  induction all generalizing state is with
  | nil => simpa using h
  | cons i rest ih =>
      have hrest := ih _ (hadd i (by simp) state is h) fun j hj => hadd j (by simp [hj])
      rw [List.foldl_cons, List.filterMap_cons]
      cases hi : c.canonical? i <;> simpa [hi] using hrest

/-- The entry of the instruction, if there is one, has a name that listings can show. -/
def CanShow (c : Catalog) (i : Instruction) : Prop :=
  ∀ e, c.entry? i.id = some e → e.Readable

theorem canShow_of_readable (hreadable : ∀ e ∈ c.entries, e.Readable) (i : Instruction) :
    c.CanShow i :=
  fun e hentry => hreadable e (Array.mem_of_getElem? hentry)

section Layouts

variable (hconsistent : Consistent c)
include hconsistent

theorem lineDenotes_instructionLine {i : Instruction} (hi : c.CanShow i)
    {marks : List (List Char)} (hmarks : ∀ mark ∈ marks, mark = openMark) :
    c.LineDenotes ((c.instructionLine i).toList ++ spaced marks) (c.canonical? i) := by
  cases hentry : c.entry? i.id with
  | none =>
      have hnone : c.canonical? i = none := by rw [canonical?, hentry, Option.map_none]
      rw [hnone, toList_instructionLine_unknown hentry]
      refine lineDenotes_none ?_ rfl
      intro hmem
      rcases List.mem_append.mp hmem with hmem | hmem
      · rcases List.mem_append.mp hmem with hmem | hmem
        · exact absurd hmem (by decide)
        · exact absurd (isDigit_of_mem_toDigits hmem) (by decide)
      · rcases mem_spaced hmem with hmem | ⟨mark, hmark, hmem⟩
        · exact absurd hmem (by decide)
        · rw [hmarks mark hmark] at hmem
          exact absurd hmem (by decide)
  | some e =>
      have hmem : e ∈ c.entries := Array.mem_of_getElem? hentry
      have he : e.Readable := hi e hentry
      have hargs : (i.args.take e.arity).length = e.arity := by
        rw [List.length_take]
        exact Nat.min_eq_left (hconsistent.arity_le e hmem)
      have hsome : c.canonical? i = some (.ofArgs i.id (i.args.take e.arity)) := by
        rw [canonical?, hentry, Option.map_some, ofArgs_take]
      have hline : (c.instructionLine i).toList ++ spaced marks =
          entryLine e (i.args.take e.arity) marks := by
        simp [toList_instructionLine hentry, entryLine, spaced]
      rw [hsome, hline]
      exact ⟨he.newline_not_mem hmarks, readLine_entryLine hconsistent hentry he hargs hmarks⟩

theorem Denotes.indentedLines {text : List Char} {is : List Instruction} (h : Denotes c text is)
    (depth : Nat) {i : Instruction} (hi : c.CanShow i) :
    Denotes c (text ++ (c.indentedLines depth i).1.toList) (is ++ (c.canonical? i).toList) := by
  have hplain : c.LineDenotes (c.instructionLine i).toList (c.canonical? i) := by
    simpa [spaced] using lineDenotes_instructionLine hconsistent hi
      (List.forall_mem_nil (· = openMark))
  have hopener : c.LineDenotes (c.instructionLine i ++ " " ++ String.ofList openMark).toList
      (c.canonical? i) := by
    simpa [spaced] using lineDenotes_instructionLine hconsistent hi
      (List.forall_mem_singleton.mpr rfl)
  have hsibling : c.LineDenotes (String.ofList siblingMark).toList none := by
    rw [String.toList_ofList]
    exact lineDenotes_none (by decide) (by decide)
  simp only [Catalog.indentedLines]
  split
  · exact h.indented hplain depth
  split
  · simpa using (h.indented hsibling depth).indented hplain depth
  · exact h.indented hopener _

theorem denotes_disassemble_of_canShow {g : Genome} (hg : ∀ i ∈ g, c.CanShow i) :
    Denotes c (c.disassemble g).toList (c.canonical g).toList := by
  refine Denotes.foldl id ?_ "" .nil
  intro i hi text is h
  have hline := h.line (lineDenotes_instructionLine hconsistent (hg i hi)
    (List.forall_mem_nil (· = openMark)))
  simpa [spaced] using hline

theorem denotes_print_of_canShow {g : Genome} (hg : ∀ i ∈ g, c.CanShow i) :
    Denotes c (c.print g).toList (c.canonical g).toList := by
  refine Denotes.foldl Prod.fst ?_ ("", 0) .nil
  intro i hi (text, depth) is h
  simpa using h.indentedLines hconsistent depth (hg i hi)

variable (hreadable : ∀ e ∈ c.entries, e.Readable)
include hreadable

theorem denotes_disassemble (g : Genome) :
    Denotes c (c.disassemble g).toList (c.canonical g).toList :=
  denotes_disassemble_of_canShow hconsistent fun i _ => canShow_of_readable hreadable i

theorem denotes_print (g : Genome) : Denotes c (c.print g).toList (c.canonical g).toList :=
  denotes_print_of_canShow hconsistent fun i _ => canShow_of_readable hreadable i

end Layouts

/-! ## The standard catalog -/

/-- Built by registration, with names that listings can show. -/
structure Legible (c : Catalog) : Prop where
  built : c.Built
  readable : ∀ e ∈ c.entries, e.Readable

theorem legible_standard : standard.Legible where
  built := built_standard
  readable := by
    rw [entries_standard]
    decide +kernel

end Catalog

/-- Both layouts of every genome are read back as what they show of it. -/
theorem assemble_listings :
    Catalog.standard.Legible ∧ ∀ c : Catalog, c.Legible → ∀ g : Genome,
      c.assemble (c.disassemble g) = .ok (c.canonical g) ∧
        c.assemble (c.print g) = .ok (c.canonical g) := by
  refine ⟨Catalog.legible_standard, ?_⟩
  intro c hc g
  exact ⟨(Catalog.denotes_disassemble hc.built.consistent hc.readable g).assemble,
    (Catalog.denotes_print hc.built.consistent hc.readable g).assemble⟩

/-- Names that look like the marks of a listing. -/
def dashes : Catalog :=
  Catalog.empty.registerAll
    [⟨"----", .control .block, 1, "", some ⟨.basic, 0⟩⟩, ⟨"--", .data .increment, 2, "", none⟩]

theorem legible_dashes : dashes.Legible where
  built := Catalog.Built.empty.registerAll _
  readable := by decide +kernel

/-- Scopes of one depth, of a deeper and of a shallower one, an unknown instruction, and arguments
that no entry declares. -/
def dashed : Genome :=
  #[⟨0, 1, 7, 7⟩, ⟨0, 1, 0, 0⟩, ⟨1, 65535, 0, 9⟩, ⟨5, 1, 2, 3⟩, ⟨0, 0, 0, 0⟩]

theorem dashed_listings :
    dashes.print dashed =
        "---- 1 -->\n  ----\n  ---- 1\n  -- 65535 0\n  ; unknown instruction 5\n---- 0 -->\n" ∧
      dashes.assemble (dashes.print dashed) =
        .ok #[⟨0, 1, 0, 0⟩, ⟨0, 1, 0, 0⟩, ⟨1, 65535, 0, 0⟩, ⟨0, 0, 0, 0⟩] := by
  refine ⟨by decide +kernel, ?_⟩
  rw [(assemble_listings.2 dashes legible_dashes dashed).2]
  decide +kernel

end GenomeMachine
