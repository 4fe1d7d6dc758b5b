import GenomeMachine.Except
import GenomeMachine.Proofs.Genome.Codec
import GenomeMachine.Proofs.Listing.RoundTrip
import Mathlib.Data.List.Basic

/-! # Assembled genomes

A genome that came out of a listing, however that was written, goes through both layouts and
through its bytes unchanged. A catalog may have entries with names that no listing can show; such an
entry is not named by any line either, and so none of its instructions is in the genome. -/

namespace GenomeMachine

/-! ## Words of a line -/

theorem mem_lineWords {line word : List Char} (h : word ∈ lineWords line) :
    word ≠ [] ∧ (∀ ch ∈ word, isBlank ch = false) ∧ ';' ∉ word ∧ word ≠ openMark := by
  simp only [lineWords] at h
  split at h
  · cases h
  · obtain ⟨hword, hmark⟩ := List.mem_filter.mp h
    obtain ⟨hne, hchars⟩ := mem_words hword
    refine ⟨hne, fun ch hch => (hchars ch hch).1, ?_, by simpa using hmark⟩
    intro hcomment
    simpa using List.mem_takeWhile_imp (hchars _ hcomment).2

/-- What is read as a name is that name, and does not start with a digit. -/
theorem of_read_eq_name {word : List Char} {name : String}
    (h : Token.read word = .ok (.name name)) :
    name.toList = word ∧ ∀ ch ∈ word.head?, ch.isDigit = false := by
  rw [Token.read] at h
  split at h
  · split at h <;> cases h
  next hhead =>
    cases h
    refine ⟨String.toList_ofList, ?_⟩
    intro ch hch
    rw [Option.mem_def.mp hch] at hhead
    simpa [isDigitIn_ten] using hhead

/-- The first word of a line, if it is a name, could be the name of any entry. -/
theorem readable_of_lineTokens {line : List Char} {e : Entry} {rest : List Token}
    (h : lineTokens line = .ok (.name e.name :: rest))
    (hmark : e.arity = 0 → e.name ≠ "----") : e.Readable := by
  rw [lineTokens] at h
  cases hwords : lineWords line with
  | nil => rw [hwords] at h; cases h
  | cons word others =>
      rw [hwords, mapM_cons_eq_ok_iff] at h
      obtain ⟨token, tokens, hread, _, h⟩ := h
      cases h
      obtain ⟨hname, hdigit⟩ := of_read_eq_name hread
      obtain ⟨hne, hblank, hcomment, hopen⟩ := mem_lineWords (hwords ▸ List.mem_cons_self)
      rw [← hname] at hne hblank hcomment hopen hdigit
      refine ⟨by simpa using hne, hblank, hcomment, hdigit, hopen, ?_⟩
      intro harity hsibling
      exact hmark harity (String.toList_inj.mp hsibling)

/-! ## Instructions of a line -/

/-- An instruction of as many arguments as its entry declares has no others. -/
theorem trim_ofArgs (id : UInt16) (args : List UInt16) :
    (Instruction.ofArgs id args).trim args.length = .ofArgs id args := by
  match args with
  | [] | [_] | [_, _] => rfl
  | _ :: _ :: _ :: rest => simp [Instruction.trim, Instruction.ofArgs]

namespace Catalog

variable {c : Catalog}

theorem length_of_readArguments {e : Entry} {missing : Nat} {tokens : List Token}
    {values : List UInt16} (h : c.readArguments e missing tokens = .ok values) :
    values.length = missing := by
  induction missing generalizing tokens values with
  | zero =>
      cases tokens with
      | nil =>
          cases h
          rfl
      | cons token rest => cases h
  | succ missing ih =>
      cases tokens with
      | nil => cases h
      | cons token rest =>
          rw [readArguments, bind_eq_ok_iff] at h
          obtain ⟨value, _, h⟩ := h
          obtain ⟨others, hothers, h⟩ := bind_eq_ok_iff.mp h
          cases h
          rw [List.length_cons, ih hothers]

/-- An instruction that was read has the name of its entry first on the line, and arguments for all
the slots that the entry declares. -/
theorem of_readInstruction_eq_some (hconsistent : Consistent c) {tokens : List Token}
    {i : Instruction} (h : c.readInstruction tokens = .ok (some i)) :
    ∃ e rest, tokens = .name e.name :: rest ∧ c.entry? i.id = some e ∧ i.trim e.arity = i := by
  match tokens with
  | [] | .number _ :: _ => cases h
  | .name name :: rest =>
      rw [readInstruction] at h
      cases hnamed : c.named? name with
      | none => rw [hnamed] at h; cases h
      | some found =>
          obtain ⟨id, e⟩ := found
          rw [hnamed] at h
          obtain ⟨values, hvalues, h⟩ := bind_eq_ok_iff.mp h
          cases h
          obtain ⟨hentry, rfl⟩ := hconsistent.of_named? hnamed
          refine ⟨e, rest, rfl, hentry, ?_⟩
          rw [← length_of_readArguments hvalues, trim_ofArgs]

/-- A listing shows the instruction, and shows all of it. -/
structure Presents (c : Catalog) (i : Instruction) : Prop where
  canShow : c.CanShow i
  canonical? : c.canonical? i = some i

section Assembled

variable (hconsistent : Consistent c)
  (hmark : ∀ e ∈ c.entries, e.arity = 0 → e.name ≠ "----")
include hconsistent hmark

theorem presents_of_readLine {line : List Char} {i : Instruction}
    (h : c.readLine line = .ok (some i)) : c.Presents i := by
  obtain ⟨tokens, htokens, h⟩ := bind_eq_ok_iff.mp h
  obtain ⟨e, rest, rfl, hentry, htrim⟩ := of_readInstruction_eq_some hconsistent h
  have hreadable := readable_of_lineTokens htokens (hmark e (Array.mem_of_getElem? hentry))
  constructor
  · intro e' he'
    rw [hentry] at he'
    cases he'
    exact hreadable
  · rw [Catalog.canonical?, hentry, Option.map_some, htrim]

theorem presents_of_readLines {number : Nat} {lines : List (List Char)} {is : List Instruction}
    (h : c.readLines number lines = .ok is) : ∀ i ∈ is, c.Presents i := by
  induction lines generalizing number is with
  | nil =>
      cases h
      simp
  | cons line lines ih =>
      cases hline : c.readLine line with
      | error cause => simp [readLines, hline] at h
      | ok found =>
          rw [readLines_cons hline] at h
          obtain ⟨others, hothers, rfl⟩ := map_eq_ok_iff.mp h
          intro i hi
          rcases List.mem_append.mp hi with hi | hi
          · rw [Option.mem_toList.mp hi] at hline
            exact presents_of_readLine hconsistent hmark hline
          · exact ih hothers i hi

theorem presents_of_assemble {text : String} {g : Genome} (h : c.assemble text = .ok g) :
    ∀ i ∈ g, c.Presents i := by
  obtain ⟨is, hlines, rfl⟩ := map_eq_ok_iff.mp h
  simpa using presents_of_readLines hconsistent hmark hlines

end Assembled

theorem canonical_of_presents {g : Genome} (h : ∀ i ∈ g, c.Presents i) : c.canonical g = g := by
  apply Array.toList_inj.mp
  rw [canonical, Array.toList_filterMap]
  calc g.toList.filterMap c.canonical?
      = g.toList.map id := List.filterMap_eq_map_iff_forall_eq_some.mpr
          fun i hi => (h i (Array.mem_toList_iff.mp hi)).canonical?
    _ = g.toList := List.map_id _

theorem assemble_again (hconsistent : Consistent c)
    (hmark : ∀ e ∈ c.entries, e.arity = 0 → e.name ≠ "----") {text : String} {g : Genome}
    (h : c.assemble text = .ok g) :
    c.assemble (c.print g) = .ok g ∧ c.assemble (c.disassemble g) = .ok g := by
  have hpresents := presents_of_assemble hconsistent hmark h
  have hshow : ∀ i ∈ g, c.CanShow i := fun i hi => (hpresents i hi).canShow
  have hprint := (denotes_print_of_canShow hconsistent hshow).assemble
  have hdisassemble := (denotes_disassemble_of_canShow hconsistent hshow).assemble
  rw [Array.toArray_toList, canonical_of_presents hpresents] at hprint hdisassemble
  exact ⟨hprint, hdisassemble⟩

end Catalog

/-- Whatever assembles comes back from its indented listing, from its flat one and from its bytes,
under any names that a catalog can have. Only an entry without arguments must not be named like the
line between two scopes. -/
theorem assemble_stable {c : Catalog} (hbuilt : c.Built)
    (hmark : ∀ e ∈ c.entries, e.arity = 0 → e.name ≠ "----") {text : String} {g : Genome}
    (h : c.assemble text = .ok g) :
    c.assemble (c.print g) = .ok g ∧ c.assemble (c.disassemble g) = .ok g ∧
      Genome.decode (Genome.encode g) = .ok g := by
  obtain ⟨hprint, hdisassemble⟩ := Catalog.assemble_again hbuilt.consistent hmark h
  exact ⟨hprint, hdisassemble, g.decode_encode⟩

/-- The entry that the condition excludes: read before a mark, and lost on a line of its own. -/
example :
    let c := Catalog.empty.registerAll [⟨"----", .data .idle, 0, "", none⟩]
    c.assemble "---- -->" = .ok #[⟨0, 0, 0, 0⟩] ∧
      c.assemble (c.disassemble #[⟨0, 0, 0, 0⟩]) = .ok #[] := by
  decide +kernel

/-- Entries with all kinds of names, most of which no line can start with. -/
def motley : Catalog :=
  (Catalog.empty.registerAll
    [⟨"", .data .idle, 0, "", none⟩, ⟨"-->", .data .idle, 0, "", none⟩,
      ⟨"two words", .data .idle, 0, "", none⟩, ⟨"7up", .data .idle, 0, "", none⟩,
      ⟨"a;b", .data .idle, 0, "", none⟩, ⟨"----", .control .block, 1, "", some ⟨.basic, 0⟩⟩,
      ⟨"+1", .data .literal, 2, "", none⟩]).setSymbol "-" 3

/-- A listing with comments, marks in unusual places, other white space than blanks, hexadecimal and
symbolic arguments. -/
def motleyListing : String :=
  "; 7up\r\n ---- 0 -->\n--> +1 - 0X+ff;two words\n\t----\t\n----\u00a00x0\n\n+1 007 65535"

def motleyGenome : Genome :=
  #[⟨5, 0, 0, 0⟩, ⟨6, 3, 255, 0⟩, ⟨5, 0, 0, 0⟩, ⟨6, 7, 65535, 0⟩]

theorem motley_stable :
    motley.print motleyGenome = "---- 0 -->\n +1 3 255\n ----\n ---- 0\n +1 7 65535\n" ∧
      motley.assemble motleyListing = .ok motleyGenome ∧
      motley.assemble (motley.print motleyGenome) = .ok motleyGenome := by
  have hbuilt : motley.Built := (Catalog.Built.empty.registerAll _).setSymbol "-" 3
  have hmark : ∀ e ∈ motley.entries, e.arity = 0 → e.name ≠ "----" := by decide +kernel
  have hassemble : motley.assemble motleyListing = .ok motleyGenome := by decide +kernel
  exact ⟨by decide +kernel, hassemble, (assemble_stable hbuilt hmark hassemble).1⟩

end GenomeMachine
