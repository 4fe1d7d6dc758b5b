import GenomeMachine.Command.Task
import GenomeMachine.Proofs.Catalog.Standard
import GenomeMachine.Proofs.Command.Disk
import GenomeMachine.Proofs.Genome.Codec
import GenomeMachine.Proofs.Listing.Stability

/-! # Listings and binary files stand for each other

A listing that assembles is saved beside itself, under the extension of binary genomes. From then
on the two files are the same to every command that takes a genome in either form, and the binary
one can be turned back into a listing of the same genome. -/

namespace GenomeMachine

/-- The bytes of a file with a text. -/
def textBytes (text : String) : List UInt8 :=
  text.toUTF8.data.toList

/-- The genome that a file with these bytes is a listing of. -/
def listed? (bytes : List UInt8) : Option Genome := do
  let text ← String.fromUTF8? ⟨bytes.toArray⟩
  (Catalog.standard.assemble text).toOption

/-- Whether a task takes genomes in either form. -/
def Task.loads : Task → Bool
  | run _ _ | trace _ _ | print => true
  | assemble _ | disassemble => false

/-! ## Loading -/

theorem fromUTF8?_textBytes (text : String) :
    String.fromUTF8? ⟨(textBytes text).toArray⟩ = some text := by
  have hvalid : (⟨text.toUTF8.data⟩ : ByteArray).IsValidUTF8 := text.isValidUTF8
  rw [textBytes, Array.toArray_toList, String.fromUTF8?, dif_pos hvalid]
  rfl

theorem listed?_textBytes (text : String) :
    listed? (textBytes text) = (Catalog.standard.assemble text).toOption := by
  rw [listed?, fromUTF8?_textBytes]
  rfl

theorem readText_eq_ok_iff {path : String} {bytes : List UInt8} {text : String} :
    readText path (.ok bytes) = .ok text ↔ String.fromUTF8? ⟨bytes.toArray⟩ = some text := by
  constructor
  · intro h
    obtain ⟨found, hfound, h⟩ := bind_eq_ok_iff.mp h
    cases hfound
    split at h
    · cases h
      assumption
    · cases h
  · intro h
    refine bind_eq_ok_iff.mpr ⟨bytes, rfl, ?_⟩
    rw [h]
    rfl

theorem readListing_eq_ok_iff {path : String} {bytes : List UInt8} {genome : Genome} :
    readListing path (.ok bytes) = .ok genome ↔ listed? bytes = some genome := by
  have hassemble (text : String) :
      (Catalog.standard.assemble text).mapError ListingError.message = .ok genome ↔
        (Catalog.standard.assemble text).toOption = some genome := by
    cases Catalog.standard.assemble text <;> simp [Except.mapError, Except.toOption]
  rw [readListing, bind_eq_ok_iff, listed?, Option.bind_eq_bind, Option.bind_eq_some_iff]
  simp only [readText_eq_ok_iff, hassemble]

theorem readBinary_encode (path : String) (genome : Genome) :
    readBinary path (.ok genome.encode) = .ok genome := by
  refine bind_eq_ok_iff.mpr ⟨genome.encode, rfl, ?_⟩
  rw [genome.decode_encode]
  rfl

/-- A task that takes a genome in either form answers, and what is loaded decides its answer. -/
theorem Task.effect_congr {path path' : String} {contents contents' : Contents} {task : Task}
    (hloads : task.loads = true) (h : readGenome path' contents' = readGenome path contents) :
    ∃ report, task.effect path contents = .answer report ∧
      task.effect path' contents' = .answer report := by
  cases task with
  | run | trace | print =>
      simp only [Task.effect, Task.perform, h]
      cases readGenome path contents <;> exact ⟨_, rfl, rfl⟩
  | assemble | disassemble => cases hloads

/-! ## Assembling -/

theorem Task.effect_assemble {bytes : List UInt8} {genome : Genome}
    (h : listed? bytes = some genome) (path : String) (output : Option String) :
    ∃ report, (Task.assemble output).effect path (.ok bytes) =
      .write (output.getD (defaultOutput path)) genome.encode report ∧ report.code = 0 := by
  simp only [Task.effect, Task.perform, readListing_eq_ok_iff.mpr h]
  exact ⟨_, rfl, rfl⟩

theorem Task.effect_assemble_of_none {bytes : List UInt8} (h : listed? bytes = none)
    (path : String) (output : Option String) :
    ∃ message, (Task.assemble output).effect path (.ok bytes) = .answer (.failure message) := by
  cases hlisting : readListing path (.ok bytes) with
  | error message =>
      simp only [Task.effect, Task.perform, hlisting]
      exact ⟨message, rfl⟩
  | ok genome =>
      rw [readListing_eq_ok_iff.mp hlisting] at h
      cases h

/-- The flat listing of a genome that was listed is a listing of it. -/
theorem listed?_disassemble {bytes : List UInt8} {genome : Genome}
    (h : listed? bytes = some genome) :
    listed? (textBytes (Catalog.standard.disassemble genome)) = some genome := by
  have hmark : ∀ e ∈ Catalog.standard.entries, e.arity = 0 → e.name ≠ "----" := by
    rw [Catalog.entries_standard]
    decide +kernel
  obtain ⟨text, _, htext⟩ := Option.bind_eq_some_iff.mp h
  cases hassemble : Catalog.standard.assemble text with
  | error cause =>
      rw [hassemble] at htext
      cases htext
  | ok assembled =>
      rw [hassemble] at htext
      cases htext
      rw [listed?_textBytes,
        (Catalog.assemble_again Catalog.built_standard.consistent hmark hassemble).2]
      rfl

/-! ## The two files -/

section Saved

variable {disk disk' : Disk} {path : String} {bytes : List UInt8} {genome : Genome}

theorem slash_not_mem_binaryExtension : '/' ∉ binaryExtension.toList := by decide

theorem dot_not_mem_binaryExtension : '.' ∉ binaryExtension.toList := by decide

theorem binaryExtension_ne_nil : binaryExtension.toList ≠ [] := by decide

theorem isBinary_defaultOutput (hname : (splitFileName? path).isSome) :
    isBinary (defaultOutput path) = true := by
  obtain ⟨⟨parents, name⟩, hsplit⟩ := Option.isSome_iff_exists.mp hname
  have hpath := splitFileName?_eq_some_iff.mp hsplit
  rw [isBinary, defaultOutput, hpath.extension?_withExtension slash_not_mem_binaryExtension
    dot_not_mem_binaryExtension binaryExtension_ne_nil]
  exact beq_self_eq_true _

/-- Saving a listing in binary form leaves the listing as it is. -/
theorem read_listing_of_write (hname : (splitFileName? path).isSome)
    (hextension : extension? path ≠ some binaryExtension) (hread : disk.read path = .ok bytes)
    {saved : List UInt8} (hwrite : disk.write (defaultOutput path) saved = .ok disk') :
    disk'.read path = .ok bytes := by
  obtain ⟨⟨parents, name⟩, hsplit⟩ := Option.isSome_iff_exists.mp hname
  have hpath := splitFileName?_eq_some_iff.mp hsplit
  exact Disk.read_of_write_beside hpath
    (hpath.withExtension slash_not_mem_binaryExtension binaryExtension_ne_nil)
    (hpath.renamed_ne dot_not_mem_binaryExtension hextension) hread hwrite

/-- What was saved is loaded as binary. -/
theorem readGenome_defaultOutput (hname : (splitFileName? path).isSome) (contents : Contents) :
    readGenome (defaultOutput path) contents = readBinary (defaultOutput path) contents := by
  rw [readGenome, if_pos (isBinary_defaultOutput hname)]

/-- A file without the extension of binary genomes is loaded as a listing. -/
theorem readGenome_listing (hextension : extension? path ≠ some binaryExtension)
    (hlisted : listed? bytes = some genome) : readGenome path (.ok bytes) = .ok genome := by
  have hlisting : isBinary path = false := by simpa [isBinary] using hextension
  rw [readGenome, hlisting, if_neg Bool.false_ne_true, readListing_eq_ok_iff.mpr hlisted]

end Saved

/-- A file with a name and without the extension of binary genomes either holds a listing or is
refused with nothing changed. If it holds a listing and can be saved, it is saved under that
extension, and nothing else changes: there are no links on a disk, so the two are different files.
The saved one is loaded as binary and the other one as a listing, both as the assembled genome.
Running, tracing or printing either of them then gives one and the same report, which is also the
one from before. The binary file is shown as a listing that assembles to the same bytes again,
wherever it is put. -/
theorem assemble_interchange {disk : Disk} {path : String} {bytes : List UInt8}
    (hname : (splitFileName? path).isSome) (hextension : extension? path ≠ some binaryExtension)
    (hread : disk.read path = .ok bytes) :
    (listed? bytes = none →
        (Command.perform disk (.onFile path (.assemble none))).1.code = 1 ∧
          (Command.perform disk (.onFile path (.assemble none))).2 = disk) ∧
      ∀ genome disk', listed? bytes = some genome →
        disk.write (defaultOutput path) genome.encode = .ok disk' →
        (∃ report, Command.perform disk (.onFile path (.assemble none)) = (report, disk') ∧
            report.code = 0) ∧
          (∃ file, disk'.files = disk.files.insert file genome.encode) ∧
          extension? (defaultOutput path) = some binaryExtension ∧
          disk'.read (defaultOutput path) = .ok genome.encode ∧
          (readGenome (defaultOutput path) (.ok genome.encode) =
              readBinary (defaultOutput path) (.ok genome.encode) ∧
            readBinary (defaultOutput path) (.ok genome.encode) = .ok genome) ∧
          (disk'.read path = .ok bytes ∧ readGenome path (.ok bytes) = .ok genome) ∧
          (∀ task : Task, task.loads = true →
            ∃ report, Command.perform disk' (.onFile (defaultOutput path) task) = (report, disk') ∧
              Command.perform disk' (.onFile path task) = (report, disk') ∧
              Command.perform disk (.onFile path task) = (report, disk)) ∧
          ∃ text, Command.perform disk' (.onFile (defaultOutput path) .disassemble) =
              ({ code := 0, output := text }, disk') ∧
            ∀ path' output, ∃ report,
              (Task.assemble output).effect path' (.ok (textBytes text)) =
                .write (output.getD (defaultOutput path')) genome.encode report ∧
              report.code = 0 := by
  refine ⟨?_, ?_⟩
  · intro hnone
    obtain ⟨message, heffect⟩ := Task.effect_assemble_of_none hnone path none
    have hperform : Command.perform disk (.onFile path (.assemble none)) =
        (.failure message, disk) := by
      simp only [Command.perform, hread, heffect]
    rw [hperform]
    exact ⟨rfl, rfl⟩
  · intro genome disk' hlisted hwrite
    have hsaved := Disk.read_of_write hwrite
    have hkept := read_listing_of_write hname hextension hread hwrite
    have hloaded := readGenome_listing hextension hlisted
    have hbinary := readGenome_defaultOutput hname (.ok genome.encode)
    have hdecoded := readBinary_encode (defaultOutput path) genome
    refine ⟨?_, ?_, ?_, hsaved, ⟨hbinary, hdecoded⟩, ⟨hkept, hloaded⟩, ?_,
      Catalog.standard.disassemble genome, ?_, ?_⟩
    · obtain ⟨report, heffect, hcode⟩ := Task.effect_assemble hlisted path none
      refine ⟨report, ?_, hcode⟩
      simp only [Command.perform, hread, heffect, Option.getD_none, hwrite]
    · obtain ⟨place, -, rfl⟩ := Disk.exists_put_of_write hwrite
      exact ⟨place.text, rfl⟩
    · simpa [isBinary] using isBinary_defaultOutput hname
    · intro task hloads
      have hsame := (hbinary.trans hdecoded).trans hloaded.symm
      obtain ⟨report, hlisting, hshown⟩ := Task.effect_congr hloads hsame
      refine ⟨report, ?_, ?_, ?_⟩
      · simp only [Command.perform, hsaved, hshown]
      · simp only [Command.perform, hkept, hlisting]
      · simp only [Command.perform, hread, hlisting]
    · simp only [Command.perform, hsaved, Task.effect, Task.perform, hdecoded]
      rfl
    · intro path' output
      exact Task.effect_assemble (listed?_disassemble hlisted) path' output

/-- A name with two dots in a directory, and a listing with a comment and a scope. -/
def countingPath : String := "runs/count.v2.txt"

def countingText : String := "; counts\nScope 0 -->\n Inc 0x3\nEndTurn 0\n"

def countingDisk : Disk where
  files := (∅ : Std.ExtTreeMap String (List UInt8)).insert countingPath (textBytes countingText)

def countingGenome : Genome := #[⟨16, 0, 0, 0⟩, ⟨0, 3, 0, 0⟩, ⟨24, 0, 0, 0⟩]

theorem counting_interchange :
    defaultOutput countingPath = "runs/count.v2.gpb" ∧
      ∃ disk', countingDisk.write "runs/count.v2.gpb" countingGenome.encode = .ok disk' ∧
        disk'.read "runs/count.v2.gpb" = .ok countingGenome.encode ∧
        readGenome "runs/count.v2.gpb" (.ok countingGenome.encode) = .ok countingGenome ∧
        readGenome countingPath (.ok (textBytes countingText)) = .ok countingGenome ∧
        (∀ task : Task, task.loads = true →
          Command.perform disk' (.onFile "runs/count.v2.gpb" task) =
            Command.perform disk' (.onFile countingPath task)) ∧
        ∃ text, Command.perform disk' (.onFile "runs/count.v2.gpb" .disassemble) =
          ({ code := 0, output := text }, disk') := by
  have houtput : defaultOutput countingPath = "runs/count.v2.gpb" := by decide +kernel
  have hread : countingDisk.read countingPath = .ok (textBytes countingText) := by decide +kernel
  have hlisted : listed? (textBytes countingText) = some countingGenome := by
    rw [listed?_textBytes]
    decide +kernel
  obtain ⟨disk', hwrite⟩ :
      ∃ disk', countingDisk.write (defaultOutput countingPath) countingGenome.encode =
        .ok disk' := by
    have haccepted :
        (countingDisk.write (defaultOutput countingPath) countingGenome.encode).isOk = true := by
      decide +kernel
    cases hresult : countingDisk.write (defaultOutput countingPath) countingGenome.encode with
    | ok disk' => exact ⟨disk', rfl⟩
    | error e =>
        rw [hresult] at haccepted
        cases haccepted
  obtain ⟨-, -, -, hsaved, ⟨hbinary, hdecoded⟩, ⟨-, hloaded⟩, hsame, text, hshown, -⟩ :=
    (assemble_interchange (by decide +kernel) (by decide +kernel) hread).2 _ disk' hlisted hwrite
  rw [hdecoded] at hbinary
  rw [houtput] at hwrite hsaved hbinary hsame hshown
  refine ⟨houtput, disk', hwrite, hsaved, hbinary, hloaded, ?_, text, hshown⟩
  intro task hloads
  obtain ⟨report, hbinary, hlisting, -⟩ := hsame task hloads
  rw [hbinary, hlisting]

end GenomeMachine
