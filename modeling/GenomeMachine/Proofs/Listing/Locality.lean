import GenomeMachine.Proofs.Listing.Stability

/-! # Listings line by line

What a line denotes, and what is wrong with it, depends on no other line. So texts of whole lines
can stand one below the other: `assemble_append` says what becomes of their genomes and of their
errors, and `assemble_eq_error_iff` says which line an error is about. -/

namespace GenomeMachine

/-! ## Whole lines -/

/-- The text is empty or ends with a line feed. -/
def WholeLines (text : List Char) : Prop :=
  ∀ ch ∈ text.getLast?, ch = '\n'

/-- Whole lines stay lines whatever follows, and each of them has its line feed. -/
theorem WholeLines.lines_append {front : List Char} (h : WholeLines front) :
    ∃ ls, ls.length = front.count '\n' ∧ ∀ rest, lines (front ++ rest) = ls ++ lines rest := by
  cases hlast : front.getLast? with
  | none =>
      rw [List.getLast?_eq_none_iff] at hlast
      subst hlast
      exact ⟨[], rfl, fun rest => rfl⟩
  | some ch =>
      obtain ⟨body, rfl⟩ := List.getLast?_eq_some_iff.mp hlast
      obtain rfl := h ch hlast
      refine ⟨lines body, ?_, ?_⟩
      · rw [length_lines, List.count_append, List.count_singleton_self]
      · intro rest
        rw [List.append_assoc, List.singleton_append, GenomeMachine.lines_append]

/-- The same error with a number of lines above it. -/
def ListingError.below (above : Nat) (e : ListingError) : ListingError :=
  ⟨above + e.line, e.cause⟩

namespace Catalog

variable {c : Catalog}

/-! ## Reading lines -/

theorem readLines_cons_error {line : List Char} {cause : LineError}
    (h : c.readLine line = .error cause) (number : Nat) (rest : List (List Char)) :
    c.readLines number (line :: rest) = .error ⟨number, cause⟩ := by
  rw [readLines, h]

/-- Where lines stand matters to the numbers of their errors only. -/
theorem readLines_add (above number : Nat) (ls : List (List Char)) :
    c.readLines (above + number) ls = (c.readLines number ls).mapError (·.below above) := by
  induction ls generalizing number with
  | nil => rfl
  | cons line ls ih =>
      cases hline : c.readLine line with
      | error cause =>
          rw [readLines_cons_error hline, readLines_cons_error hline]
          rfl
      | ok found =>
          rw [readLines_cons hline, readLines_cons hline, Nat.add_assoc, ih]
          cases c.readLines (number + 1) ls <;> rfl

theorem readLines_append (number : Nat) (front rest : List (List Char)) :
    c.readLines number (front ++ rest) = (do
      let is ← c.readLines number front
      let others ← c.readLines (number + front.length) rest
      return is ++ others) := by
  induction front generalizing number with
  | nil =>
      change c.readLines number rest = _
      cases c.readLines number rest <;> rfl
  | cons line front ih =>
      cases hline : c.readLine line with
      | error cause =>
          rw [List.cons_append, readLines_cons_error hline, readLines_cons_error hline]
          rfl
      | ok found =>
          have hnumber : number + (line :: front).length = number + 1 + front.length := by
            rw [List.length_cons]
            omega
          rw [List.cons_append, readLines_cons hline, readLines_cons hline, ih, hnumber]
          cases c.readLines (number + 1) front with
          | error e => rfl
          | ok is =>
              cases c.readLines (number + 1 + front.length) rest with
              | error e => rfl
              | ok others => exact congrArg Except.ok (List.append_assoc ..).symm

/-- The error is about the first of the lines that cannot be read. Lines count from `number`. -/
def IsFirstError (c : Catalog) (number : Nat) (ls : List (List Char)) (e : ListingError) : Prop :=
  ∃ above line below, ls = above ++ line :: below ∧
    (∀ earlier ∈ above, ∃ found, c.readLine earlier = .ok found) ∧
    c.readLine line = .error e.cause ∧ e.line = number + above.length

theorem IsFirstError.cons {number : Nat} {line : List Char} {ls : List (List Char)}
    {e : ListingError} {found : Option Instruction} (hline : c.readLine line = .ok found)
    (h : c.IsFirstError (number + 1) ls e) : c.IsFirstError number (line :: ls) e := by
  obtain ⟨above, bad, below, rfl, habove, hbad, hnumber⟩ := h
  refine ⟨line :: above, bad, below, rfl, ?_, hbad, ?_⟩
  · exact List.forall_mem_cons.mpr ⟨⟨found, hline⟩, habove⟩
  · rw [hnumber, List.length_cons]
    omega

/-- Lines are read as a whole when each of them can be read. -/
theorem exists_readLines {ls : List (List Char)}
    (h : ∀ line ∈ ls, ∃ found, c.readLine line = .ok found) (number : Nat) :
    ∃ is, c.readLines number ls = .ok is := by
  induction ls generalizing number with
  | nil => exact ⟨[], rfl⟩
  | cons line ls ih =>
      obtain ⟨⟨found, hline⟩, hrest⟩ := List.forall_mem_cons.mp h
      obtain ⟨is, his⟩ := ih hrest (number + 1)
      refine ⟨found.toList ++ is, ?_⟩
      rw [readLines_cons hline, his]
      rfl

theorem readLines_eq_error_iff {number : Nat} {ls : List (List Char)} {e : ListingError} :
    c.readLines number ls = .error e ↔ c.IsFirstError number ls e := by
  constructor
  · intro h
    induction ls generalizing number with
    | nil => cases h
    | cons line ls ih =>
        cases hline : c.readLine line with
        | error cause =>
            rw [readLines_cons_error hline] at h
            cases h
            exact ⟨[], line, ls, rfl, by simp, hline, rfl⟩
        | ok found =>
            rw [readLines_cons hline] at h
            apply IsFirstError.cons hline
            apply ih
            cases hrest : c.readLines (number + 1) ls with
            | ok is =>
                rw [hrest] at h
                cases h
            | error e' =>
                rw [hrest] at h
                cases h
                rfl
  · rintro ⟨above, line, below, rfl, habove, hline, hnumber⟩
    obtain ⟨is, his⟩ := exists_readLines habove number
    rw [readLines_append, his, readLines_cons_error hline, ← hnumber]
    rfl

/-! ## Texts one below the other -/

theorem assemble_append {front : String} (hfront : WholeLines front.toList) (rest : String) :
    c.assemble (front ++ rest) = (do
      let g ← c.assemble front
      let others ← (c.assemble rest).mapError (·.below (front.toList.count '\n'))
      return g ++ others) := by
  obtain ⟨ls, hlength, hlines⟩ := hfront.lines_append
  -- The lines of `front` alone are these and an empty one, in which there is nothing.
  have hempty (number : Nat) : c.readLines number (lines []) = .ok [] := rfl
  have hfirst : c.assemble front = (c.readLines 1 ls).map List.toArray := by
    have halone := hlines []
    rw [List.append_nil] at halone
    rw [assemble, halone, readLines_append, hempty]
    cases c.readLines 1 ls <;> simp [bind, Except.bind, pure, Except.pure]
  have hsecond : c.readLines (1 + ls.length) (lines rest.toList) =
      (c.readLines 1 (lines rest.toList)).mapError (·.below (front.toList.count '\n')) := by
    rw [Nat.add_comm, readLines_add, hlength]
  rw [assemble, String.toList_append, hlines, readLines_append, hfirst, hsecond, assemble]
  cases c.readLines 1 ls with
  | error e => rfl
  | ok is =>
      cases c.readLines 1 (lines rest.toList) with
      | error e => rfl
      | ok others => simp [bind, Except.bind, pure, Except.pure, Except.map, Except.mapError]

theorem assemble_eq_error_iff {text : String} {e : ListingError} :
    c.assemble text = .error e ↔ c.IsFirstError 1 (lines text.toList) e := by
  rw [← readLines_eq_error_iff, assemble]
  cases c.readLines 1 (lines text.toList) <;> simp [Except.map]

end Catalog

open Catalog

/-- Listings one below the other are read one after the other: the upper one, made of whole lines,
decides alone if it is wrong, and otherwise the genomes follow one another, or the error of the
lower one is reported at the line where it now stands. It is always the first bad line that is
reported, with what is wrong with this line. -/
theorem assemble_line_local (c : Catalog) {front : String} (hfront : WholeLines front.toList)
    (rest : String) :
    (∀ e, c.assemble front = .error e → c.assemble (front ++ rest) = .error e) ∧
      (∀ g₁ g₂, c.assemble front = .ok g₁ → c.assemble rest = .ok g₂ →
        c.assemble (front ++ rest) = .ok (g₁ ++ g₂)) ∧
      (∀ g₁ e, c.assemble front = .ok g₁ → c.assemble rest = .error e →
        c.assemble (front ++ rest) = .error ⟨front.toList.count '\n' + e.line, e.cause⟩) ∧
      ∀ e, c.assemble (front ++ rest) = .error e ↔
        c.IsFirstError 1 (lines (front ++ rest).toList) e := by
  have happend := assemble_append (c := c) hfront rest
  refine ⟨?_, ?_, ?_, fun e => assemble_eq_error_iff⟩
  · intro e h
    rw [happend, h]
    rfl
  · intro g₁ g₂ h₁ h₂
    rw [happend, h₁, h₂]
    rfl
  · intro g₁ e h₁ h₂
    rw [happend, h₁, h₂]
    rfl

/-- Lines that denote nothing, a statement between them, and a carriage return before each line
feed. -/
def spacious : String := "; 7up\r\n\r\n+1 - 2 -->\r\n  ----\r\n"

/-- One text for each kind of error, each in its second line, with what is wrong there. -/
def faulty : List (String × LineError) :=
  [("\r\n7up", .invalidNumber "7up"), ("+1 1 1\n+1 1", .missingArgument "+1" 2),
    ("----\n- 3", .unknownInstruction "-"), ("; 1\n+1 - 0 0;", .unexpectedToken "0")]

theorem spacious_line_local :
    WholeLines spacious.toList ∧ spacious.toList.count '\n' = 4 ∧
      motley.assemble spacious = .ok #[⟨6, 3, 2, 0⟩] ∧
      motley.assemble (spacious ++ motleyListing) = .ok (#[⟨6, 3, 2, 0⟩] ++ motleyGenome) ∧
      ∀ entry ∈ faulty, motley.assemble entry.1 = .error ⟨2, entry.2⟩ ∧
        motley.assemble (spacious ++ entry.1) = .error ⟨6, entry.2⟩ := by
  have hlast : spacious.toList.getLast? = some '\n' := by decide +kernel
  have hwhole : WholeLines spacious.toList := by simp [WholeLines, hlast]
  have hfront : motley.assemble spacious = .ok #[⟨6, 3, 2, 0⟩] := by decide +kernel
  have hlisting : motley.assemble motleyListing = .ok motleyGenome := by decide +kernel
  have hfaulty : ∀ entry ∈ faulty, motley.assemble entry.1 = .error ⟨2, entry.2⟩ := by
    decide +kernel
  refine ⟨hwhole, by decide, hfront, ?_, ?_⟩
  · obtain ⟨_, hok, _⟩ := assemble_line_local motley hwhole motleyListing
    exact hok _ _ hfront hlisting
  · intro entry hentry
    obtain ⟨_, _, herror, _⟩ := assemble_line_local motley hwhole entry.1
    exact ⟨hfaulty entry hentry, herror _ _ hfront (hfaulty entry hentry)⟩

end GenomeMachine
