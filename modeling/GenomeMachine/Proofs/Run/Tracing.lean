import GenomeMachine.Proofs.Run.Log

/-! # Traces only look

A trace shows the states that steps come by and does to the machine what those steps do:
`Ends.traceFrom_eq`. A sink with a limit ends it at the first state that does not fit as a whole,
whichever piece of that state is refused, and no step is made from there:
`Ends.traceFrom_refused`. -/

namespace GenomeMachine

namespace Machine

/-! ## Pieces of a text -/

/-- The sink has room for a text. Without a limit there is room for any. -/
def Fits (room : Option Nat) (text : String) : Prop :=
  ∀ limit ∈ room, text.utf8ByteSize ≤ limit

section Sink

variable {room : Option Nat} {written text : String}

theorem fits_none (text : String) : Fits none text := by
  intro limit hlimit
  cases hlimit

theorem fits_some_iff {limit : Nat} : Fits (some limit) text ↔ text.utf8ByteSize ≤ limit := by
  simp [Fits]

theorem fits_empty (room : Option Nat) : Fits room "" := by
  intro limit _
  exact Nat.zero_le limit

theorem Fits.of_append (h : Fits room (written ++ text)) : Fits room written := by
  intro limit hlimit
  have hle := h limit hlimit
  rw [String.utf8ByteSize_append] at hle
  omega

theorem put_of_fits (h : Fits room (written ++ text)) :
    put room written text = .ok (written ++ text) := by
  cases room with
  | none => rfl
  | some limit =>
      rw [fits_some_iff, String.utf8ByteSize_append] at h
      simp [put, Nat.not_lt.mpr h]

theorem put_of_not_fits (h : ¬Fits room (written ++ text)) :
    put room written text = .error written := by
  cases room with
  | none => exact absurd (fits_none _) h
  | some limit =>
      rw [fits_some_iff, String.utf8ByteSize_append, Nat.not_le] at h
      simp [put, h]

/-- Pieces that fit as a whole are all taken. -/
theorem foldlM_put_of_fits {pieces : List String}
    (h : Fits room (written ++ String.join pieces)) :
    pieces.foldlM (put room) written = .ok (written ++ String.join pieces) := by
  induction pieces generalizing written with
  | nil => simp [pure, Except.pure]
  | cons piece pieces ih =>
      rw [String.join_cons, ← String.append_assoc] at h ⊢
      rw [List.foldlM_cons, put_of_fits h.of_append]
      exact ih h

/-- Of pieces that do not fit as a whole some are taken, up to one that is refused. Wherever that
one is, the sink has taken a part of the text from its start. -/
theorem foldlM_put_of_not_fits {pieces : List String} (hwritten : Fits room written)
    (h : ¬Fits room (written ++ String.join pieces)) :
    ∃ part rest, String.join pieces = part ++ rest ∧
      pieces.foldlM (put room) written = .error (written ++ part) := by
  induction pieces generalizing written with
  | nil =>
      rw [String.join_nil, String.append_empty] at h
      exact absurd hwritten h
  | cons piece pieces ih =>
      rw [String.join_cons] at h ⊢
      rw [List.foldlM_cons]
      -- Either the refused piece is a later one, or nothing of the text is taken.
      by_cases hpiece : Fits room (written ++ piece)
      · rw [← String.append_assoc] at h
        obtain ⟨part, rest, hparts, hfold⟩ := ih hpiece h
        refine ⟨piece ++ part, rest, ?_, ?_⟩
        · rw [hparts, String.append_assoc]
        · rw [put_of_fits hpiece, ← String.append_assoc]
          exact hfold
      · refine ⟨"", piece ++ String.join pieces, ?_, ?_⟩
        · rw [String.empty_append]
        · rw [put_of_not_fits hpiece, String.append_empty]
          rfl

end Sink

/-! ## One step of a trace -/

section Single

variable {room : Option Nat} {written : String} {m next : Machine} {fault : Fault} (count : Nat)

theorem writeState_of_fits (h : Fits room (written ++ m.stateText)) :
    m.writeState room written = .ok (written ++ m.stateText) :=
  foldlM_put_of_fits h

theorem writeState_of_not_fits (hwritten : Fits room written)
    (h : ¬Fits room (written ++ m.stateText)) :
    ∃ part rest, m.stateText = part ++ rest ∧
      m.writeState room written = .error (written ++ part) :=
  foldlM_put_of_not_fits hwritten h

theorem traceFrom_of_ok (h : Fits room (written ++ m.stateText)) (hstep : step m = .ok () next) :
    traceFrom room written (count + 1) m =
      traceFrom room (written ++ m.stateText) count next := by
  simp only [traceFrom, writeState_of_fits h, hstep]

theorem traceFrom_of_error (h : Fits room (written ++ m.stateText))
    (hstep : step m = .error fault next) :
    traceFrom room written (count + 1) m =
      ⟨written ++ m.stateText, some (.fault fault), next⟩ := by
  simp only [traceFrom, writeState_of_fits h, hstep]

/-- A state that does not fit makes no step, whether or not that step would fail. -/
theorem traceFrom_of_not_fits (hwritten : Fits room written)
    (h : ¬Fits room (written ++ m.stateText)) :
    ∃ part rest, m.stateText = part ++ rest ∧
      traceFrom room written (count + 1) m = ⟨written ++ part, some .write, m⟩ := by
  obtain ⟨part, rest, hparts, hwrite⟩ := writeState_of_not_fits hwritten h
  refine ⟨part, rest, hparts, ?_⟩
  simp only [traceFrom, hwrite]

end Single

/-! ## The steps of a trace -/

/-- The machine makes a number of steps without a fault. Whether its turn has ended does not
matter. -/
def Advances (m : Machine) (count : Nat) : Prop :=
  ∀ k < count, step (m.afterSteps k) = .ok () (m.afterSteps (k + 1))

theorem Advances.mono {m : Machine} {k count : Nat} (h : m.Advances count) (hk : k ≤ count) :
    m.Advances k :=
  fun i hi => h i (Nat.lt_of_lt_of_le hi hk)

theorem advances_succ {m : Machine} {count : Nat} (h : m.Advances count)
    (hstep : step (m.afterSteps count) = .ok () (m.afterSteps (count + 1))) :
    m.Advances (count + 1) := by
  intro k hk
  by_cases hlast : k = count
  · rw [hlast]
    exact hstep
  · exact h k (by omega)

/-- What steps up to a number of them come to: all of them are made, or the last one made is the
first with a fault. -/
inductive Ends (m : Machine) (count : Nat) : Nat → Option Fault → Prop where
  | finished : m.Advances count → Ends m count count none
  | failed {k : Nat} {fault : Fault} : k < count → m.Advances k →
      step (m.afterSteps k) = .error fault (m.afterSteps (k + 1)) →
      Ends m count (k + 1) (some fault)

theorem exists_ends (m : Machine) (count : Nat) : ∃ made fault, m.Ends count made fault := by
  induction count with
  | zero => exact ⟨0, none, .finished fun k hk => absurd hk (Nat.not_lt_zero k)⟩
  | succ count ih =>
      obtain ⟨made, fault, hends⟩ := ih
      cases hends with
      | failed hk hadvances hstep =>
          exact ⟨_, _, .failed (Nat.lt_succ_of_lt hk) hadvances hstep⟩
      | finished hadvances =>
          cases hstep : step (m.afterSteps count) with
          | ok _ next =>
              refine ⟨_, _, .finished (advances_succ hadvances ?_)⟩
              rw [afterSteps_last, hstep, after_ok]
          | error fault next =>
              refine ⟨_, some fault, .failed (Nat.lt_succ_self count) hadvances ?_⟩
              rw [afterSteps_last, hstep, after_error]

theorem Ends.le {m : Machine} {count made : Nat} {fault : Option Fault}
    (h : m.Ends count made fault) : made ≤ count := by
  cases h with
  | finished => exact Nat.le_refl count
  | failed hk => exact hk

theorem Ends.advances {m : Machine} {count made k : Nat} {fault : Option Fault}
    (h : m.Ends count made fault) (hk : k < made) : m.Advances k := by
  cases h with
  | finished hadvances => exact hadvances.mono (Nat.le_of_lt hk)
  | failed _ hadvances => exact hadvances.mono (Nat.le_of_lt_succ hk)

/-! ## The text of a trace -/

/-- The texts of the states before a number of steps, one after the other. -/
def shownText (m : Machine) (count : Nat) : String :=
  String.join ((List.range count).map fun i => (m.afterSteps i).stateText)

theorem shownText_succ (m : Machine) (count : Nat) :
    m.shownText (count + 1) = m.shownText count ++ (m.afterSteps count).stateText := by
  simp [shownText, List.range_succ]

theorem utf8ByteSize_shownText_mono (m : Machine) {k count : Nat} (h : k ≤ count) :
    (m.shownText k).utf8ByteSize ≤ (m.shownText count).utf8ByteSize := by
  induction h with
  | refl => exact Nat.le_refl _
  | step _ ih =>
      rw [shownText_succ, String.utf8ByteSize_append]
      omega

/-- As long as the states fit and steps do not fail, a trace writes and goes on. -/
theorem traceFrom_add {room : Option Nat} {m : Machine} {k : Nat} (rest : Nat)
    (hadvances : m.Advances k) (hfits : Fits room (m.shownText k)) :
    traceFrom room "" (k + rest) m = traceFrom room (m.shownText k) rest (m.afterSteps k) := by
  induction k generalizing rest with
  | zero =>
      rw [Nat.zero_add]
      rfl
  | succ k ih =>
      -- The last of the steps is taken off and left to the rest of the trace.
      rw [shownText_succ] at hfits
      rw [Nat.add_right_comm, Nat.add_assoc, ih _ (hadvances.mono (Nat.le_succ k)) hfits.of_append,
        traceFrom_of_ok _ hfits (hadvances k (Nat.lt_succ_self k)), shownText_succ]

/-- A sink that does not have room for some states has it for those before a first one. -/
theorem exists_last_fitting {room : Option Nat} {m : Machine} {made : Nat}
    (h : ¬Fits room (m.shownText made)) :
    ∃ k < made, Fits room (m.shownText k) ∧ ¬Fits room (m.shownText (k + 1)) := by
  induction made with
  | zero => exact absurd (fits_empty room) h
  | succ made ih =>
      by_cases hmade : Fits room (m.shownText made)
      · exact ⟨made, Nat.lt_succ_self made, hmade, h⟩
      · obtain ⟨k, hk, hfits⟩ := ih hmade
        exact ⟨k, Nat.lt_succ_of_lt hk, hfits⟩

/-- With room for all of them, the states before the steps are written, and the machine and the
fault are those of the steps. -/
theorem Ends.traceFrom_eq {room : Option Nat} {m : Machine} {count made : Nat}
    {fault : Option Fault} (h : m.Ends count made fault) (hfits : Fits room (m.shownText made)) :
    traceFrom room "" count m = ⟨m.shownText made, fault.map .fault, m.afterSteps made⟩ := by
  cases h with
  | finished hadvances => exact traceFrom_add 0 hadvances hfits
  | @failed k fault hk hadvances hstep =>
      obtain ⟨rest, rfl⟩ := Nat.exists_eq_add_of_lt hk
      rw [shownText_succ] at hfits ⊢
      rw [Nat.add_assoc, traceFrom_add _ hadvances hfits.of_append,
        traceFrom_of_error _ hfits hstep]
      rfl

/-- The first state without room for the whole of it ends the trace, after the steps before it. -/
theorem Ends.traceFrom_refused {room : Option Nat} {m : Machine} {count made k : Nat}
    {fault : Option Fault} (h : m.Ends count made fault) (hk : k < made)
    (hfits : Fits room (m.shownText k)) (hover : ¬Fits room (m.shownText (k + 1))) :
    ∃ part rest, (m.afterSteps k).stateText = part ++ rest ∧
      traceFrom room "" count m = ⟨m.shownText k ++ part, some .write, m.afterSteps k⟩ := by
  obtain ⟨left, rfl⟩ := Nat.exists_eq_add_of_lt (Nat.lt_of_lt_of_le hk h.le)
  rw [shownText_succ] at hover
  rw [Nat.add_assoc, traceFrom_add _ (h.advances hk) hfits]
  exact traceFrom_of_not_fits left hfits hover

/-! ## Sinks with a limit -/

section Limit

variable {m : Machine} {count made limit : Nat} {fault : Option Fault}

theorem Ends.trace_eq (h : m.Ends count made fault) :
    m.trace count = ⟨m.shownText made, fault.map .fault, m.afterSteps made⟩ :=
  h.traceFrom_eq (fits_none _)

theorem Ends.traceInto_of_le (h : m.Ends count made fault)
    (hlimit : (m.shownText made).utf8ByteSize ≤ limit) :
    traceInto limit m count = m.trace count := by
  rw [h.trace_eq]
  exact h.traceFrom_eq (fits_some_iff.mpr hlimit)

/-- Texts only get longer, so that those within the limit are the first ones. -/
theorem lt_iff_utf8ByteSize_shownText_le {k : Nat} (hfits : (m.shownText k).utf8ByteSize ≤ limit)
    (hover : limit < (m.shownText (k + 1)).utf8ByteSize) (i : Nat) :
    i < k ↔ (m.shownText (i + 1)).utf8ByteSize ≤ limit := by
  constructor
  · intro hi
    exact Nat.le_trans (m.utf8ByteSize_shownText_mono hi) hfits
  · intro hi
    apply Nat.lt_of_not_le
    intro hk
    have hlonger := m.utf8ByteSize_shownText_mono (Nat.add_le_add_right hk 1)
    omega

theorem Ends.traceInto_of_lt (h : m.Ends count made fault)
    (hlimit : limit < (m.shownText made).utf8ByteSize) :
    ∃ fitting < made, (∀ i, i < fitting ↔ (m.shownText (i + 1)).utf8ByteSize ≤ limit) ∧
      ∃ part rest, (m.afterSteps fitting).stateText = part ++ rest ∧
        traceInto limit m count =
          ⟨m.shownText fitting ++ part, some .write, m.afterSteps fitting⟩ := by
  have hmade : ¬Fits (some limit) (m.shownText made) := by
    rw [fits_some_iff]
    exact Nat.not_le.mpr hlimit
  obtain ⟨fitting, hlt, hfits, hover⟩ := exists_last_fitting hmade
  refine ⟨fitting, hlt, ?_, h.traceFrom_refused hlt hfits hover⟩
  rw [fits_some_iff] at hfits hover
  exact lt_iff_utf8ByteSize_shownText_le hfits (Nat.not_le.mp hover)

end Limit

end Machine

open Machine

/-- A trace writes the texts of the states that single steps come by, before each of them and up
to the first that fails, and leaves the machine and the fault of these steps. A sink with a limit
refuses to write exactly if that text is longer, and otherwise the trace is the same. If it refuses,
the steps that were made are as many as there are states whose texts fit together, and of the next
state only a part from its start may have been written. -/
theorem trace_observes (m : Machine) (count limit : Nat) :
    ∃ made fault, m.Ends count made fault ∧
      m.trace count = ⟨m.shownText made, fault.map .fault, m.afterSteps made⟩ ∧
      ((traceInto limit m count).error = some .write ↔
        limit < (m.trace count).text.utf8ByteSize) ∧
      ((m.trace count).text.utf8ByteSize ≤ limit → traceInto limit m count = m.trace count) ∧
      (limit < (m.trace count).text.utf8ByteSize →
        ∃ fitting < made, (∀ i, i < fitting ↔ (m.shownText (i + 1)).utf8ByteSize ≤ limit) ∧
          ∃ part rest, (m.afterSteps fitting).stateText = part ++ rest ∧
            traceInto limit m count =
              ⟨m.shownText fitting ++ part, some .write, m.afterSteps fitting⟩) := by
  obtain ⟨made, fault, hends⟩ := exists_ends m count
  refine ⟨made, fault, hends, hends.trace_eq, ?_⟩
  rw [hends.trace_eq]
  refine ⟨⟨?_, ?_⟩, ?_, hends.traceInto_of_lt⟩
  · intro herror
    apply Nat.lt_of_not_le
    intro hlimit
    rw [hends.traceInto_of_le hlimit, hends.trace_eq] at herror
    cases fault <;> cases herror
  · intro hlimit
    obtain ⟨fitting, -, -, part, rest, -, heq⟩ := hends.traceInto_of_lt hlimit
    rw [heq]
  · intro hlimit
    rw [hends.traceInto_of_le hlimit, hends.trace_eq]

/-- A machine that ends its turn with its first step and fails with its second. -/
def overtime : Machine :=
  Machine.new .standard #[⟨24, 0, 0, 0⟩, ⟨0, 16, 0, 0⟩]

theorem overtime_observes :
    (overtime.afterSteps 1).halted = true ∧
      (overtime.trace 5).text.utf8ByteSize = 265 ∧
      (overtime.trace 5).error = some (.fault (.registerOutOfRange 1 16)) ∧
      (traceInto 200 overtime 5).error = some .write ∧
      (traceInto 200 overtime 5).machine = overtime.afterSteps 1 ∧
      traceInto 265 overtime 5 = overtime.trace 5 := by
  have hsizes : (overtime.afterSteps 1).halted = true ∧
      (overtime.trace 5).text.utf8ByteSize = 265 ∧
      (overtime.trace 5).error = some (.fault (.registerOutOfRange 1 16)) ∧
      (overtime.shownText 1).utf8ByteSize ≤ 200 ∧
      ¬(overtime.shownText 2).utf8ByteSize ≤ 200 := by
    decide +kernel
  obtain ⟨hhalted, hsize, herror, hfirst, hsecond⟩ := hsizes
  have hlong : 200 < (overtime.trace 5).text.utf8ByteSize := by omega
  obtain ⟨made, fault, -, -, hwrite, -, hrefused⟩ := trace_observes overtime 5 200
  obtain ⟨-, -, -, -, -, hsame, -⟩ := trace_observes overtime 5 265
  obtain ⟨fitting, -, hfitting, part, rest, -, heq⟩ := hrefused hlong
  have hone : fitting = 1 := by
    have hlower := (hfitting 0).mpr hfirst
    have hupper := mt (hfitting 1).mp hsecond
    omega
  refine ⟨hhalted, hsize, herror, hwrite.mpr hlong, ?_, hsame (Nat.le_of_eq hsize)⟩
  rw [heq, hone]

end GenomeMachine
