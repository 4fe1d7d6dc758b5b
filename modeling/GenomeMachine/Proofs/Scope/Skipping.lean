import GenomeMachine.Proofs.Run.Prediction
import Mathlib.Order.Bounds.Defs

/-! # Skipping the rest of a scope

A machine that leaves a scope looks for the next opener that is not deeper than the scope it leaves,
and stops just before it, so that the next step starts there. Deeper openers on the way belong to
what is skipped. -/

namespace GenomeMachine

namespace Machine

/-- The positions behind the pointer with an opener of at most the given depth. -/
def stops (m : Machine) (depth : Nat) : Set Nat :=
  { position | m.pointer < position ∧ ∃ i, m.instruction? position = some i ∧
    1 ≤ m.catalog.openedDepth i ∧ m.catalog.openedDepth i ≤ depth }

/-- Whether an instruction ends the search for an opener of at most the given depth. -/
def endsSearch (m : Machine) (depth : Nat) (i : Instruction) : Bool :=
  0 < m.catalog.openedDepth i && m.catalog.openedDepth i ≤ depth

/-! ## The search -/

/-- The instructions behind the pointer. -/
def ahead (m : Machine) : Array Instruction :=
  m.genome.extract (m.pointer + 1) m.genome.size

theorem add_mem_stops_iff {m : Machine} {depth n : Nat} :
    m.pointer + 1 + n ∈ m.stops depth ↔
      ∃ h : n < m.ahead.size, m.endsSearch depth m.ahead[n] = true := by
  have hfetch : m.ahead[n]? = m.instruction? (m.pointer + 1 + n) := by
    rw [ahead, Array.getElem?_extract, instruction?, Nat.min_self]
    by_cases hn : n < m.genome.size - (m.pointer + 1)
    · rw [if_pos hn]
    · rw [if_neg hn, Array.getElem?_eq_none (by omega)]
  simp only [stops, Set.mem_ofPred_eq, ← hfetch, endsSearch, Bool.and_eq_true, decide_eq_true_eq]
  constructor
  · rintro ⟨_, i, hi, hdepth⟩
    obtain ⟨hn, rfl⟩ := Array.getElem?_eq_some_iff.mp hi
    exact ⟨hn, hdepth⟩
  · rintro ⟨hn, hdepth⟩
    exact ⟨by omega, _, Array.getElem?_eq_getElem hn, hdepth⟩

theorem exists_of_mem_stops {m : Machine} {depth position : Nat} (h : position ∈ m.stops depth) :
    ∃ n, position = m.pointer + 1 + n :=
  Nat.exists_eq_add_of_le h.1

theorem nextOpener?_eq_some_iff {m : Machine} {depth position : Nat} :
    m.nextOpener? depth = some position ↔ IsLeast (m.stops depth) position := by
  have hnext : m.nextOpener? depth = some position ↔
      ∃ n, m.ahead.findIdx? (m.endsSearch depth) = some n ∧ m.pointer + 1 + n = position :=
    Option.map_eq_some_iff
  rw [hnext]
  constructor
  · rintro ⟨n, hfind, rfl⟩
    obtain ⟨hn, hstop, hbefore⟩ := Array.findIdx?_eq_some_iff_getElem.mp hfind
    refine ⟨add_mem_stops_iff.mpr ⟨hn, hstop⟩, ?_⟩
    intro other hother
    obtain ⟨k, rfl⟩ := exists_of_mem_stops hother
    obtain ⟨_, hstop⟩ := add_mem_stops_iff.mp hother
    by_contra hlt
    exact hbefore k (by omega) hstop
  · rintro ⟨hmem, hleast⟩
    obtain ⟨n, rfl⟩ := exists_of_mem_stops hmem
    obtain ⟨hn, hstop⟩ := add_mem_stops_iff.mp hmem
    refine ⟨n, Array.findIdx?_eq_some_iff_getElem.mpr ⟨hn, hstop, ?_⟩, rfl⟩
    intro k hk hearlier
    have := hleast (add_mem_stops_iff.mpr ⟨Nat.lt_trans hk hn, hearlier⟩)
    omega

theorem nextOpener?_eq_none_iff {m : Machine} {depth : Nat} :
    m.nextOpener? depth = none ↔ m.stops depth = ∅ := by
  cases hnext : m.nextOpener? depth with
  | some position =>
      have hmem := (nextOpener?_eq_some_iff.mp hnext).1
      simpa using Set.nonempty_iff_ne_empty.mp ⟨position, hmem⟩
  | none =>
      have hfind : m.ahead.findIdx? (m.endsSearch depth) = none := Option.map_eq_none_iff.mp hnext
      simp only [true_iff, Set.eq_empty_iff_forall_notMem]
      intro position hmem
      obtain ⟨n, rfl⟩ := exists_of_mem_stops hmem
      obtain ⟨hn, hstop⟩ := add_mem_stops_iff.mp hmem
      have hpass := Array.findIdx?_eq_none_iff.mp hfind _ (Array.getElem_mem hn)
      simp [hpass] at hstop

/-! ## Leaving a scope -/

section Leave

variable {m : Machine} {level : Nat}

/-- Leaving a scope closes it, and besides only the pointer moves. -/
theorem leaveScope_eq_closeScope (h : level < m.innermost.depth) :
    m.leaveScope level = { m.closeScope with pointer := (m.leaveScope level).pointer } := by
  simp only [leaveScope, if_neg (Nat.not_lt.mpr (Nat.succ_le_of_lt h))]

theorem pointer_leaveScope_of_isLeast (h : level < m.innermost.depth) {position : Nat}
    (hleast : IsLeast (m.stops (level + 1)) position) :
    (m.leaveScope level).pointer + 1 = position := by
  have hpast : m.pointer < position := hleast.1.1
  simp only [leaveScope, if_neg (Nat.not_lt.mpr (Nat.succ_le_of_lt h)),
    nextOpener?_eq_some_iff.mpr hleast]
  omega

theorem pointer_leaveScope_of_empty (h : level < m.innermost.depth)
    (hnone : m.stops (level + 1) = ∅) :
    (m.leaveScope level).pointer =
      if m.pointer + 1 < m.genome.size then m.genome.size - 1 else m.pointer := by
  simp only [leaveScope, if_neg (Nat.not_lt.mpr (Nat.succ_le_of_lt h)),
    nextOpener?_eq_none_iff.mpr hnone]
  split <;> omega

end Leave

/-! ## Guards that fail -/

/-- Nothing follows in a chain behind the instruction that makes nothing due. -/
theorem Execution.eq_nil_of_last {i : Instruction} {m : Machine} {log : List Dispatched}
    {result : EStateM.Result Fault Machine Unit} (h : Execution i m log result)
    {before later : List Dispatched} {d : Dispatched} (hlog : log = before ++ d :: later)
    {next : Machine} (hnext : dispatch d.instruction d.machine = .ok () next)
    (hpending : next.pending = false) : later = [] := by
  induction h generalizing before with
  | fault | finished | nowhere =>
      have hlength := congrArg List.length hlog
      simp only [List.length_append, List.length_cons, List.length_nil] at hlength
      exact List.eq_nil_of_length_eq_zero (by omega)
  | again hdispatch hdue _ _ ih =>
      cases before with
      | nil =>
          obtain ⟨rfl, _⟩ := List.cons.inj hlog
          cases hdispatch.symm.trans hnext
          simp [hpending] at hdue
      | cons first before => exact ih (List.cons.inj hlog).2

/-- A scope that was opened took the place of the silent ones that were finished. -/
theorem eq_openScope_of_enterScope {m entered : Machine} {level : Nat} {kind : ScopeKind}
    (h : enterScope level kind m = .ok true entered) :
    entered = (m.closeFinished level).openScope (level + 1) kind := by
  rw [enterScope_closeFinished] at h
  by_cases hdepth : (m.closeFinished level).innermost.depth < level + 1
  · rw [enterScope_of_lt kind hdepth] at h
    split at h
    · cases h
      rfl
    · cases h
  · have hdepth : level < (m.closeFinished level).innermost.depth := Nat.le_of_not_lt hdepth
    rw [enterScope_of_not_silent kind hdepth (closesSilently_closeFinished hdepth)] at h
    cases h

section Guards

variable {m entered : Machine} {d : Dispatched} {level : Nat} {guard : Guard} {test : Slot}

/-- The way ahead is the same inside the scope that was opened. -/
theorem stops_of_enterScope {kind : ScopeKind} (h : enterScope level kind m = .ok true entered)
    (depth : Nat) : entered.stops depth = m.stops depth := by
  have hclose (n : Machine) : n.closeScope.stops depth = n.stops depth := by
    simp [stops, instruction?]
  rw [eq_openScope_of_enterScope h]
  exact closeFinished_keeps (f := (stops · depth)) hclose m level

/-- An opener whose guard fails leaves its scope again. -/
theorem dispatch_of_guard_zero
    (hop : d.machine.opcode? d.instruction = some (.control (.guarded guard)))
    (htest : slot? d.instruction.first.toNat = some test)
    (hlevel : d.instruction.second.toNat = level)
    (hentered : enterScope level guard.kind d.machine = .ok true entered)
    (hzero : (entered.register test == 0.0) = true) :
    dispatch d.instruction d.machine = .ok () (entered.leaveScope level) := by
  subst hlevel
  rw [(Reaches.guarded hop htest).dispatch_eq, opening, hentered]
  simp only [startGuarded, if_pos hzero]

theorem pending_of_enterScope {kind : ScopeKind} (h : enterScope level kind m = .ok true entered) :
    entered.pending = m.pending := by
  rw [eq_openScope_of_enterScope h]
  exact pending_closeFinished m level

theorem fetch_of_enterScope {kind : ScopeKind} (h : enterScope level kind m = .ok true entered) :
    entered.instruction? entered.pointer = m.instruction? m.pointer := by
  have hclose (n : Machine) :
      n.closeScope.instruction? n.closeScope.pointer = n.instruction? n.pointer := by
    simp [instruction?]
  rw [eq_openScope_of_enterScope h]
  exact closeFinished_keeps (f := fun n => n.instruction? n.pointer) hclose m level

end Guards

/-! ## Where a step starts -/

theorem stepLog_of_inside {m : Machine} (hpending : m.pending = false)
    (hinside : m.pointer < m.genome.size) : ∃ i rest, m.stepLog = ⟨m, i⟩ :: rest := by
  obtain ⟨i, hfetch⟩ := exists_fetch (Nat.zero_lt_of_lt hinside)
  obtain ⟨rest, hlog⟩ := stepLog_of_fetch hfetch
  rw [arrive_of_inside hpending hinside] at hlog
  exact ⟨i, rest, hlog⟩

theorem stepLog_of_outside {m : Machine} (hpending : m.pending = false)
    (hgenome : 0 < m.genome.size) (houtside : m.genome.size ≤ m.pointer) :
    ∃ i rest, m.stepLog = ⟨m.rewind, i⟩ :: rest := by
  have harrive : m.arrive = m.rewind := by
    rw [arrive, if_pos houtside]
    exact set_pending_eq hpending
  obtain ⟨i, hfetch⟩ := exists_fetch hgenome
  obtain ⟨rest, hlog⟩ := stepLog_of_fetch hfetch
  rw [harrive] at hlog
  exact ⟨i, rest, hlog⟩

section Landing

variable {m next : Machine} {level : Nat} (hdeep : level < m.innermost.depth)
  (hpending : m.pending = false)
  (hnext : { m.leaveScope level with pointer := (m.leaveScope level).pointer + 1 } = next)
include hdeep hpending hnext

/-- Once the pointer has moved on, it is at the opener that ended the search. -/
theorem starts_of_isLeast {q : Nat} (hleast : IsLeast (m.stops (level + 1)) q) :
    next.pointer = q ∧ ∃ i rest, next.stepLog = ⟨next, i⟩ :: rest := by
  have hpointer : next.pointer = q := hnext ▸ pointer_leaveScope_of_isLeast hdeep hleast
  have hgenome : next.genome = m.genome := hnext ▸ genome_leaveScope m level
  have hdone : next.pending = false := hnext ▸ (pending_leaveScope m level).trans hpending
  obtain ⟨_, _, hq, _⟩ := hleast.1
  obtain ⟨hinside, _⟩ := Array.getElem?_eq_some_iff.mp hq
  exact ⟨hpointer, stepLog_of_inside hdone (by rwa [hpointer, hgenome])⟩

/-- If nothing ended the search, it is behind the end of the genome. -/
theorem starts_of_empty (hinside : m.pointer < m.genome.size) (hnone : m.stops (level + 1) = ∅) :
    next.pointer = next.genome.size ∧ ∃ i rest, next.stepLog = ⟨next.rewind, i⟩ :: rest := by
  have hgenome : next.genome = m.genome := hnext ▸ genome_leaveScope m level
  have hdone : next.pending = false := hnext ▸ (pending_leaveScope m level).trans hpending
  have hpointer : next.pointer = next.genome.size := by
    rw [hgenome, ← hnext]
    simp only [pointer_leaveScope_of_empty hdeep hnone]
    split <;> omega
  have hsize : 0 < next.genome.size := by
    rw [hgenome]
    omega
  exact ⟨hpointer, stepLog_of_outside hdone hsize (Nat.le_of_eq hpointer.symm)⟩

end Landing

end Machine

open Machine

/-- A machine at a loop whose test register is zero, with a scope still open that the loop finishes.
A deeper opener stands between the loop and the next one of its depth. -/
def hurdles : Machine :=
  { Machine.new .standard #[⟨16, 2, 0, 0⟩, ⟨13, 0, 1, 0⟩, ⟨16, 4, 0, 0⟩, ⟨0, 1, 0, 0⟩,
      ⟨16, 1, 0, 0⟩] with
    pointer := 1
    opened := [⟨3, .basic, 0⟩] }

end GenomeMachine
