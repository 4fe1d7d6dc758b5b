import GenomeMachine.Proofs.Dispatch.Outcome
import Mathlib.Logic.Function.Iterate

/-! # What reaching an opener means

An opener divides the open scopes into those that it finishes, because they are at least as deep as
its own, and those around it. The kinds of the finished ones decide everything: if all of them just
close, the opener takes their place, and otherwise the innermost loop or function among them tells
where to go on. -/

namespace GenomeMachine

namespace Machine

/-- The open scopes at least as deep as the one that an opener at a level opens. -/
def finished (m : Machine) (level : Nat) : List Frame :=
  m.frames.filter (level + 1 ≤ ·.depth)

/-- The open scopes less deep than the one that an opener at a level opens. -/
def surrounding (m : Machine) (level : Nat) : List Frame :=
  m.frames.filter (·.depth < level + 1)

/-- The machine without a number of innermost scopes, closed one after another. -/
def closeScopes (n : Nat) (m : Machine) : Machine :=
  closeScope^[n] m

@[simp] theorem closeScopes_zero (m : Machine) : closeScopes 0 m = m := rfl

theorem closeScopes_succ (n : Nat) (m : Machine) :
    closeScopes (n + 1) m = closeScopes n m.closeScope := rfl

theorem closeScope_closeScopes (n : Nat) (m : Machine) :
    (closeScopes n m).closeScope = closeScopes (n + 1) m :=
  (Function.iterate_succ_apply' closeScope n m).symm

theorem closeScopes_keeps {α : Type} {f : Machine → α} (hf : ∀ m, f m.closeScope = f m) (n : Nat)
    (m : Machine) : f (closeScopes n m) = f m := by
  induction n generalizing m with
  | zero => rfl
  | succ n ih => rw [closeScopes_succ, ih, hf]

theorem opened_closeScopes (n : Nat) (m : Machine) : (closeScopes n m).opened = m.opened.drop n := by
  induction n generalizing m with
  | zero => rfl
  | succ n ih => rw [closeScopes_succ, ih, opened_closeScope, List.drop_tail]

/-! ## The two parts of the stack -/

/-- On an ordered stack, all scopes from a depth on lie inside all others. -/
theorem eq_filter_append_filter {frames : List Frame} (depth : Nat)
    (hordered : frames.Pairwise (fun inner outer => outer.depth < inner.depth)) :
    frames = frames.filter (depth ≤ ·.depth) ++ frames.filter (·.depth < depth) := by
  induction frames with
  | nil => rfl
  | cons frame rest ih =>
      obtain ⟨hrest, hordered⟩ := List.pairwise_cons.mp hordered
      by_cases hdepth : depth ≤ frame.depth
      · rw [List.filter_cons_of_pos (by simpa using hdepth),
          List.filter_cons_of_neg (by simpa using hdepth), List.cons_append, ← ih hordered]
      · -- From the first scope that is not deep enough on, none is.
        have hshallow : ∀ other ∈ rest, other.depth < depth := by
          intro other hother
          have := hrest other hother
          omega
        have hnone : rest.filter (depth ≤ ·.depth) = [] :=
          List.filter_eq_nil_iff.mpr (by simpa using hshallow)
        have hall : rest.filter (·.depth < depth) = rest :=
          List.filter_eq_self.mpr (by simpa using hshallow)
        rw [List.filter_cons_of_neg (by simpa using hdepth),
          List.filter_cons_of_pos (by simpa using hdepth), hnone, hall, List.nil_append]

/-- The scopes that an opener finishes lie inside those around it. -/
theorem Nested.frames_eq {m : Machine} (h : Nested m) (level : Nat) :
    m.frames = m.finished level ++ m.surrounding level :=
  eq_filter_append_filter (level + 1) h.ordered

/-- The root is always among the scopes around an opener. -/
theorem surrounding_eq (m : Machine) (level : Nat) :
    m.surrounding level = m.opened.filter (·.depth < level + 1) ++ [.root] := by
  simp [surrounding, frames, List.filter_append, Frame.root]

/-- The scopes inside the root, divided in the same way. -/
theorem Nested.opened_eq {m : Machine} (h : Nested m) (level : Nat) :
    m.opened = m.finished level ++ m.opened.filter (·.depth < level + 1) := by
  have hframes := h.frames_eq level
  rw [surrounding_eq, frames, ← List.append_assoc] at hframes
  exact List.append_cancel_right hframes

/-- Once the finished scopes are closed, those around the opener are left. -/
theorem Nested.frames_closeScopes {m : Machine} (h : Nested m) {level : Nat}
    {inner outer : List Frame} (hfinished : m.finished level = inner ++ outer) :
    (closeScopes inner.length m).frames = outer ++ m.surrounding level := by
  rw [frames, opened_closeScopes, h.opened_eq level, hfinished, List.append_assoc,
    List.drop_left, surrounding_eq, List.append_assoc]

/-- The innermost of the remaining scopes. -/
theorem innermost_of_frames {m : Machine} {frame : Frame} {outer : List Frame}
    (h : m.frames = frame :: outer) : m.innermost = frame := by
  obtain ⟨_, hframes⟩ := m.frames_eq_cons
  exact (List.cons.inj (hframes.symm.trans h)).1

/-! ## Silent scopes -/

/-- Scopes that just close can be closed before the opener is reached. -/
theorem enterScope_closeScopes {m : Machine} {level : Nat} (kind : ScopeKind)
    {inner outer : List Frame} (hframes : m.frames = inner ++ outer)
    (hinner : ∀ frame ∈ inner, level + 1 ≤ frame.depth ∧ frame.kind.closesSilently = true) :
    enterScope level kind m = enterScope level kind (closeScopes inner.length m) := by
  induction inner generalizing m with
  | nil => rfl
  | cons frame inner ih =>
      have hinnermost := innermost_of_frames hframes
      obtain ⟨hdepth, hkind⟩ := hinner frame List.mem_cons_self
      have hopened : m.opened = frame :: m.closeScope.opened :=
        hinnermost ▸ opened_eq_cons (by rw [hinnermost]; omega)
      have hclosed : m.closeScope.frames = inner ++ outer := by
        rw [frames, hopened] at hframes
        exact (List.cons.inj hframes).2
      rw [enterScope_of_silent kind (hinnermost ▸ hdepth) (hinnermost ▸ hkind),
        ih hclosed fun f hf => hinner f (List.mem_cons_of_mem _ hf), List.length_cons,
        closeScopes_succ]

/-- Restoring all backups leaves nothing that closing a scope would have changed. -/
theorem rewind_closeScope (m : Machine) : m.closeScope.rewind = m.rewind := by
  unfold closeScope
  split
  · rfl
  · simp only [rewind, restore, ← List.foldl_append, List.takeWhile_append_dropWhile]

/-! ## The three outcomes -/

section Outcomes

variable {m : Machine} {level : Nat} {inner outer : List Frame} {frame : Frame}

theorem le_of_mem_finished (hmem : frame ∈ m.finished level) : level + 1 ≤ frame.depth := by
  simpa using (List.mem_filter.mp hmem).2

/-- Where all finished scopes just close, the opener needs room beside those around it. -/
theorem Nested.enterScope_silent (h : Nested m) (kind : ScopeKind)
    (hsilent : ∀ frame ∈ m.finished level, frame.kind.closesSilently = true) :
    enterScope level kind m =
      if (m.surrounding level).length < 16 then
        .ok true ((closeScopes (m.finished level).length m).openScope (level + 1) kind)
      else .error (.scopeOverflow m.pointer (level + 1))
        (closeScopes (m.finished level).length m) := by
  have hframes : (closeScopes (m.finished level).length m).frames = m.surrounding level :=
    h.frames_closeScopes (List.append_nil _).symm
  have hpointer : (closeScopes (m.finished level).length m).pointer = m.pointer :=
    closeScopes_keeps pointer_closeScope _ m
  have hdepth : (closeScopes (m.finished level).length m).innermost.depth < level + 1 := by
    have hmem := innermost_mem_frames (closeScopes (m.finished level).length m)
    rw [hframes] at hmem
    simpa using (List.mem_filter.mp hmem).2
  rw [enterScope_closeScopes kind (h.frames_eq level)
      fun frame hframe => ⟨le_of_mem_finished hframe, hsilent frame hframe⟩,
    enterScope_of_lt kind hdepth, hframes]
  split
  · rfl
  · rw [hpointer]

/-- Otherwise the innermost scope that does more than close is finished. -/
theorem Nested.enterScope_finishes (h : Nested m) (kind : ScopeKind)
    (hfinished : m.finished level = inner ++ frame :: outer)
    (hinner : ∀ f ∈ inner, f.kind.closesSilently = true)
    (hkind : frame.kind.closesSilently = false) :
    enterScope level kind m = .ok false ((closeScopes inner.length m).finishScope frame) := by
  have hdepth {f : Frame} (hf : f ∈ inner ++ frame :: outer) : level + 1 ≤ f.depth :=
    le_of_mem_finished (hfinished ▸ hf)
  have hframes : m.frames = inner ++ (frame :: outer ++ m.surrounding level) := by
    rw [← List.append_assoc, ← hfinished]
    exact h.frames_eq level
  have hinnermost := innermost_of_frames (h.frames_closeScopes hfinished)
  have hlevel : level < (closeScopes inner.length m).innermost.depth := by
    rw [hinnermost]
    exact hdepth (by simp)
  rw [enterScope_closeScopes kind hframes fun f hf => ⟨hdepth (by simp [hf]), hinner f hf⟩,
    enterScope_of_not_silent kind hlevel (hinnermost ▸ hkind), hinnermost]

/-- There is no room exactly if sixteen scopes are open and none of them is finished. -/
theorem Nested.length_surrounding_lt_iff (h : Nested m) :
    (m.surrounding level).length < 16 ↔ ¬(m.finished level = [] ∧ m.frames.length = 16) := by
  have hlength := congrArg List.length (h.frames_eq level)
  have hle := h.length_le
  rw [List.length_append] at hlength
  rw [← List.length_eq_zero_iff]
  omega

/-- Where some finished scope does more than close, there is an innermost one. -/
theorem exists_innermost_of_not_silent
    (h : ¬∀ frame ∈ m.finished level, frame.kind.closesSilently = true) :
    ∃ inner frame outer, m.finished level = inner ++ frame :: outer ∧
      (∀ f ∈ inner, f.kind.closesSilently = true) ∧ frame.kind.closesSilently = false := by
  cases hfind : (m.finished level).find? (! ·.kind.closesSilently) with
  | none => exact absurd (by simpa using hfind) h
  | some frame =>
      obtain ⟨hkind, inner, outer, hfinished, hinner⟩ := List.find?_eq_some_iff_append.mp hfind
      exact ⟨inner, frame, outer, hfinished, by simpa using hinner, by simpa using hkind⟩

theorem Nested.enterScope_eq_error_iff (h : Nested m) (kind : ScopeKind) {fault : Fault}
    {m' : Machine} :
    enterScope level kind m = .error fault m' ↔
      (m.finished level = [] ∧ m.frames.length = 16) ∧
        fault = .scopeOverflow m.pointer (level + 1) ∧ m' = m := by
  by_cases hsilent : ∀ frame ∈ m.finished level, frame.kind.closesSilently = true
  · rw [h.enterScope_silent kind hsilent]
    by_cases hfull : m.finished level = [] ∧ m.frames.length = 16
    · rw [if_neg fun hroom => h.length_surrounding_lt_iff.mp hroom hfull]
      simp [hfull, eq_comm]
    · rw [if_pos (h.length_surrounding_lt_iff.mpr hfull)]
      simp [hfull]
  · have hsome : m.finished level ≠ [] := by
      intro hnil
      simp [hnil] at hsilent
    obtain ⟨inner, frame, outer, hfinished, hinner, hkind⟩ := exists_innermost_of_not_silent hsilent
    rw [h.enterScope_finishes kind hfinished hinner hkind]
    simp [hsome]

end Outcomes

/-- What reaching an opener has made of a machine: the scopes that are open now, the position, the
positions to return to, and whether an instruction is due. Registers and backups are as the closing
of so many scopes leaves them, and scopes have no part in the rest. -/
structure Resolved (m : Machine) (closed : Nat) (frames : List Frame) (pointer : Nat)
    (calls : List Nat) (pending : Bool) (m' : Machine) : Prop where
  frames_eq : m'.frames = frames
  pointer_eq : m'.pointer = pointer
  calls_eq : m'.calls = calls
  pending_eq : m'.pending = pending
  registers_eq : m'.registers = (closeScopes closed m).registers
  backups_eq : m'.backups = (closeScopes closed m).backups
  background_eq : m'.background = m.background

theorem resolved_closeScopes (n : Nat) (m : Machine) :
    Resolved m n (closeScopes n m).frames m.pointer m.calls m.pending (closeScopes n m) where
  frames_eq := rfl
  pointer_eq := closeScopes_keeps pointer_closeScope n m
  calls_eq := closeScopes_keeps calls_closeScope n m
  pending_eq := closeScopes_keeps pending_closeScope n m
  registers_eq := rfl
  backups_eq := rfl
  background_eq := closeScopes_keeps background_closeScope n m

theorem Resolved.openScope {m closed : Machine} {n pointer : Nat} {frames : List Frame}
    {calls : List Nat} {pending : Bool} (h : Resolved m n frames pointer calls pending closed)
    (depth : Nat) (kind : ScopeKind) :
    Resolved m n (⟨depth, kind, pointer⟩ :: frames) pointer calls pending
      (closed.openScope depth kind) := by
  refine { h with frames_eq := ?_, background_eq := h.background_eq }
  rw [← h.frames_eq, ← h.pointer_eq]
  rfl

section Finish

variable {m : Machine} {level : Nat} {inner outer : List Frame} {frame : Frame}

/-- A finished scope is gone, with all scopes inside it. -/
theorem Nested.resolved_close (h : Nested m)
    (hfinished : m.finished level = inner ++ frame :: outer) :
    Resolved m (inner.length + 1) (outer ++ m.surrounding level) m.pointer m.calls m.pending
      (closeScopes inner.length m).closeScope := by
  have hresolved := resolved_closeScopes (inner.length + 1) m
  have hsplit : m.finished level = (inner ++ [frame]) ++ outer := by simpa using hfinished
  have hframes : (closeScopes (inner.length + 1) m).frames = outer ++ m.surrounding level := by
    rw [← h.frames_closeScopes hsplit, List.length_append, List.length_singleton]
  rw [closeScope_closeScopes]
  rwa [hframes] at hresolved

theorem Nested.resolved_loop (h : Nested m)
    (hfinished : m.finished level = inner ++ frame :: outer) (hkind : frame.kind = .loop) :
    Resolved m (inner.length + 1) (outer ++ m.surrounding level) frame.start m.calls true
      ((closeScopes inner.length m).finishScope frame) := by
  have hclose := h.resolved_close hfinished
  rw [finishScope, if_neg (by simp [hkind])]
  exact { hclose with pointer_eq := rfl, pending_eq := rfl }

theorem Nested.resolved_return (h : Nested m)
    (hfinished : m.finished level = inner ++ frame :: outer) (hkind : frame.kind = .function)
    {position : Nat} {calls : List Nat} (hcalls : m.calls = position :: calls)
    (hinside : position < m.genome.size) :
    Resolved m (inner.length + 1) (outer ++ m.surrounding level) position calls true
      ((closeScopes inner.length m).finishScope frame) := by
  have hreturn : m.returnPosition? = some position := by
    simp [returnPosition?, hcalls, hinside]
  have hclose := h.resolved_close hfinished
  rw [finishScope, if_pos hkind, closeScopes_keeps returnPosition?_closeScope, hreturn,
    closeScopes_keeps calls_closeScope, hcalls, List.tail_cons]
  exact { hclose with pointer_eq := rfl, calls_eq := rfl, pending_eq := rfl }

theorem finishScope_restart (hkind : frame.kind = .function)
    (hcalls : ∀ position ∈ m.calls.head?, m.genome.size ≤ position) (n : Nat) :
    (closeScopes n m).finishScope frame = { m.rewind with pending := true } := by
  have hreturn : m.returnPosition? = none := by
    rw [returnPosition?, Option.filter_eq_none_iff]
    intro position hposition
    simpa using hcalls position hposition
  rw [finishScope, if_pos hkind, closeScopes_keeps returnPosition?_closeScope, hreturn,
    closeScopes_keeps rewind_closeScope]

end Finish

end Machine

open Machine

/-- Reaching an opener on a machine that was used in any way. The finished scopes lie inside those
around the opener. The only fault is that no scope is finished and sixteen are open; it changes
nothing. Otherwise, if all finished scopes just close, the opener opens its scope in their place,
and nothing else moves. If not, the innermost loop or function among them is closed together with
the scopes inside it, and the instruction to go on with is due: the opener of the loop, what follows
the call, or the first one of the genome where there is nowhere to return to. -/
theorem reachable_enterScope {catalog : Catalog} {m : Machine}
    (h : Reachable anyOperation catalog m) (level : Nat) (kind : ScopeKind) :
    m.frames = m.finished level ++ m.surrounding level ∧
      (∀ fault m', enterScope level kind m = .error fault m' ↔
        (m.finished level = [] ∧ m.frames.length = 16) ∧
          fault = .scopeOverflow m.pointer (level + 1) ∧ m' = m) ∧
      (¬(m.finished level = [] ∧ m.frames.length = 16) →
        (∀ frame ∈ m.finished level, frame.kind = .basic ∨ frame.kind = .root) →
        ∃ m', enterScope level kind m = .ok true m' ∧
          Resolved m (m.finished level).length
            (⟨level + 1, kind, m.pointer⟩ :: m.surrounding level) m.pointer m.calls m.pending m') ∧
      ∀ inner frame outer, m.finished level = inner ++ frame :: outer →
        (∀ f ∈ inner, f.kind = .basic ∨ f.kind = .root) →
        (frame.kind = .loop → ∃ m', enterScope level kind m = .ok false m' ∧
          Resolved m (inner.length + 1) (outer ++ m.surrounding level) frame.start m.calls true
            m') ∧
        (frame.kind = .function →
          (∀ position calls, m.calls = position :: calls → position < m.genome.size →
            ∃ m', enterScope level kind m = .ok false m' ∧
              Resolved m (inner.length + 1) (outer ++ m.surrounding level) position calls true
                m') ∧
          ((∀ position ∈ m.calls.head?, m.genome.size ≤ position) →
            enterScope level kind m = .ok false { m.rewind with pending := true })) := by
  have hnested := nested_of_reachable h
  refine ⟨hnested.frames_eq level, fun _ _ => hnested.enterScope_eq_error_iff kind, ?_, ?_⟩
  · intro hroom hsilent
    have hsilent := fun frame hframe => closesSilently_eq_true.mpr (hsilent frame hframe)
    have hlt := hnested.length_surrounding_lt_iff.mpr hroom
    refine ⟨_, (hnested.enterScope_silent kind hsilent).trans (if_pos hlt), ?_⟩
    have hresolved := resolved_closeScopes (m.finished level).length m
    rw [hnested.frames_closeScopes (List.append_nil _).symm] at hresolved
    exact hresolved.openScope (level + 1) kind
  · intro inner frame outer hfinished hinner
    have hinner := fun f hf => closesSilently_eq_true.mpr (hinner f hf)
    have henter (hkind : frame.kind.closesSilently = false) :=
      hnested.enterScope_finishes kind hfinished hinner hkind
    refine ⟨?_, ?_⟩
    · intro hkind
      exact ⟨_, henter (closesSilently_eq_false.mpr (.inl hkind)),
        hnested.resolved_loop hfinished hkind⟩
    · intro hkind
      have henter := henter (closesSilently_eq_false.mpr (.inr hkind))
      refine ⟨?_, ?_⟩
      · intro position calls hcalls hinside
        exact ⟨_, henter, hnested.resolved_return hfinished hkind hcalls hinside⟩
      · intro hcalls
        rw [henter, finishScope_restart hkind hcalls]

/-- A machine with scopes of every kind, not all depths of which are in use. -/
def terraced : Machine :=
  Operation.performAll [.enterScope 0 .loop, .enterScope 2 .function, .pushCall 1,
    .enterScope 4 .basic, .setPointer 2, .enterScope 6 .root, .enterScope 9 .basic]
    (Machine.new .standard #[⟨16, 0, 0, 0⟩, ⟨16, 0, 0, 0⟩, ⟨16, 0, 0, 0⟩])

/-- One opener takes the place of the three scopes inside the function. Another one, less deep than
the function, makes it return. -/
theorem terraced_enterScope :
    terraced.frames = [⟨10, .basic, 2⟩, ⟨7, .root, 2⟩, ⟨5, .basic, 0⟩, ⟨3, .function, 0⟩,
        ⟨1, .loop, 0⟩, .root] ∧
      (∃ m', enterScope 4 .loop terraced = .ok true m' ∧
        m'.frames = [⟨5, .loop, 2⟩, ⟨3, .function, 0⟩, ⟨1, .loop, 0⟩, .root]) ∧
      ∃ m', enterScope 1 .basic terraced = .ok false m' ∧
        m'.frames = [⟨1, .loop, 0⟩, .root] ∧ m'.pointer = 1 ∧ m'.calls = [] := by
  have hreachable : Reachable anyOperation .standard terraced :=
    (Reachable.new _).performAll fun _ _ _ => trivial
  obtain ⟨_, _, hopen, _⟩ := reachable_enterScope hreachable 4 .loop
  obtain ⟨_, _, _, hfinish⟩ := reachable_enterScope hreachable 1 .basic
  have hfinished : terraced.finished 1 =
      [⟨10, .basic, 2⟩, ⟨7, .root, 2⟩, ⟨5, .basic, 0⟩] ++ ⟨3, .function, 0⟩ :: [] := by decide
  obtain ⟨m, hm, hmeant⟩ := hopen (by decide) (by decide)
  obtain ⟨m', hm', hreturned⟩ :=
    ((hfinish _ _ _ hfinished (by decide)).2 rfl).1 1 [] (by decide) (by decide)
  refine ⟨by decide, ⟨m, hm, ?_⟩, ⟨m', hm', ?_, hreturned.pointer_eq, hreturned.calls_eq⟩⟩
  · rw [hmeant.frames_eq]
    decide
  · rw [hreturned.frames_eq]
    decide

end GenomeMachine
