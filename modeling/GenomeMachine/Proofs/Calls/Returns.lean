import GenomeMachine.Proofs.Run.Provenance

/-! # Returning from functions

Function scopes and return positions are kept on two stacks, which different operations push and
pop. `dispatch_callChange` says how one instruction changes the pair of them. In a genome without
breaks the two stacks stay aligned, so every function returns to where it was called. -/

namespace GenomeMachine

namespace Machine

/-- The function scopes that are open, the innermost first. -/
def functionFrames (m : Machine) : List Frame :=
  m.frames.filter (·.kind = .function)

/-- An instruction breaks out of a function: the function scope closes, and nothing else notices. -/
def Abandons (i : Instruction) (m : Machine) : Prop :=
  m.opcode? i = some (.control .leave) ∧ m.innermost.kind = .function ∧
    i.first.toNat < m.innermost.depth

/-! ## Function scopes that close and open -/

section FunctionFrames

variable {m m' : Machine}

theorem functionFrames_congr (h : m'.opened = m.opened) :
    m'.functionFrames = m.functionFrames := by
  rw [functionFrames, functionFrames, frames, frames, h]

/-- One more scope counts if it is a function scope. -/
theorem functionFrames_cons {frame : Frame} (h : m.opened = frame :: m'.opened) :
    m.functionFrames =
      if frame.kind = .function then frame :: m'.functionFrames else m'.functionFrames := by
  rw [functionFrames, functionFrames, frames, frames, h, List.cons_append, List.filter_cons]
  simp

theorem functionFrames_closeScope (h : m.innermost.kind ≠ .function) :
    m.closeScope.functionFrames = m.functionFrames := by
  cases hopened : m.opened with
  | nil => exact functionFrames_congr (by simp [hopened])
  | cons frame rest =>
      have hkind : frame.kind ≠ .function := by simpa [innermost, hopened] using h
      have hcons : m.opened = frame :: m.closeScope.opened := by simp [hopened]
      rw [functionFrames_cons hcons, if_neg hkind]

theorem functionFrames_closeFinished (m : Machine) (level : Nat) :
    (m.closeFinished level).functionFrames = m.functionFrames := by
  refine closeFinished_induction (P := fun n => n.functionFrames = m.functionFrames) level ?_ rfl
  intro n hsilent hn
  refine (functionFrames_closeScope ?_).trans hn
  rintro hkind
  simp [hkind, ScopeKind.closesSilently] at hsilent

theorem functionFrames_openScope (m : Machine) (depth : Nat) (kind : ScopeKind) :
    (m.openScope depth kind).functionFrames =
      if kind = .function then ⟨depth, kind, m.pointer⟩ :: m.functionFrames
      else m.functionFrames := by
  have hopened : (m.openScope depth kind).opened = ⟨depth, kind, m.pointer⟩ :: m.opened := rfl
  exact functionFrames_cons hopened

end FunctionFrames

/-! ## One instruction -/

/-- How an instruction changes the return positions and the function scopes. -/
inductive CallChange (i : Instruction) (m m' : Machine) : Prop where
  | keep (hcalls : m'.calls = m.calls) (hframes : m'.functionFrames = m.functionFrames)
  | call (frame : Frame) (hcalls : m'.calls = (frame.start + 1) :: m.calls)
      (hframes : m'.functionFrames = frame :: m.functionFrames)
  | back (position : Nat) (frame : Frame) (hcalls : m.calls = position :: m'.calls)
      (hframes : m.functionFrames = frame :: m'.functionFrames)
  | clear (hcalls : m'.calls = []) (hframes : m'.functionFrames = [])
  | abandon (habandon : Abandons i m) (hcalls : m'.calls = m.calls)
      (hframes : m.functionFrames = m.innermost :: m'.functionFrames)

section Instructions

variable {i : Instruction} {m : Machine}

theorem callChange_leave (hop : m.opcode? i = some (.control .leave)) :
    CallChange i m (m.leaveScope i.first.toNat) := by
  by_cases hdepth : i.first.toNat < m.innermost.depth
  · have hframes := functionFrames_cons (opened_eq_cons_leaveScope hdepth)
    by_cases hkind : m.innermost.kind = .function
    · rw [if_pos hkind] at hframes
      exact .abandon ⟨hop, hkind, hdepth⟩ (calls_leaveScope m _) hframes
    · rw [if_neg hkind] at hframes
      exact .keep (calls_leaveScope m _) hframes.symm
  · rw [leaveScope_of_le (Nat.le_of_not_lt hdepth)]
    exact .keep rfl rfl

theorem Finishes.functionFrames_eq {frame : Frame} {closed : Machine}
    (h : Finishes i m frame closed) : closed.functionFrames = m.functionFrames := by
  cases h
  exact functionFrames_closeFinished m _

theorem callChange_finish {frame : Frame} {closed : Machine} (h : Finishes i m frame closed) :
    CallChange i m (closed.finishScope frame) := by
  have hcons := functionFrames_cons h.opened_eq
  rw [h.functionFrames_eq] at hcons
  unfold finishScope
  split
  next hkind =>
    rw [if_pos hkind] at hcons
    split
    next position hposition =>
      obtain ⟨rest, hrest⟩ := List.head?_eq_some_iff.mp (Option.filter_eq_some_iff.mp hposition).1
      refine .back position frame ?_ hcons
      rw [← h.calls_eq, hrest]
      rfl
    next => exact .clear rfl rfl
  next hkind =>
    rw [if_neg hkind] at hcons
    exact .keep (by simpa using h.calls_eq) hcons.symm

theorem calls_startGuarded (guard : Guard) (test : Slot) (level : Nat) (m : Machine) :
    (startGuarded guard test level m).calls = m.calls := by
  unfold startGuarded
  split
  · simp
  · split <;> rfl

/-- A guarded scope is none of a function, whether its body runs or not. -/
theorem functionFrames_startGuarded (guard : Guard) (test : Slot) (m : Machine) (level : Nat) :
    (startGuarded guard test level (m.openScope (level + 1) guard.kind)).functionFrames =
      m.functionFrames := by
  have hkind : guard.kind ≠ .function := by cases guard <;> simp [Guard.kind]
  have hopened := startGuarded_openScope guard test m guard.kind (Nat.lt_succ_self level)
  split at hopened
  · exact functionFrames_congr hopened.2
  · rw [functionFrames_cons hopened, if_neg hkind]

theorem callChange_enter {level : Nat} {kind : ScopeKind} {body : Machine → Machine}
    (hreach : Reaches i m level kind body) :
    CallChange i m (body ((m.closeFinished level).openScope (level + 1) kind)) := by
  have hcalls := calls_closeFinished m level
  have hframes := functionFrames_closeFinished m level
  cases hreach with
  | guarded hop htest =>
      refine .keep ((calls_startGuarded ..).trans hcalls) ?_
      exact (functionFrames_startGuarded ..).trans hframes
  | block hop =>
      refine .keep hcalls ?_
      exact (functionFrames_openScope ..).trans ((if_neg (by decide)).trans hframes)
  | define hop hslot =>
      -- A definition leaves its own scope at once.
      refine .keep ((calls_leaveScope ..).trans hcalls) ?_
      refine (functionFrames_congr ?_).trans hframes
      exact opened_leaveScope (Nat.lt_succ_self _)
  | call hop htarget =>
      have hpointer := pointer_closeFinished m level
      refine .call ⟨level + 1, .function, m.pointer⟩ ?_ ?_
      · rw [← hcalls, ← hpointer]
        rfl
      · rw [← hframes, ← hpointer]
        exact functionFrames_openScope ..

/-- Every instruction changes the two stacks in one of these ways. -/
theorem dispatch_callChange (i : Instruction) (m : Machine) :
    CallChange i m (after (dispatch i m)) := by
  have houtcome := dispatch_outcome i m
  generalize dispatch i m = result at houtcome ⊢
  cases houtcome with
  | refused fault => exact .keep rfl rfl
  | worked | ignored => exact .keep rfl rfl
  | left hop => exact callChange_leave hop
  | full hreach hdepth hfull =>
      exact .keep (calls_closeFinished m _) (functionFrames_closeFinished m _)
  | finished hfinish => exact callChange_finish hfinish
  | entered hreach hdepth hroom => exact callChange_enter hreach

end Instructions

/-! ## Aligned stacks -/

/-- Every open function has its return position on the stack of calls, and there are no others. -/
def Aligned (m : Machine) : Prop :=
  m.calls = m.functionFrames.map (·.start + 1)

theorem aligned_initial (genome : Genome) (inputs : Cells) : Aligned (initial genome inputs) := by
  simp [Aligned, functionFrames, frames, initial, new, Frame.root]

theorem phases_aligned : Phases Aligned Aligned where
  arrive m h := by
    unfold arrive
    split
    · rfl
    · exact h
  rest _ h := h
  advance _ h := h

/-- Only breaking out of a function takes the stacks out of alignment. -/
theorem Aligned.dispatch {i : Instruction} {m : Machine} (h : Aligned m)
    (habandons : ¬Abandons i m) : Aligned (after (Machine.dispatch i m)) := by
  unfold Aligned at h ⊢
  cases dispatch_callChange i m with
  | keep hcalls hframes => rw [hcalls, hframes, h]
  | call frame hcalls hframes => rw [hcalls, hframes, h, List.map_cons]
  | back position frame hcalls hframes =>
      rw [hcalls, hframes, List.map_cons] at h
      exact (List.cons.inj h).2
  | clear hcalls hframes => rw [hcalls, hframes, List.map_nil]
  | abandon habandon => exact absurd habandon habandons

theorem Aligned.length_le {m : Machine} (h : Aligned m) (hnested : Nested m) :
    m.calls.length ≤ 15 := by
  have hframes : m.functionFrames.length ≤ m.opened.length := by
    rw [functionFrames, frames, List.filter_append]
    simpa [Frame.root] using List.length_filter_le _ m.opened
  have hlength := hnested.length_le
  rw [length_frames] at hlength
  rw [h, List.length_map]
  omega

/-- The return position of a function that is finished is on top. -/
theorem Aligned.head_calls {i : Instruction} {m closed : Machine} {frame : Frame} (h : Aligned m)
    (hfinish : Finishes i m frame closed) (hkind : frame.kind = .function) :
    closed.calls.head? = some (frame.start + 1) := by
  have hcons := functionFrames_cons hfinish.opened_eq
  rw [if_pos hkind, hfinish.functionFrames_eq] at hcons
  rw [hfinish.calls_eq, h, hcons]
  rfl

/-- Nothing in a genome without breaks abandons a function. -/
theorem not_abandons {genome : Genome} (hleave : ∀ i ∈ genome, ¬i.Performs .leave)
    {inputs : Cells} {n : Nat} {d : Dispatched} (hd : Carries (stateAt genome inputs n) d) :
    ¬Abandons d.instruction d.machine := by
  rintro ⟨hop, _⟩
  have hprovenance := (provenance_stateAt genome inputs n).2 d hd
  have hfetch := hd.fetched.2
  rw [instruction?, hprovenance.genome_eq] at hfetch
  exact hleave _ (Array.mem_of_getElem? hfetch) ((opcode?_eq_iff hprovenance.catalog_eq).mp hop)

theorem finishScope_function {m : Machine} {frame : Frame} {position : Nat}
    (hkind : frame.kind = .function) (hhead : m.calls.head? = some position) :
    m.finishScope frame =
      if position < m.genome.size then
        { m.closeScope with pointer := position, calls := m.calls.tail, pending := true }
      else { m.rewind with pending := true } := by
  have hreturn : m.returnPosition? = if position < m.genome.size then some position else none := by
    simp [returnPosition?, hhead, Option.filter]
  by_cases hinside : position < m.genome.size
  · simp only [finishScope, if_pos hkind, hreturn, if_pos hinside]
  · simp only [finishScope, if_pos hkind, hreturn, if_neg hinside]

end Machine

open Machine

/-- In a genome without breaks the return positions are always those behind the calls that opened
the function scopes, so there are never more than fifteen of them. A function that is finished has
its return position, and that is the one right behind its own call, unless the genome ends there:
then the machine goes back to the start and out of everything. -/
theorem stateAt_calls {genome : Genome} (hleave : ∀ i ∈ genome, ¬i.Performs .leave)
    (inputs : Cells) (n : Nat) :
    (stateAt genome inputs n).calls =
        (stateAt genome inputs n).functionFrames.map (·.start + 1) ∧
      (stateAt genome inputs n).calls.length ≤ 15 ∧
      ∀ d frame closed, Carries (stateAt genome inputs n) d →
        Finishes d.instruction d.machine frame closed → frame.kind = .function →
        (∃ call, genome[frame.start]? = some call ∧ call.Performs .call) ∧
          closed.calls.head? = some (frame.start + 1) ∧
          dispatch d.instruction d.machine = .ok ()
            (if frame.start + 1 < genome.size then
              { closed.closeScope with
                pointer := frame.start + 1, calls := closed.calls.tail, pending := true }
            else { closed.rewind with pending := true }) := by
  have haligned := stateAt_preserve phases_aligned (aligned_initial genome inputs)
    (fun _ d hd h => h.dispatch (not_abandons hleave hd)) n
  refine ⟨haligned.1, haligned.1.length_le (nested_of_reachable (reachable_stateAt ..)), ?_⟩
  intro d frame closed hd hfinish hkind
  have hhead := (haligned.2 d hd).head_calls hfinish hkind
  have hclosed := hfinish.induction (fun _ _ hn => hn.closeScope)
    ((provenance_stateAt genome inputs n).2 d hd)
  obtain ⟨call, hcall, hopens⟩ := hclosed.frames frame (hfinish.opened_eq ▸ List.mem_cons_self)
  refine ⟨⟨call, hcall, hopens.performs_of_function hkind⟩, hhead, ?_⟩
  rw [hfinish.dispatch_eq, finishScope_function hkind hhead, hclosed.genome_eq]

/-- A function that counts in register 1, and a call of it with an instruction behind. -/
def callOnce : Genome :=
  #[⟨17, 0, 0, 0⟩, ⟨0, 0, 0, 0⟩, ⟨0, 1, 0, 0⟩, outermostScope, ⟨18, 0, 0, 0⟩, ⟨0, 2, 0, 0⟩]

/-- The machine that has come to the end of the function. -/
def callOnceEnd : Machine :=
  stateAt callOnce ∅ 4

theorem callOnceEnd_opened :
    callOnceEnd.calls = [5] ∧
      callOnceEnd.arrive.instruction? callOnceEnd.arrive.pointer = some outermostScope ∧
      callOnceEnd.arrive.opcode? outermostScope = some (.control .block) ∧
      (callOnceEnd.arrive.closeFinished 0).innermost = ⟨1, .function, 4⟩ := by
  decide +kernel

theorem callOnceEnd_finishes :
    Finishes outermostScope callOnceEnd.arrive ⟨1, .function, 4⟩
      (callOnceEnd.arrive.closeFinished 0) := by
  obtain ⟨_, _, hop, hinnermost⟩ := callOnceEnd_opened
  exact (Reaches.block hop).finishes hinnermost Nat.one_pos rfl

/-- The function returns to the instruction behind its call. -/
theorem callOnce_calls :
    (∀ i ∈ callOnce, ¬i.Performs .leave) ∧ callOnceEnd.calls = [5] ∧
      Carries callOnceEnd ⟨callOnceEnd.arrive, outermostScope⟩ ∧
      ∃ next, dispatch outermostScope callOnceEnd.arrive = .ok () next ∧ next.pointer = 5 := by
  obtain ⟨hcalls, hfetch, _, _⟩ := callOnceEnd_opened
  have hleave : ∀ i ∈ callOnce, ¬i.Performs .leave := by
    simp only [performs_iff]
    decide
  obtain ⟨_, _, hreturn⟩ := stateAt_calls hleave ∅ 4
  have hreturn := hreturn ⟨_, _⟩ ⟨1, .function, 4⟩ (callOnceEnd.arrive.closeFinished 0)
    (carries_first hfetch)
  dsimp only at hreturn
  obtain ⟨_, _, hnext⟩ := hreturn callOnceEnd_finishes rfl
  exact ⟨hleave, hcalls, carries_first hfetch, _, hnext, rfl⟩

end GenomeMachine
