import GenomeMachine.Proofs.Dispatch.Disguise
import GenomeMachine.Proofs.Run.Effects

/-! # What traits decide

The only trait a machine looks at is the halting trait, and a run looks at it before each step.
Machines that differ in their traits alone and agree on whether the turn has ended are `Twins`.
Whatever is done to twins, they give the same answers and stay twins. -/

namespace GenomeMachine

namespace Machine

/-- The machine with other traits. -/
def withTraits (traits : Array Float) (m : Machine) : Machine :=
  { m with traits := traits }

/-- Other traits as a disguise. -/
def retraiting (traits : Array Float) : Disguise where
  genome _ g := g
  traits _ := traits

theorem fits_retraiting (traits : Array Float) (c : Catalog) : (retraiting traits).Fits c :=
  fun _ => rfl

/-! ## Instructions -/

/-- Only the end of a turn has to do with traits. -/
theorem dataApply_withTraits {op : DataOp} (hop : op ≠ .endTurn) (i : Instruction) (m : Machine)
    (traits : Array Float) :
    op.apply i (m.withTraits traits) = (op.apply i m).map (withTraits traits) := by
  cases op with
  | endTurn => contradiction
  | divide op =>
      simp only [DataOp.apply, map_bind_eq]
      refine bind_congr fun a => bind_congr fun b => bind_congr fun target => ?_
      change (if m.register b == 0.0 then _ else _) = _
      split <;> rfl
  | _ =>
      simp only [DataOp.apply, map_bind_eq]
      rfl

theorem dispatch_withTraits {i : Instruction} {m : Machine}
    (hop : m.opcode? i ≠ some (.data .endTurn)) (traits : Array Float) :
    dispatch i (m.withTraits traits) = onMachine (withTraits traits) (dispatch i m) := by
  have hcatalog : (m.withTraits traits).catalog = m.catalog := rfl
  simp only [dispatch, hcatalog]
  cases hentry : m.catalog.entry? i.id with
  | none => rfl
  | some e =>
      cases hcode : e.opcode with
      | data op =>
          have hend : op ≠ .endTurn := by
            rintro rfl
            exact hop (by rw [opcode?, hentry, Option.map_some, hcode])
          simp only [hcode, Opcode.perform, dataApply_withTraits hend]
          cases op.apply i m <;> rfl
      | control op =>
          simp only [hcode, Opcode.perform]
          exact controlPerform_disguise (fits_retraiting traits _) op i

theorem dispatch_endTurn {i : Instruction} {m : Machine}
    (hop : m.opcode? i = some (.data .endTurn)) : dispatch i m = .ok () m.endTurn := by
  obtain ⟨e, hentry, hcode⟩ := Option.map_eq_some_iff.mp hop
  simp only [dispatch, hentry, hcode]
  rfl

/-! ## Twins -/

/-- Two machines that differ in their traits only, and agree on whether the turn has ended. Both
have a halting trait, so that no trait that is added becomes it. -/
structure Twins (m n : Machine) : Prop where
  eq_withTraits : n = m.withTraits n.traits
  halted_eq : n.halted = m.halted
  haltTrait_lt : haltTrait < m.traits.size
  haltTrait_lt' : haltTrait < n.traits.size

theorem size_traits_le_setTrait (m : Machine) (k : Nat) (value : Float) :
    m.traits.size ≤ (m.setTrait k value).traits.size := by
  simp [setTrait]

theorem halted_pushTrait {m : Machine} (h : haltTrait < m.traits.size) (value : Float) :
    (m.pushTrait value).halted = m.halted := by
  rw [halted, halted, traitValue, traitValue, pushTrait, Array.getElem?_push_lt h,
    Array.getElem?_eq_getElem h]

/-- The same answer or fault, and twins. -/
inductive Agree {α : Type} :
    EStateM.Result Fault Machine α → EStateM.Result Fault Machine α → Prop where
  | ok {m n : Machine} (a : α) (h : Twins m n) : Agree (.ok a m) (.ok a n)
  | error {m n : Machine} (fault : Fault) (h : Twins m n) :
      Agree (.error fault m) (.error fault n)

section Agree

variable {α : Type} {r s : EStateM.Result Fault Machine α}

theorem Agree.after (h : Agree r s) : Twins (after r) (after s) := by
  cases h <;> assumption

theorem Agree.answer (h : Agree r s) (tell : α → Answer) :
    Answer.ofResult tell s = Answer.ofResult tell r := by
  cases h <;> rfl

theorem Agree.exists_ok {a : α} {m : Machine} (h : Agree (.ok a m) s) :
    ∃ n, s = .ok a n ∧ Twins m n := by
  cases h with
  | ok _ htwins => exact ⟨_, rfl, htwins⟩

theorem Agree.exists_error {fault : Fault} {m : Machine} (h : Agree (.error fault m) s) :
    ∃ n, s = .error fault n ∧ Twins m n := by
  cases h with
  | error _ htwins => exact ⟨_, rfl, htwins⟩

end Agree

theorem Twins.refl {m : Machine} (h : haltTrait < m.traits.size) : Twins m m :=
  ⟨rfl, rfl, h, h⟩

section Twins

variable {m n : Machine} (h : Twins m n)
include h

/-- What happens to one twin happens to the other, as long as the traits stay. -/
theorem Twins.of_traits_eq {m' : Machine} (htraits : m'.traits = m.traits) :
    Twins m' (m'.withTraits n.traits) where
  eq_withTraits := rfl
  halted_eq := by
    have hhalted : m'.halted = m.halted := by rw [halted, halted, traitValue, traitValue, htraits]
    exact h.halted_eq.trans hhalted.symm
  haltTrait_lt := htraits ▸ h.haltTrait_lt
  haltTrait_lt' := h.haltTrait_lt'

/-- Twins agree on an action that commutes with a change of traits. -/
theorem Twins.agree {α : Type} {f : Machine → EStateM.Result Fault Machine α}
    (hf : ∀ traits, f (m.withTraits traits) = onMachine (withTraits traits) (f m)) :
    Agree (f m) (f n) := by
  -- Putting the traits back that the machine has anyway, the action is seen to keep them.
  have htraits : (after (f m)).traits = m.traits := by
    have hsame := congrArg (fun r => (after r).traits) (hf m.traits)
    rw [after_onMachine] at hsame
    exact hsame
  rw [h.eq_withTraits, hf]
  cases hresult : f m with
  | ok a next =>
      rw [hresult] at htraits
      exact .ok a (h.of_traits_eq htraits)
  | error fault next =>
      rw [hresult] at htraits
      exact .error fault (h.of_traits_eq htraits)

theorem Twins.map {f : Machine → Machine}
    (hf : ∀ traits, f (m.withTraits traits) = (f m).withTraits traits) : Twins (f m) (f n) :=
  (h.agree (f := fun m => .ok () (f m))
    fun traits => congrArg (EStateM.Result.ok ()) (hf traits)).after

/-- What does not depend on the traits is the same for twins. -/
theorem Twins.congr {β : Type} (f : Machine → β)
    (hf : ∀ traits, f (m.withTraits traits) = f m) : f n = f m := by
  rw [h.eq_withTraits, hf]

theorem Twins.setTrait (k : Nat) (value : Float) :
    Twins (m.setTrait k value) (n.setTrait k value) where
  eq_withTraits := h.congr (withTraits (n.setTrait k value).traits) fun _ => rfl
  halted_eq := by
    have hvalue := h.halted_eq
    simp only [halted, traitValue_setTrait] at hvalue ⊢
    split
    · rfl
    · exact hvalue
  haltTrait_lt := Nat.lt_of_lt_of_le h.haltTrait_lt (size_traits_le_setTrait m k value)
  haltTrait_lt' := Nat.lt_of_lt_of_le h.haltTrait_lt' (size_traits_le_setTrait n k value)

theorem Twins.pushTrait (value : Float) : Twins (m.pushTrait value) (n.pushTrait value) where
  eq_withTraits := h.congr (withTraits (n.pushTrait value).traits) fun _ => rfl
  halted_eq := by
    rw [halted_pushTrait h.haltTrait_lt, halted_pushTrait h.haltTrait_lt', h.halted_eq]
  haltTrait_lt := by
    simpa [Machine.pushTrait] using Nat.lt_succ_of_lt h.haltTrait_lt
  haltTrait_lt' := by
    simpa [Machine.pushTrait] using Nat.lt_succ_of_lt h.haltTrait_lt'

/-! ## Steps of twins -/

theorem Twins.agree_dispatch (i : Instruction) : Agree (dispatch i m) (dispatch i n) := by
  by_cases hop : m.opcode? i = some (.data .endTurn)
  · have hop' : n.opcode? i = some (.data .endTurn) := (h.congr (opcode? · i) fun _ => rfl).trans hop
    rw [dispatch_endTurn hop, dispatch_endTurn hop']
    exact .ok () (h.setTrait haltTrait 1.0)
  · exact h.agree (dispatch_withTraits hop)

theorem Twins.dispatch_ok {i : Instruction} {m' : Machine} (hdispatch : dispatch i m = .ok () m') :
    ∃ n', dispatch i n = .ok () n' ∧ Twins m' n' := by
  have hagree := h.agree_dispatch i
  rw [hdispatch] at hagree
  exact hagree.exists_ok

theorem Twins.dispatch_error {i : Instruction} {m' : Machine} {fault : Fault}
    (hdispatch : dispatch i m = .error fault m') :
    ∃ n', dispatch i n = .error fault n' ∧ Twins m' n' := by
  have hagree := h.agree_dispatch i
  rw [hdispatch] at hagree
  exact hagree.exists_error

theorem Twins.arrive : Twins m.arrive n.arrive :=
  h.map fun traits => arrive_disguise (fits_retraiting traits _)

theorem Twins.pending_eq : n.pending = m.pending :=
  h.congr pending fun _ => rfl

theorem Twins.fetch_eq : n.instruction? n.pointer = m.instruction? m.pointer :=
  h.congr (fun m => m.instruction? m.pointer) fun _ => rfl

end Twins

/-- Twins go through the same chain of instructions. -/
theorem Execution.twins {i : Instruction} {m n : Machine} {log : List Dispatched}
    {result : EStateM.Result Fault Machine Unit} (hchain : Execution i m log result)
    (h : Twins m n) :
    ∃ log' result', Execution i n log' result' ∧ Agree result result' := by
  induction hchain generalizing n with
  | fault hdispatch =>
      obtain ⟨n', hdispatch', htwins⟩ := h.dispatch_error hdispatch
      exact ⟨_, _, .fault hdispatch', .error _ htwins⟩
  | finished hdispatch hpending =>
      obtain ⟨n', hdispatch', htwins⟩ := h.dispatch_ok hdispatch
      exact ⟨_, _, .finished hdispatch' (htwins.pending_eq.trans hpending), .ok () htwins⟩
  | nowhere hdispatch hpending hnone =>
      obtain ⟨n', hdispatch', htwins⟩ := h.dispatch_ok hdispatch
      exact ⟨_, _, .nowhere hdispatch' (htwins.pending_eq.trans hpending)
        (htwins.arrive.fetch_eq.trans hnone), .ok () htwins.arrive⟩
  | again hdispatch hpending hsome _ ih =>
      obtain ⟨n', hdispatch', htwins⟩ := h.dispatch_ok hdispatch
      obtain ⟨log', result', hrest, hresult⟩ := ih htwins.arrive
      exact ⟨_, result', .again hdispatch' (htwins.pending_eq.trans hpending)
        (htwins.arrive.fetch_eq.trans hsome) hrest, hresult⟩

section Steps

variable {m n : Machine} (h : Twins m n)
include h

theorem Twins.agree_execute (i : Instruction) : Agree (execute i m) (execute i n) := by
  have hready : Twins { m with pending := false } { n with pending := false } :=
    h.map (f := fun m => { m with pending := false }) fun _ => rfl
  obtain ⟨log, hlog⟩ := execute_execution i m
  obtain ⟨log', hlog'⟩ := execute_execution i n
  obtain ⟨other, result, hother, hresult⟩ := hlog.twins hready
  rw [(hother.unique hlog').2]
  exact hresult

theorem Twins.agree_step : Agree (step m) (step n) := by
  have hfetch' := h.arrive.fetch_eq
  cases hfetch : m.arrive.instruction? m.arrive.pointer with
  | none =>
      rw [hfetch] at hfetch'
      simp only [step, stepBy, hfetch, hfetch']
      exact .ok () h
  | some i =>
      rw [step_of_arrive hfetch, step_of_arrive (hfetch'.trans hfetch)]
      have hexecute := h.arrive.agree_execute i
      generalize execute i m.arrive = result at hexecute ⊢
      generalize execute i n.arrive = result' at hexecute ⊢
      cases hexecute with
      | ok _ hnext =>
          exact .ok () (hnext.map (f := fun m => { m with pointer := m.pointer + 1 }) fun _ => rfl)
      | error fault hnext => exact .error fault hnext

theorem Twins.agree_runFromBy (done budget : Nat) :
    Agree (runFromBy execute done budget m) (runFromBy execute done budget n) := by
  induction budget generalizing done m n with
  | zero => exact .ok done h
  | succ budget ih =>
      simp only [runFromBy, h.halted_eq]
      by_cases hhalted : m.halted
      · simp only [hhalted, if_true]
        exact .ok done h
      · simp only [hhalted]
        have hstep : Agree (stepBy execute m) (stepBy execute n) := h.agree_step
        generalize stepBy execute m = result at hstep ⊢
        generalize stepBy execute n = result' at hstep ⊢
        cases hstep with
        | ok _ hnext => exact ih hnext (done + 1)
        | error fault hnext => exact .error fault hnext

theorem Twins.agree_run (budget : Nat) : Agree (run budget m) (run budget n) := by
  simp only [run, runBy, h.congr genome fun _ => rfl]
  by_cases hempty : m.genome.isEmpty
  · simp only [hempty, if_true]
    exact .ok 0 h
  · simp only [hempty]
    exact h.agree_runFromBy 0 budget

/-- A machine does not show its traits. -/
theorem Twins.writeState_eq (room : Option Nat) (written : String) :
    n.writeState room written = m.writeState room written :=
  h.congr (writeState room written) fun _ => rfl

theorem Twins.traceFrom (room : Option Nat) (written : String) (count : Nat) :
    (traceFrom room written count n).text = (traceFrom room written count m).text ∧
      (traceFrom room written count n).error = (traceFrom room written count m).error ∧
      Twins (traceFrom room written count m).machine (traceFrom room written count n).machine := by
  induction count generalizing written m n with
  | zero => exact ⟨rfl, rfl, h⟩
  | succ count ih =>
      simp only [Machine.traceFrom, h.writeState_eq]
      split
      · exact ⟨rfl, rfl, h⟩
      · have hstep := h.agree_step
        generalize step m = result at hstep ⊢
        generalize step n = result' at hstep ⊢
        cases hstep with
        | ok _ hnext => exact ih hnext _
        | error fault hnext => exact ⟨rfl, rfl, hnext⟩

end Steps

/-! ## Operations on twins -/

theorem onSlot_withTraits {m : Machine} {traits : Array Float} {f f' : Slot → Machine}
    (hf : ∀ slot, f' slot = (f slot).withTraits traits) (k : Nat) :
    (m.withTraits traits).onSlot k f' = (m.onSlot k f).withTraits traits := by
  simp only [onSlot]
  cases slot? k with
  | none => rfl
  | some slot => exact hf slot

theorem pushNamed_withTraits (m : Machine) (traits : Array Float) (name : String)
    (a b c : UInt16) :
    (m.withTraits traits).pushNamed name a b c =
      ((m.pushNamed name a b c).1, (m.pushNamed name a b c).2.withTraits traits) := by
  have hcatalog : (m.withTraits traits).catalog = m.catalog := rfl
  simp only [pushNamed, hcatalog]
  cases m.catalog.id? name <;> rfl

theorem Twins.onSlot {m n : Machine} (h : Twins m n) {f : Machine → Slot → Machine}
    (hf : ∀ slot traits, f (m.withTraits traits) slot = (f m slot).withTraits traits) (k : Nat) :
    Twins (m.onSlot k (f m)) (n.onSlot k (f n)) :=
  h.map (f := fun m => m.onSlot k (f m)) fun traits => onSlot_withTraits (hf · traits) k

theorem haltTrait_lt_new (catalog : Catalog) (genome : Genome) :
    haltTrait < (new catalog genome).traits.size := by
  simp [new]

theorem reset_eq (m : Machine) : m.reset = new m.catalog #[] := by
  simp only [reset, resetHardware, setTrait, new, List.size_toArray, List.length_nil, Nat.sub_zero,
    Array.empty_append, Array.setIfInBounds_replicate_self]

/-- An operation on twins gives the same answer and leaves twins. -/
theorem Twins.operation {m n : Machine} (h : Twins m n) (op : Operation) :
    op.answer n = op.answer m ∧ Twins (op.perform m) (op.perform n) := by
  cases op with
  | step => exact ⟨h.agree_step.answer _, h.agree_step.after⟩
  | run budget => exact ⟨(h.agree_run budget).answer _, (h.agree_run budget).after⟩
  | execute i => exact ⟨(h.agree_execute i).answer _, (h.agree_execute i).after⟩
  | trace room count =>
      obtain ⟨htext, herror, htwins⟩ := h.traceFrom room "" count
      exact ⟨congrArg₂ Answer.traced htext herror, htwins⟩
  | enterScope level kind =>
      have hagree : Agree (enterScope level kind m) (enterScope level kind n) :=
        h.agree fun traits => enterScope_disguise (fits_retraiting traits _) level kind
      exact ⟨hagree.answer _, hagree.after⟩
  | closeScope => exact ⟨rfl, h.map fun traits => closeScope_disguise (retraiting traits) m⟩
  | leaveScope level =>
      exact ⟨rfl, h.map (f := (leaveScope · level))
        fun traits => leaveScope_disguise (fits_retraiting traits _) level⟩
  | reset =>
      refine ⟨rfl, ?_⟩
      rw [Operation.perform, Operation.perform, reset_eq, reset_eq, h.congr catalog fun _ => rfl]
      exact .refl (haltTrait_lt_new _ _)
  | pushNamed name a b c =>
      refine ⟨?_, h.map (f := fun m => (m.pushNamed name a b c).2) fun traits => ?_⟩
      · refine h.congr (fun m => Answer.named (m.pushNamed name a b c).1) fun traits => ?_
        simp only [pushNamed_withTraits]
      · simp only [pushNamed_withTraits]
  | setRegister register value =>
      exact ⟨rfl, h.onSlot (f := (setRegister · · value)) (fun _ _ => rfl) register⟩
  | setCell block key value =>
      exact ⟨rfl, h.onSlot (f := (setCell · · key value)) (fun _ _ => rfl) block⟩
  | copyBlock source target =>
      refine ⟨rfl, h.onSlot (f := fun m s => m.onSlot target (m.copyBlock s)) ?_ source⟩
      intro s traits
      refine onSlot_withTraits (fun _ => ?_) target
      rfl
  | shiftBlock block distance =>
      exact ⟨rfl, h.onSlot (f := (shiftBlock · · distance)) (fun _ _ => rfl) block⟩
  | setFunction slot position =>
      exact ⟨rfl, h.onSlot (f := (setFunction · · position)) (fun _ _ => rfl) slot⟩
  | pushBackup depth register =>
      exact ⟨rfl, h.onSlot (f := (pushBackup · depth)) (fun _ _ => rfl) register⟩
  | setTrait k value => exact ⟨rfl, h.setTrait k value⟩
  | pushTrait value => exact ⟨rfl, h.pushTrait value⟩
  | endTurn => exact ⟨rfl, h.setTrait haltTrait 1.0⟩
  | _ => exact ⟨rfl, h.map fun _ => rfl⟩

/-- What an operation answered, and the machine after it but for its traits. -/
def forgetTraits (entry : Answer × Machine) : Answer × Machine :=
  (entry.1, entry.2.withTraits #[])

/-- Operations on twins go alike, one after another. -/
theorem Twins.transcript {m n : Machine} (h : Twins m n) (ops : List Operation) :
    (Operation.transcript ops n).map forgetTraits =
      (Operation.transcript ops m).map forgetTraits := by
  induction ops generalizing m n with
  | nil => rfl
  | cons op ops ih =>
      obtain ⟨hanswer, hnext⟩ := h.operation op
      have hmachine : (op.perform n).withTraits #[] = (op.perform m).withTraits #[] :=
        hnext.congr (withTraits #[]) fun _ => rfl
      simp only [Operation.transcript, List.map_cons, forgetTraits, hanswer, hmachine, ih hnext]

end Machine

end GenomeMachine
