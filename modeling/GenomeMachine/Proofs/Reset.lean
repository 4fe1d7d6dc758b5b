import GenomeMachine.Proofs.Run.Failure
import GenomeMachine.Proofs.Traits

/-! # Resets

After a reset nothing is left of what a machine went through: it is a new machine, and whatever is
done to it gives what it would give on a new one. Resetting the hardware keeps the genome and the
traits. -/

namespace GenomeMachine

/-! ## The catalog stays -/

namespace Machine

theorem phases_catalog (c : Catalog) : Phases (·.catalog = c) (·.catalog = c) where
  arrive m hm := (catalog_arrive m).trans hm
  rest _ hm := hm
  advance _ hm := hm

theorem catalog_execute (i : Instruction) (m : Machine) :
    (after (execute i m)).catalog = m.catalog := by
  obtain ⟨log, hlog⟩ := execute_execution i m
  refine (hlog.preserve (phases_catalog m.catalog) ?_ rfl).1
  intro d _ hd
  exact (catalog_dispatch d.instruction d.machine).trans hd

theorem catalog_step (m : Machine) : (after (step m)).catalog = m.catalog := by
  refine (step_preserve (phases_catalog m.catalog) ?_ rfl).1
  intro d _ hd
  exact (catalog_dispatch d.instruction d.machine).trans hd

theorem catalog_onSlot {m : Machine} {f : Slot → Machine}
    (hf : ∀ slot, (f slot).catalog = m.catalog) (k : Nat) : (m.onSlot k f).catalog = m.catalog := by
  unfold onSlot
  split
  · exact hf _
  · rfl

end Machine

open Machine

theorem catalog_operation (op : Operation) (m : Machine) :
    (op.perform m).catalog = m.catalog := by
  cases op with
  | step => exact catalog_step m
  | run budget => exact run_preserve (fun n hn => (catalog_step n).trans hn) budget rfl
  | execute i => exact catalog_execute i m
  | trace room count =>
      exact traceFrom_preserve (fun n hn => (catalog_step n).trans hn) room "" count rfl
  | enterScope level kind => exact catalog_enterScope m level kind
  | closeScope => exact catalog_closeScope m
  | leaveScope level => exact catalog_leaveScope m level
  | pushNamed name a b c =>
      simp only [Operation.perform, pushNamed]
      split <;> rfl
  | setRegister register _ | pushBackup _ register =>
      refine catalog_onSlot (fun _ => ?_) register
      rfl
  | setCell block _ _ | shiftBlock block _ =>
      refine catalog_onSlot (fun _ => ?_) block
      rfl
  | copyBlock source target =>
      refine catalog_onSlot (fun _ => catalog_onSlot (fun _ => ?_) target) source
      rfl
  | setFunction slot _ =>
      refine catalog_onSlot (fun _ => ?_) slot
      rfl
  | reset =>
      rw [Operation.perform, reset_eq]
      rfl
  | loadBoard => simp only [Operation.perform, loadBoard]
  | _ => rfl

/-! ## Traits set one by one -/

theorem setTrait_append {m : Machine} {front rest : List Float}
    (htraits : m.traits = (front ++ rest).toArray) (value : Float) :
    m.setTrait front.length value = m.withTraits (front ++ value :: rest.tail).toArray := by
  have hset : (m.setTrait front.length value).traits = (front ++ value :: rest.tail).toArray := by
    cases rest <;> simp [setTrait, htraits]
  exact congrArg (withTraits · m) hset

/-- The operations that set traits to these values, from a number on. -/
def settingTraits : List Float → Nat → List Operation
  | [], _ => []
  | value :: values, n => .setTrait n value :: settingTraits values (n + 1)

theorem performAll_settingTraits {values front rest : List Float} {m : Machine}
    (htraits : m.traits = (front ++ rest).toArray) :
    Operation.performAll (settingTraits values front.length) m =
      m.withTraits (front ++ values ++ rest.drop values.length).toArray := by
  induction values generalizing front rest m with
  | nil =>
      simp only [List.append_nil, List.length_nil, List.drop_zero, ← htraits]
      rfl
  | cons value values ih =>
      have hset := setTrait_append htraits value
      have hsplit : (m.setTrait front.length value).traits =
          ((front ++ [value]) ++ rest.tail).toArray := by
        rw [hset, List.append_assoc]
        rfl
      have hall := ih hsplit
      rw [List.length_append, List.length_singleton, hset] at hall
      rw [settingTraits, Operation.performAll, List.foldl_cons, Operation.perform, hset]
      refine hall.trans ?_
      simp [withTraits]

/-- A new machine can be given any traits that include a halting trait. -/
theorem performAll_settingTraits_new {catalog : Catalog} {genome : Genome} {traits : Array Float}
    (hhalt : haltTrait < traits.size) :
    Operation.performAll (settingTraits traits.toList 0) (.new catalog genome) =
      (Machine.new catalog genome).withTraits traits := by
  have hsplit : (Machine.new catalog genome).traits =
      ([] ++ (Machine.new catalog genome).traits.toList).toArray := by
    rw [List.nil_append]
  have hnothing : (Machine.new catalog genome).traits.toList.drop traits.toList.length = [] := by
    apply List.drop_eq_nil_of_le
    simpa [Machine.new] using Nat.succ_le_of_lt hhalt
  refine (performAll_settingTraits hsplit).trans ?_
  rw [hnothing, List.nil_append, List.append_nil]

/-- A machine keeps the catalog that it was made with, and always has a halting trait. -/
theorem kept_of_reachable {allowed : Machine → Operation → Prop} {catalog : Catalog} {m : Machine}
    (h : Reachable allowed catalog m) : m.catalog = catalog ∧ haltTrait < m.traits.size := by
  induction h with
  | new genome => exact ⟨rfl, haltTrait_lt_new catalog genome⟩
  | perform op _ _ ih =>
      have htwins := ((Twins.refl ih.2).operation op).2
      exact ⟨(catalog_operation op _).trans ih.1, htwins.haltTrait_lt⟩

/-! ## After a reset -/

theorem resetHardware_eq (m : Machine) :
    m.resetHardware = (Machine.new m.catalog m.genome).withTraits m.traits := rfl

theorem halted_new (catalog : Catalog) (genome : Genome) :
    (Machine.new catalog genome).halted = false := by
  have hzero : (0.0 == (1.0 : Float)) = false := by decide +kernel
  rw [halted, traitValue, Machine.new, Array.getElem?_replicate, if_pos (Nat.lt_succ_self haltTrait),
    Option.getD_some, hzero]

/-- A run that is cut short from the start can be told from one that is not. -/
theorem run_ne_of_halted {m n : Machine} (hm : m.halted = true) (hn : n.halted = false)
    (hgenome : n.genome.isEmpty = false) :
    (Operation.run 1).answer n ≠ (Operation.run 1).answer m := by
  have hstays : (Operation.run 1).answer m = .counted 0 := by
    simp [Operation.answer, run, runBy, runFromBy, hm, Answer.ofResult]
  rw [hstays]
  simp only [Operation.answer, run, runBy, hgenome, runFromBy, hn]
  cases stepBy execute n <;> simp [Answer.ofResult]

theorem twins_resetHardware {m : Machine} (hhalt : haltTrait < m.traits.size)
    (hhalted : m.halted = false) : Twins (.new m.catalog m.genome) m.resetHardware where
  eq_withTraits := resetHardware_eq m
  halted_eq := hhalted.trans (halted_new m.catalog m.genome).symm
  haltTrait_lt := haltTrait_lt_new _ _
  haltTrait_lt' := hhalt

/-- A reset machine is a new machine with an empty genome. With its hardware reset it is a new
machine with the same genome and the same traits. So everything that follows, each answer and each
machine, is as after the making of such a machine. Where the kept traits do not say that the turn
has ended, and only there, it is also as for a new machine that has not been given the traits, the
traits themselves aside. -/
theorem reachable_reset {catalog : Catalog} {m : Machine}
    (h : Reachable anyOperation catalog m) :
    m.reset = .new catalog #[] ∧
      m.resetHardware = (Machine.new catalog m.genome).withTraits m.traits ∧
      m.resetHardware.frames = m.frames.drop (m.frames.length - 1) ∧
      (∀ ops, Operation.transcript ops m.reset = Operation.transcript ops (.new catalog #[])) ∧
      (∀ ops, Operation.transcript ops m.resetHardware =
        Operation.transcript ops
          (Operation.performAll (settingTraits m.traits.toList 0) (.new catalog m.genome))) ∧
      (m.halted = false ↔
        ∀ ops, (Operation.transcript ops m.resetHardware).map forgetTraits =
          (Operation.transcript ops (.new catalog m.genome)).map forgetTraits) := by
  obtain ⟨rfl, hhalt⟩ := kept_of_reachable h
  have hreset := reset_eq m
  refine ⟨hreset, resetHardware_eq m, by simp [frames, resetHardware], ?_, ?_, ?_⟩
  · intro ops
    rw [hreset]
  · intro ops
    rw [performAll_settingTraits_new hhalt, resetHardware_eq]
  · constructor
    · intro hhalted ops
      exact (twins_resetHardware hhalt hhalted).transcript ops
    · intro hall
      cases hhalted : m.halted with
      | false => rfl
      | true =>
          -- With an instruction to carry out, a single step of a run tells the two apart.
          have hpair := hall [.pushInstruction ⟨0, 0, 0, 0⟩, .run 1]
          simp only [Operation.transcript, List.map_cons, List.cons.injEq, forgetTraits,
            Prod.mk.injEq] at hpair
          refine absurd hpair.2.1.1.symm (run_ne_of_halted hhalted (halted_new ..) ?_)
          simp [Operation.perform, pushInstruction]

/-- A catalog with a single entry. -/
def counter : Catalog :=
  Catalog.empty.registerAll [⟨"Inc", .data .increment, 1, "", none⟩]

/-- A machine between a step that went well and one that fails. -/
def halfway : Machine :=
  Operation.performAll [.pushInstruction ⟨0, 99, 0, 0⟩, .step] (.new counter #[⟨0, 3, 0, 0⟩])

/-- A machine after all kinds of operations, a failed step among them, with an instruction due. -/
def worn : Machine :=
  Operation.performAll
    [.step, .enterScope 0 .loop, .enterScope 1 .loop, .enterScope 1 .basic, .pushBackup 1 2,
      .setRegister 2 0.5, .pushCall 7, .setFunction 3 (some 5), .setInput 4 2.5, .setCell 1 8 1.5,
      .countError, .setTrait 7 4.0, .pushTrait 1.5] halfway

theorem worn_state :
    Operation.answer .step halfway = .fault (.registerOutOfRange 1 99) ∧
      (worn.pending = true ∧ worn.opened.length = 1 ∧ worn.backups.length = 1 ∧
        worn.calls = [7] ∧ worn.errors = 1 ∧ worn.traits.size = 102) ∧
      worn.genome = #[⟨0, 3, 0, 0⟩, ⟨0, 99, 0, 0⟩] ∧ worn.halted = false := by
  decide +kernel

theorem worn_reset :
    Operation.answer .step halfway = .fault (.registerOutOfRange 1 99) ∧
      (worn.pending = true ∧ worn.opened.length = 1 ∧ worn.backups.length = 1 ∧
        worn.calls = [7] ∧ worn.errors = 1 ∧ worn.traits.size = 102) ∧
      worn.reset = .new counter #[] ∧
      worn.resetHardware =
        (Machine.new counter #[⟨0, 3, 0, 0⟩, ⟨0, 99, 0, 0⟩]).withTraits worn.traits ∧
      ∀ ops, (Operation.transcript ops worn.resetHardware).map forgetTraits =
        (Operation.transcript ops (.new counter worn.genome)).map forgetTraits := by
  have hworn : Reachable anyOperation counter worn :=
    ((Reachable.new _).performAll fun _ _ _ => trivial).performAll fun _ _ _ => trivial
  obtain ⟨hfault, hused, hgenome, hrunning⟩ := worn_state
  obtain ⟨hreset, hhardware, -, -, -, halted_iff⟩ := reachable_reset hworn
  rw [hgenome] at hhardware
  exact ⟨hfault, hused, hreset, hhardware, halted_iff.mp hrunning⟩

end GenomeMachine
