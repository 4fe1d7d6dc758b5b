import GenomeMachine.Proofs.Structured.Program

/-! # The meaning of structured programs

Programs act on stores. There is no pointer, no scope and no stack here: a body runs its
instructions and then the nodes inside, a guard decides whether a body runs, and at the end of a
body the registers it saved get their values back. -/

namespace GenomeMachine

def Store.setRegister (s : Store) (r : Slot) (value : Float) : Store :=
  (s.machine.setRegister r value).store

/-- The store after saved registers got their values back, in the order given. -/
def Store.restore (s : Store) (saved : List (Slot × Float)) : Store :=
  saved.foldl (fun s (r, value) => s.setRegister r value) s

theorem Store.restore_eq (s : Store) (saved : List (Slot × Float)) (depth : Nat) :
    s.restore saved = { s with
      registers := GenomeMachine.restore s.registers
        (saved.map fun (r, value) => ⟨depth, r, value⟩) } := by
  induction saved generalizing s with
  | nil => rfl
  | cons entry saved ih => exact ih (s.setRegister entry.1 entry.2)

/-- Carries out a data instruction. Beside the store, there are the registers that it saved. -/
def PlainInstruction.run (i : PlainInstruction) (s : Store) : Store × List (Slot × Float) :=
  match i.op.apply i.instruction s.machine with
  | .ok m => (m.store, m.backups.map fun b => (b.register, b.value))
  | .error _ => (s, [])

/-- Carries out the instructions of a body in order. What was saved last comes first. -/
def runBody : List PlainInstruction → Store → Store × List (Slot × Float)
  | [], s => (s, [])
  | i :: body, s =>
      let (s, saved) := i.run s
      let (s, savedLater) := runBody body s
      (s, savedLater ++ saved)

namespace Opener

/-- The store a body starts with, if it runs. Entering a countdown counts down. -/
def enter : Opener → Store → Option Store
  | block, s => some s
  | guarded guard test, s =>
      if s.registers.get test == 0.0 then none
      else match guard with
        | .countdown =>
            some (s.setRegister test (s.registers.get test - 1.0))
        | .once | .repeated => some s

/-- Whether the node starts over after its body. -/
def repeats : Opener → Bool
  | block | guarded .once _ => false
  | guarded .repeated _ | guarded .countdown _ => true

theorem kind_of_repeats {opener : Opener} (h : opener.repeats = true) : opener.kind = .loop := by
  cases opener with
  | block => cases h
  | guarded guard test =>
      cases guard with
      | once => cases h
      | repeated | countdown => rfl

theorem kind_of_not_repeats {opener : Opener} (h : opener.repeats = false) :
    opener.kind = .basic := by
  cases opener with
  | block => rfl
  | guarded guard test =>
      cases guard with
      | once => rfl
      | repeated | countdown => cases h

end Opener

/-- Running nodes takes one store to another. -/
inductive Nodes.Runs : Nodes → Store → Store → Prop where
  | none (s : Store) : Runs .none s s
  | skip {opener : Opener} {body : List PlainInstruction} {children rest : Nodes} {s s' : Store}
      (henter : opener.enter s = Option.none) :
      Runs rest s s' → Runs (.node opener body children rest) s s'
  | once {opener : Opener} {body : List PlainInstruction} {children rest : Nodes}
      {s entered inner s' : Store} (henter : opener.enter s = some entered)
      (hrepeats : opener.repeats = false) :
      Runs children (runBody body entered).1 inner →
      Runs rest (inner.restore (runBody body entered).2) s' →
      Runs (.node opener body children rest) s s'
  | again {opener : Opener} {body : List PlainInstruction} {children rest : Nodes}
      {s entered inner s' : Store} (henter : opener.enter s = some entered)
      (hrepeats : opener.repeats = true) :
      Runs children (runBody body entered).1 inner →
      Runs (.node opener body children rest) (inner.restore (runBody body entered).2) s' →
      Runs (.node opener body children rest) s s'

/-- Running a program. What its own body saved is never put back. -/
def Program.Runs (p : Program) (s s' : Store) : Prop :=
  p.nodes.Runs (runBody p.body s).1 s'

end GenomeMachine
