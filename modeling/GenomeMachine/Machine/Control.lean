import GenomeMachine.Machine.Scope

/-!
# Control operations

Every control operation either leaves a scope or reaches an opener. An opener acts on its own
scope only when that scope was opened.
-/

namespace GenomeMachine

namespace Machine

/-- Reaches an opener, and goes on with `body` if its scope was opened. -/
def opening (level : Nat) (kind : ScopeKind) (body : Machine → Machine) : Action Unit := fun m =>
  match enterScope level kind m with
  | .ok true m => .ok () (body m)
  | .ok false m => .ok () m
  | .error fault m => .error fault m

/-- The start of a guarded body: skipped if the test register is zero. -/
def startGuarded (guard : Guard) (test : Slot) (level : Nat) (m : Machine) : Machine :=
  if m.register test == 0.0 then m.leaveScope level
  else match guard with
    | .countdown => m.setRegister test (m.register test - 1.0)
    | .once | .repeated => m

/-- The position of a function's definition and the level of its scope. A slot counts as
undefined when its position does not hold an opener of a function scope any more. -/
def callTarget? (m : Machine) (slot : Nat) : Option (Nat × Nat) := do
  let position ← m.function? slot
  let definition ← m.instruction? position
  let rule ← m.catalog.scopeRule? definition.id
  if rule.kind = .function then some (position, (definition.arg rule.slot).toNat) else none

end Machine

open Machine

/-- Carries out a control operation. The body of a definition runs only when it is called, and a
call goes on behind the instruction after the definition. -/
def ControlOp.perform : ControlOp → Instruction → Action Unit
  | .guarded guard, i => fun m =>
      match m.registerArg i.first with
      | .error fault => .error fault m
      | .ok test =>
          opening i.second.toNat guard.kind (startGuarded guard test i.second.toNat) m
  | .leave, i => fun m => .ok () (m.leaveScope i.first.toNat)
  | .block, i => opening i.first.toNat .basic id
  | .define, i => fun m =>
      match slot? i.first.toNat with
      | none => .error (.functionOutOfRange m.pointer i.first) m
      | some slot =>
          opening i.second.toNat .function
            (fun m => (m.setFunction slot (some m.pointer)).leaveScope i.second.toNat) m
  | .call, i => fun m =>
      match m.callTarget? i.first.toNat with
      | none => .ok () m
      | some (position, level) =>
          opening level .function
            (fun m => { m.pushCall (m.pointer + 1) with pointer := position + 1 }) m

end GenomeMachine
