import GenomeMachine.Proofs.Run.Effects
import GenomeMachine.Proofs.Run.Prediction
import GenomeMachine.Proofs.Scope.Backups
import GenomeMachine.Proofs.Structured.Openers

/-! # The passes of a countdown

A countdown that is alone in writing to its register runs its body once for every value that the
register takes before zero. Each pass ends inside the step of the opener after the body: that one
finishes the loop, and the step starts over at the countdown. `countdown_passes` counts the steps
and lists the positions they visit, whatever surrounds the loop. -/

namespace GenomeMachine

open Machine

/-! ## Registers that a body leaves alone -/

/-- The argument slot that names the register an operation writes to. -/
def DataOp.target? : DataOp → Option Nat
  | increment | decrement | negate | literal => some 0
  | copyRegister | readInput | readSquare | testFlank _ => some 1
  | combine _ | divide _ | loadCell => some 2
  | idle | saveRegister | storeCell | copyBlock | shiftBlock | writeOutput | loadBoard | endTurn =>
      none

/-- The instruction does not write to the register. -/
def PlainInstruction.Spares (i : PlainInstruction) (r : Slot) : Prop :=
  ∀ slot ∈ i.op.target?, (i.instruction.arg slot).toNat ≠ r.val

instance (i : PlainInstruction) (r : Slot) : Decidable (i.Spares r) :=
  inferInstanceAs (Decidable (∀ slot ∈ i.op.target?, _))

theorem register_setRegister_of_ne {m : Machine} {arg : UInt16} {target r : Slot}
    (harg : m.registerArg arg = .ok target) (hne : arg.toNat ≠ r.val) (value : Float) :
    (m.setRegister target value).register r = m.register r := by
  have htarget : target ≠ r := by
    rintro rfl
    exact hne (slot?_eq_some.mp (registerArg_eq_ok_iff.mp harg))
  exact (get_set ..).trans (if_neg htarget)

/-- A register that an operation does not write to stays as it is, and if it is saved, then with
the value that it has. -/
theorem dataApply_spares {op : DataOp} {i : Instruction} {m m' : Machine} {r : Slot}
    (hspares : ∀ slot ∈ op.target?, (i.arg slot).toNat ≠ r.val) (h : op.apply i m = .ok m') :
    m'.register r = m.register r ∧ ∃ saved, m'.backups = saved ++ m.backups ∧
      ∀ b ∈ saved, b.register = r → b.value = m.register r := by
  have hkeep {next : Machine} (hregister : next.register r = m.register r)
      (hbackups : next.backups = m.backups) :
      next.register r = m.register r ∧ ∃ saved, next.backups = saved ++ m.backups ∧
        ∀ b ∈ saved, b.register = r → b.value = m.register r :=
    ⟨hregister, [], hbackups, by simp⟩
  cases op <;> simp only [DataOp.apply, bind_eq_ok_iff, pure, Except.pure, Except.ok.injEq] at h
  case saveRegister =>
    obtain ⟨source, _, rfl⟩ := h
    refine ⟨rfl, [⟨m.innermost.depth, source, m.register source⟩], rfl, ?_⟩
    rintro b hb rfl
    rw [List.mem_singleton.mp hb]
  case divide =>
    obtain ⟨_, _, _, _, target, harg, h⟩ := h
    split at h <;> cases h
    · exact hkeep rfl rfl
    · exact hkeep (register_setRegister_of_ne harg (hspares 2 rfl) _) rfl
  case increment | decrement | negate | literal =>
    obtain ⟨target, harg, rfl⟩ := h
    exact hkeep (register_setRegister_of_ne harg (hspares 0 rfl) _) rfl
  case copyRegister | readInput | readSquare | testFlank =>
    obtain ⟨_, _, target, harg, rfl⟩ := h
    exact hkeep (register_setRegister_of_ne harg (hspares 1 rfl) _) rfl
  case combine | loadCell =>
    obtain ⟨_, _, _, _, target, harg, rfl⟩ := h
    exact hkeep (register_setRegister_of_ne harg (hspares 2 rfl) _) rfl
  all_goals
    repeat obtain ⟨_, _, h⟩ := h
    apply hkeep <;> simp only [register, setCell, copyBlock, shiftBlock, setOutput, loadBoard,
      endTurn, setTrait]

/-- A register has one value before and after, and wherever it was saved in between. -/
structure Holds (r : Slot) (s : Store) (result : Store × List (Slot × Float)) : Prop where
  register_eq : result.1.registers.get r = s.registers.get r
  saved_eq : ∀ entry ∈ result.2, entry.1 = r → entry.2 = s.registers.get r

theorem holds_run {i : PlainInstruction} {r : Slot} (h : i.Spares r) (s : Store) :
    Holds r s (i.run s) := by
  unfold PlainInstruction.run
  split
  next m happly =>
    obtain ⟨hregister, saved, hbackups, hsaved⟩ := dataApply_spares h happly
    refine ⟨hregister, ?_⟩
    intro entry hentry hr
    obtain ⟨b, hb, rfl⟩ := List.mem_map.mp hentry
    rw [hbackups, show s.machine.backups = [] from rfl, List.append_nil] at hb
    exact hsaved b hb hr
  next => exact ⟨rfl, by simp⟩

theorem holds_runBody {body : List PlainInstruction} {r : Slot} (h : ∀ i ∈ body, i.Spares r)
    (s : Store) : Holds r s (runBody body s) := by
  induction body generalizing s with
  | nil => exact ⟨rfl, by simp [runBody]⟩
  | cons i body ih =>
      have hfirst := holds_run (h i List.mem_cons_self) s
      have hrest := ih (fun j hj => h j (List.mem_cons_of_mem i hj)) (i.run s).1
      refine ⟨hrest.register_eq.trans hfirst.register_eq, ?_⟩
      intro entry hentry hr
      rcases List.mem_append.mp hentry with hentry | hentry
      · exact (hrest.saved_eq entry hentry hr).trans hfirst.register_eq
      · exact hfirst.saved_eq entry hentry hr

/-- Putting back what was saved does not change the register either. -/
theorem Holds.restore {r : Slot} {s : Store} {result : Store × List (Slot × Float)}
    (h : Holds r s result) : (result.1.restore result.2).registers.get r = s.registers.get r := by
  rw [Store.restore_eq _ _ 0, restore_get]
  split
  next b hb =>
    obtain ⟨hmem, hr⟩ := List.mem_filter.mp (List.mem_of_getLast? hb)
    obtain ⟨entry, hentry, rfl⟩ := List.mem_map.mp hmem
    exact h.saved_eq entry hentry (by simpa using hr)
  next => exact h.register_eq

namespace Machine

/-! ## Visited positions -/

theorem log_succ (m : Machine) (n : Nat) :
    m.log (n + 1) = m.stepLog ++ (after (step m)).log n := by
  induction n with
  | zero => exact (List.append_nil _).symm
  | succ n ih => rw [log, ih, afterSteps_succ, List.append_assoc, log]

theorem Steps.afterSteps_eq {n : Nat} {m m' : Machine} (h : Steps n m m') :
    m.afterSteps n = m' := by
  induction h with
  | zero m => rfl
  | succ _ hstep _ ih => rw [afterSteps_of_ok hstep, ih]

/-- The positions of the instructions that a number of steps carry out. -/
def visited (m : Machine) (n : Nat) : List Nat :=
  (m.log n).map (·.machine.pointer)

theorem visited_succ (m : Machine) (n : Nat) :
    m.visited (n + 1) = m.stepLog.map (·.machine.pointer) ++ (after (step m)).visited n := by
  rw [visited, log_succ, List.map_append, visited]

/-- Steps inside the genome, none of which fails, and the positions that they visit. -/
structure Visits (n : Nat) (m : Machine) (positions : List Nat) (m' : Machine) : Prop where
  steps : Steps n m m'
  visited_eq : m.visited n = positions

theorem Visits.trans {a b : Nat} {m₁ m₂ m₃ : Machine} {first rest : List Nat}
    (h : Visits a m₁ first m₂) (h' : Visits b m₂ rest m₃) :
    Visits (a + b) m₁ (first ++ rest) m₃ := by
  refine ⟨h.steps.trans h'.steps, ?_⟩
  obtain ⟨hsteps, rfl⟩ := h
  induction hsteps with
  | zero m => simpa [visited, log] using h'.visited_eq
  | succ _ hstep _ ih =>
      rw [Nat.add_right_comm, visited_succ, visited_succ, hstep, after_ok, ih h', List.append_assoc]

theorem stepLog_of_dispatch {m m' : Machine} {i : Instruction} (hpending : m.pending = false)
    (hfetch : m.genome[m.pointer]? = some i) (hdispatch : dispatch i m = .ok () m')
    (hpending' : m'.pending = false) : m.stepLog = [⟨m, i⟩] := by
  have harrive := arrive_of_inside hpending (inside_of_fetch hfetch)
  have hlog := execution_stepLog (m := m) (by rw [harrive]; exact hfetch)
  rw [harrive] at hlog
  exact ((Execution.finished hdispatch hpending').unique hlog).1

/-- A step that leaves nothing due visits one position. -/
theorem visits_of_dispatch {m m' : Machine} {i : Instruction} (hpending : m.pending = false)
    (hfetch : m.genome[m.pointer]? = some i) (hdispatch : dispatch i m = .ok () m')
    (hpending' : m'.pending = false) :
    Visits 1 m [m.pointer] { m' with pointer := m'.pointer + 1 } := by
  refine ⟨.single (inside_of_fetch hfetch)
    (step_of_dispatch hpending hfetch hdispatch hpending'), ?_⟩
  rw [visited_succ, stepLog_of_dispatch hpending hfetch hdispatch hpending']
  rfl

/-- A machine that makes the same step as another one, perhaps after some instructions more, visits
the same positions after those. -/
theorem Visits.of_step_eq {n : Nat} {m next m' : Machine} {positions : List Nat}
    (h : Visits (n + 1) next positions m') (first : List Nat)
    (hinside : m.pointer < m.genome.size) (hstep : step m = step next)
    (hlog : m.stepLog.map (·.machine.pointer) = first ++ next.stepLog.map (·.machine.pointer)) :
    Visits (n + 1) m (first ++ positions) m' := by
  refine ⟨h.steps.of_step_eq hinside hstep, ?_⟩
  rw [← h.visited_eq, visited_succ, visited_succ, hlog, hstep, List.append_assoc]

/-- An instruction that makes another one due is visited before that one. -/
theorem Visits.of_redispatch {n : Nat} {m next m' : Machine} {positions : List Nat}
    {i j : Instruction} (h : Visits (n + 1) next positions m') (hpending : m.pending = false)
    (hfetch : m.genome[m.pointer]? = some i)
    (hdispatch : dispatch i m = .ok () { next with pending := true })
    (hpending' : next.pending = false) (hfetch' : next.genome[next.pointer]? = some j) :
    Visits (n + 1) m (m.pointer :: positions) m' := by
  have hinside := inside_of_fetch hfetch
  have harrive := arrive_of_inside hpending hinside
  have harrive' := arrive_of_inside hpending' (inside_of_fetch hfetch')
  have hdue := arrive_due hpending' (inside_of_fetch hfetch')
  have hlog := execution_stepLog (m := m) (by rw [harrive]; exact hfetch)
  have hnext := execution_stepLog (m := next) (by rw [harrive']; exact hfetch')
  rw [harrive] at hlog
  rw [harrive', ← hdue] at hnext
  have hchain := Execution.again hdispatch rfl (by rw [hdue]; exact hfetch') hnext
  refine h.of_step_eq [m.pointer] hinside
    (step_of_redispatch hpending hfetch hdispatch hpending' hfetch') ?_
  rw [(hchain.unique hlog).1]
  simp [hdue]

/-- Whether something is due makes no difference to a step inside the genome. -/
theorem Visits.of_pending {n : Nat} {m m' : Machine} {positions : List Nat}
    (h : Visits (n + 1) { m with pending := false } positions m')
    (hinside : m.pointer < m.genome.size) : Visits (n + 1) m positions m' := by
  have harrive : m.arrive = { m with pending := false }.arrive := by
    rw [arrive_of_inside (m := { m with pending := false }) rfl hinside, arrive,
      if_neg (Nat.not_le.mpr hinside)]
  have hfetch : m.arrive.instruction? m.arrive.pointer = some m.genome[m.pointer] := by
    rw [arrive, if_neg (Nat.not_le.mpr hinside)]
    exact Array.getElem?_eq_getElem hinside
  refine h.of_step_eq [] hinside ?_ ?_
  · rw [step_of_arrive hfetch, step_of_arrive (harrive ▸ hfetch), harrive]
  · simp only [stepLog, harrive, List.nil_append]

theorem visits_body {m : Machine} {body : List PlainInstruction} {tail : List Instruction}
    (hcatalog : m.catalog = .standard) (hpending : m.pending = false)
    (hcode : m.code = bodyInstructions body ++ tail) :
    Visits body.length m (List.range' m.pointer body.length)
      (m.proceed (runBody body m.store).1 (runBody body m.store).2 body.length) := by
  refine ⟨steps_body hcatalog hpending hcode, ?_⟩
  induction body generalizing m with
  | nil => rfl
  | cons i body ih =>
      have hfront : m.code = [i.instruction] ++ (bodyInstructions body ++ tail) := hcode
      have hlog := stepLog_of_dispatch hpending (fetch_of_code hcode) (dispatch_plain i hcatalog)
        hpending
      have hrest := ih (m := m.proceed (i.run m.store).1 (i.run m.store).2 1) hcatalog hpending
        (code_of_append hfront rfl rfl)
      rw [List.length_cons, visited_succ, hlog, step_plain hcatalog hpending hcode, after_ok,
        hrest]
      rfl

end Machine

/-! ## The loop -/

/-- A value after it was counted down a number of times. -/
def countedDown (value : Float) : Nat → Float
  | 0 => value
  | n + 1 => countedDown value n - 1.0

theorem countedDown_succ (value : Float) (n : Nat) :
    countedDown value (n + 1) = countedDown (value - 1.0) n := by
  induction n with
  | zero => rfl
  | succ n ih => rw [countedDown, ih, countedDown]

/-- A countdown, its body and the opener after it. The body leaves the register of the countdown
alone, and the opener is at a level where it finishes the loop. -/
structure CountdownLoop where
  opener : Instruction
  register : Slot
  body : List PlainInstruction
  closer : Instruction
  counts : opener.Performs (.guarded .countdown)
  tests : opener.first.toNat = register.val
  spares : ∀ i ∈ body, i.Spares register
  opens : 0 < Catalog.standard.openedDepth closer
  closes : Catalog.standard.openedDepth closer ≤ opener.second.toNat + 1
  /-- All openers but blocks need a register or a function slot. -/
  findsSlot : closer.Performs .block ∨ closer.first.toNat < 16

namespace CountdownLoop

variable (loop : CountdownLoop)

def level : Nat :=
  loop.opener.second.toNat

/-- The loop in a genome, before other instructions. -/
def code (tail : List Instruction) : List Instruction :=
  loop.opener :: (bodyInstructions loop.body ++ loop.closer :: tail)

/-- The scope of the loop. -/
def frame (start : Nat) : Frame :=
  ⟨loop.level + 1, .loop, start⟩

/-- The store that the body starts with. -/
def enter (s : Store) : Store :=
  s.setRegister loop.register (s.registers.get loop.register - 1.0)

/-- What a pass makes of a store. -/
def pass (s : Store) : Store :=
  (runBody loop.body (loop.enter s)).1.restore (runBody loop.body (loop.enter s)).2

/-- The positions that are visited in a number of passes and when the loop is skipped in the end. -/
def positions (start passes : Nat) : List Nat :=
  (List.replicate passes (List.range' start (loop.body.length + 2))).flatten ++ [start]

/-- The machine at the end of the body, when it was at the countdown before. -/
def afterBody (m : Machine) : Machine :=
  m.inside (loop.frame m.pointer) (runBody loop.body (loop.enter m.store)).1
    (runBody loop.body (loop.enter m.store)).2 (m.pointer + 1 + loop.body.length)

/-- A pass counts down by one. -/
theorem register_pass (s : Store) :
    (loop.pass s).registers.get loop.register = s.registers.get loop.register - 1.0 := by
  have hheld : (loop.pass s).registers.get loop.register =
      (loop.enter s).registers.get loop.register := (holds_runBody loop.spares _).restore
  rw [hheld]
  exact (get_set ..).trans (if_pos rfl)

/-- A machine at the countdown, with no scope open but those around the loop. -/
structure Reached (tail : List Instruction) (m : Machine) : Prop where
  catalog : m.catalog = .standard
  pending : m.pending = false
  code : m.code = loop.code tail
  depth : m.innermost.depth ≤ loop.level
  room : m.frames.length < 16
  backups : ∀ b ∈ m.backups, b.depth ≤ loop.level

variable {loop} {tail : List Instruction} {m : Machine}

/-- The opener after the body reaches for a scope that the loop is in the way of. -/
theorem reaches_closer (loop : CountdownLoop) (hcatalog : m.catalog = .standard) :
    ∃ level kind body, Reaches loop.closer m level kind body ∧ level ≤ loop.level := by
  obtain ⟨op, hperforms⟩ := performs_of_openedDepth loop.opens
  have hdepth := openedDepth_of_performs hperforms
  have hop := (opcode?_eq_iff hcatalog).mpr hperforms
  have hreach : ∃ level kind body, Reaches loop.closer m level kind body := by
    rcases loop.findsSlot with hblock | hslot
    · exact ⟨_, _, _, .block ((opcode?_eq_iff hcatalog).mpr hblock)⟩
    · have hslot : slot? loop.closer.first.toNat = some ⟨_, hslot⟩ := slot?_eq_some.mpr rfl
      have hopens := loop.opens
      cases op with
      | guarded => exact ⟨_, _, _, .guarded hop hslot⟩
      | block => exact ⟨_, _, _, .block hop⟩
      | define => exact ⟨_, _, _, .define hop hslot⟩
      | leave | call => simp [hdepth, Opcode.levelSlot?] at hopens
  obtain ⟨level, kind, body, hreach⟩ := hreach
  have hlevel := hreach.openedDepth_eq hcatalog loop.opens
  have hcloses := loop.closes
  exact ⟨level, kind, body, hreach, by rw [CountdownLoop.level]; omega⟩

namespace Reached

theorem fetch (h : loop.Reached tail m) : m.genome[m.pointer]? = some loop.opener :=
  fetch_of_code h.code

theorem backups_lt (h : loop.Reached tail m) :
    ∀ b ∈ m.backups, b.depth < (loop.frame m.pointer).depth :=
  fun b hb => Nat.lt_succ_of_le (h.backups b hb)

/-- Back at the countdown, only the store can be another one. -/
theorem restart (h : loop.Reached tail m) (s : Store) :
    loop.Reached tail (m.jump s m.pointer) :=
  { h with }

theorem dispatch_opener (h : loop.Reached tail m) :
    dispatch loop.opener m = .ok () (startGuarded .countdown loop.register loop.level
      (m.inside (loop.frame m.pointer) m.store [] m.pointer)) := by
  have htest : slot? loop.opener.first.toNat = some loop.register := slot?_eq_some.mpr loop.tests
  have hreach := Reaches.guarded ((opcode?_eq_iff h.catalog).mpr loop.counts) htest
  have hdepth : m.innermost.depth < loop.level + 1 := Nat.lt_succ_of_le h.depth
  exact hreach.dispatch_enter (closeFinished_of_lt hdepth) hdepth h.room

/-- At zero the loop is skipped. -/
theorem visits_skip (h : loop.Reached tail m) (hzero : m.register loop.register == 0.0) :
    Visits 1 m [m.pointer] (m.jump m.store (m.pointer + loop.body.length + 1)) := by
  have hdispatch := h.dispatch_opener
  have hleave : (m.inside (loop.frame m.pointer) m.store [] m.pointer).leaveScope loop.level =
      m.jump m.store (m.pointer + (bodyInstructions loop.body).length) := by
    refine leaveScope_inside h.backups_lt (Nat.lt_succ_self loop.level) h.code ?_ ?_
    · intro i hi
      rw [h.catalog]
      exact .inl (openedDepth_body hi)
    · rw [h.catalog]
      exact ⟨loop.opens, loop.closes⟩
  have htest :
      (m.inside (loop.frame m.pointer) m.store [] m.pointer).register loop.register == 0.0 := hzero
  rw [startGuarded, if_pos htest, hleave, bodyInstructions, List.length_map] at hdispatch
  exact visits_of_dispatch h.pending h.fetch hdispatch h.pending

/-- Before zero the body is run. -/
theorem visits_enter (h : loop.Reached tail m) (hzero : ¬m.register loop.register == 0.0) :
    Visits (1 + loop.body.length) m (List.range' m.pointer (loop.body.length + 1))
      (loop.afterBody m) := by
  have hdispatch := h.dispatch_opener
  have htest :
      ¬(m.inside (loop.frame m.pointer) m.store [] m.pointer).register loop.register == 0.0 := hzero
  rw [startGuarded, if_neg htest] at hdispatch
  have hfirst : Visits 1 m [m.pointer]
      (m.inside (loop.frame m.pointer) (loop.enter m.store) [] (m.pointer + 1)) :=
    visits_of_dispatch h.pending h.fetch hdispatch h.pending
  have hfront : m.code = [loop.opener] ++ (bodyInstructions loop.body ++ loop.closer :: tail) :=
    h.code
  have hbody := visits_body
    (m := m.inside (loop.frame m.pointer) (loop.enter m.store) [] (m.pointer + 1))
    h.catalog h.pending (code_of_append hfront rfl rfl)
  exact hfirst.trans hbody

/-- The opener after the body sends the machine back to the countdown. -/
theorem dispatch_closer (h : loop.Reached tail m) :
    dispatch loop.closer (loop.afterBody m) =
      .ok () { m.jump (loop.pass m.store) m.pointer with pending := true } := by
  obtain ⟨level, kind, body, hreach, hlevel⟩ :=
    loop.reaches_closer (m := loop.afterBody m) h.catalog
  have hclosed : (loop.afterBody m).closeFinished level = loop.afterBody m :=
    closeFinished_of_not_silent level rfl
  have hinnermost : ((loop.afterBody m).closeFinished level).innermost = loop.frame m.pointer := by
    rw [hclosed]
    rfl
  have hfinishes := hreach.finishes hinnermost (Nat.lt_succ_of_le hlevel) rfl
  rw [hclosed] at hfinishes
  rw [hfinishes.dispatch_eq, finishScope, afterBody, closeScope_inside h.backups_lt]
  rfl

/-- One pass, and whatever the machine does from the countdown on. -/
theorem visits_pass (h : loop.Reached tail m) (hzero : ¬m.register loop.register == 0.0) {n : Nat}
    {positions : List Nat} {m' : Machine}
    (hnext : Visits (n + 1) (m.jump (loop.pass m.store) m.pointer) positions m') :
    Visits (1 + loop.body.length + (n + 1)) m
      (List.range' m.pointer (loop.body.length + 2) ++ positions) m' := by
  have hback := h.restart (loop.pass m.store)
  have hfront : m.code = (loop.opener :: bodyInstructions loop.body) ++ loop.closer :: tail :=
    h.code
  have hcode : (loop.afterBody m).code = loop.closer :: tail := by
    refine code_of_append hfront rfl ?_
    simp only [afterBody, pointer_inside, bodyInstructions, List.length_cons, List.length_map]
    omega
  -- The step of the opener after the body becomes that of the countdown.
  have hagain := hnext.of_redispatch (m := loop.afterBody m) h.pending (fetch_of_code hcode)
    h.dispatch_closer hback.pending hback.fetch
  have hpointer : (loop.afterBody m).pointer = m.pointer + (loop.body.length + 1) := by
    simp only [afterBody, pointer_inside]
    omega
  have hall := (h.visits_enter hzero).trans hagain
  rw [hpointer] at hall
  rwa [List.range'_1_concat, List.append_assoc, List.singleton_append]

end Reached

theorem positions_succ (start passes : Nat) :
    loop.positions start (passes + 1) =
      List.range' start (loop.body.length + 2) ++ loop.positions start passes := by
  rw [positions, List.replicate_succ, List.flatten_cons, List.append_assoc, positions]

/-- Every pass visits each position of the body once. -/
theorem count_positions {start position : Nat} (hstart : start < position)
    (hend : position ≤ start + loop.body.length) (passes : Nat) :
    (loop.positions start passes).count position = passes := by
  induction passes with
  | zero =>
      have hne : ¬start = position := by omega
      simp [positions, hne]
  | succ passes ih =>
      have hinside : start ≤ position ∧ position < start + (loop.body.length + 2) := by omega
      rw [positions_succ, List.count_append, ih, List.count_range_1', if_pos hinside, Nat.add_comm]

/-- All passes. The induction is on their number: after each one the machine is at the countdown
again, with the next value. -/
theorem Reached.visits_passes (h : loop.Reached tail m) {k : Nat}
    (hzero : countedDown (m.register loop.register) k == 0.0)
    (hleast : ∀ j < k, ¬countedDown (m.register loop.register) j == 0.0) :
    Visits (k * (loop.body.length + 1) + 1) m (loop.positions m.pointer k)
      (m.jump (loop.pass^[k] m.store) (m.pointer + loop.body.length + 1)) := by
  induction k generalizing m with
  | zero =>
      rw [Nat.zero_mul]
      exact h.visits_skip hzero
  | succ k ih =>
      have hregister : (m.jump (loop.pass m.store) m.pointer).register loop.register =
          m.register loop.register - 1.0 := loop.register_pass m.store
      have hrest := ih (h.restart (loop.pass m.store))
        (by rw [hregister, ← countedDown_succ]; exact hzero)
        (by
          intro j hj
          rw [hregister, ← countedDown_succ]
          exact hleast (j + 1) (Nat.succ_lt_succ hj))
      have hcount : (k + 1) * (loop.body.length + 1) + 1 =
          1 + loop.body.length + (k * (loop.body.length + 1) + 1) := by
        rw [Nat.succ_mul]
        omega
      rw [hcount, positions_succ]
      exact h.visits_pass (hleast 0 (Nat.succ_pos k)) hrest

theorem register_iterate_pass (s : Store) (k : Nat) :
    (loop.pass^[k] s).registers.get loop.register =
      countedDown (s.registers.get loop.register) k := by
  induction k generalizing s with
  | zero => rfl
  | succ k ih => rw [Function.iterate_succ_apply, ih, register_pass, countedDown_succ]

end CountdownLoop

/-- A countdown whose register is `k` steps away from zero makes `k` passes, in a known number of
steps that all succeed. Afterwards the machine is past the body with the scopes and the calls that
it had, and the register has counted down to zero. -/
theorem countdown_passes (loop : CountdownLoop) {m : Machine} {tail : List Instruction}
    (hcatalog : m.catalog = .standard) (hnested : Nested m)
    (howned : ∀ b ∈ m.backups, ∃ frame ∈ m.frames, frame.depth = b.depth)
    (hcode : m.code = loop.code tail) (hdepth : m.innermost.depth ≤ loop.level)
    (hroom : m.frames.length < 16) {k : Nat}
    (hzero : countedDown (m.register loop.register) k == 0.0)
    (hleast : ∀ j < k, ¬countedDown (m.register loop.register) j == 0.0) :
    let count := 1 + k * (loop.body.length + 1)
    Steps count m (m.afterSteps count) ∧
      m.visited count = loop.positions m.pointer k ∧
      (∀ position, m.pointer < position → position ≤ m.pointer + loop.body.length →
        (m.visited count).count position = k) ∧
      (m.afterSteps count).pointer = m.pointer + loop.body.length + 1 ∧
      (m.afterSteps count).frames = m.frames ∧
      (m.afterSteps count).calls = m.calls ∧
      (m.afterSteps count).register loop.register =
        countedDown (m.register loop.register) k := by
  have hbackups : ∀ b ∈ m.backups, b.depth ≤ loop.level := by
    intro b hb
    obtain ⟨frame, hframe, hb⟩ := howned b hb
    rw [← hb]
    exact Nat.le_trans (hnested.depth_le hframe) hdepth
  have hreached : loop.Reached tail { m with pending := false } :=
    ⟨hcatalog, rfl, hcode, hdepth, hroom, hbackups⟩
  have hvisits := (hreached.visits_passes hzero hleast).of_pending
    (inside_of_fetch (fetch_of_code hcode))
  rw [Nat.add_comm] at hvisits
  intro count
  have hafter : m.afterSteps count = _ := hvisits.steps.afterSteps_eq
  refine ⟨hafter ▸ hvisits.steps, hvisits.visited_eq, ?_, ?_⟩
  · intro position hstart hend
    rw [hvisits.visited_eq]
    exact CountdownLoop.count_positions hstart hend k
  · rw [hafter]
    exact ⟨rfl, rfl, rfl, CountdownLoop.register_iterate_pass m.store k⟩

/-- A loop that saves its own register in every pass, and is closed from far outside. -/
def ticking : CountdownLoop where
  opener := ⟨14, 4, 4, 9⟩
  register := ⟨4, by decide⟩
  body :=
    [⟨⟨37, 4, 0, 0⟩, ⟨"ScopeReg", .data .saveRegister, 1, "Backup reg Arg1; restore at end of scope",
        none⟩, by rw [Catalog.entry?_standard]; rfl, by decide, by decide⟩,
      ⟨⟨5, 4, 1, 1⟩, standardEntries[5], by rw [Catalog.entry?_standard]; rfl, by decide,
        by decide⟩]
  closer := (Opener.guarded .repeated ⟨15, by decide⟩).instruction 2
  counts := performs_iff.mpr rfl
  tests := rfl
  spares := by decide
  opens := by
    rw [openedDepth_opener _ (by decide)]
    decide
  closes := by
    rw [openedDepth_opener _ (by decide)]
    decide
  findsSlot := .inr (by decide)

/-- A machine at this loop, inside a function that is called in another loop, with backups of the
same register in both. -/
def clock : Machine :=
  { Machine.new .standard (⟨0, 0, 0, 0⟩ :: ticking.code [⟨1, 0, 0, 0⟩]).toArray with
    pointer := 1
    opened := [⟨4, .function, 9⟩, ⟨2, .loop, 0⟩]
    backups := [⟨4, ticking.register, 8.0⟩, ⟨2, ticking.register, 7.0⟩, ⟨0, ⟨8, by decide⟩, 6.0⟩]
    calls := [5]
    pending := true }

theorem clock_passes :
    clock.register 4 == 4.0 ∧ Steps 13 clock (clock.afterSteps 13) ∧
      clock.visited 13 = [1, 2, 3, 4, 1, 2, 3, 4, 1, 2, 3, 4, 1, 2, 3, 4, 1] ∧
      (clock.visited 13).count 2 = 4 ∧ (clock.afterSteps 13).pointer = 4 ∧
      (clock.afterSteps 13).frames = [⟨4, .function, 9⟩, ⟨2, .loop, 0⟩, .root] ∧
      (clock.afterSteps 13).calls = [5] ∧ (clock.afterSteps 13).register 4 == 0.0 := by
  have hnested : Nested clock := ⟨by decide, by decide⟩
  have hzero : countedDown (clock.register 4) 4 == 0.0 := by decide +kernel
  have hleast : ∀ j < 4, ¬countedDown (clock.register 4) j == 0.0 := by decide +kernel
  have hcode : clock.code = ticking.code [⟨1, 0, 0, 0⟩] := rfl
  obtain ⟨hsteps, hvisited, hcount, hpointer, hframes, hcalls, hregister⟩ :=
    countdown_passes ticking (m := clock) rfl hnested (by decide) hcode (by decide) (by decide)
      hzero hleast
  refine ⟨by decide +kernel, hsteps, hvisited, hcount 2 (by decide) (by decide), hpointer, hframes,
    hcalls, ?_⟩
  exact (congrArg (· == 0.0) hregister).trans hzero

end GenomeMachine
