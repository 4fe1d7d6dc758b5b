import GenomeMachine.Proofs.Scope.Stack

/-! # Scope resolution

An opener is compared with the innermost scope, again and again while finished scopes close
silently. `Resolution` states the rules of that loop; `enterScope` is what it comes to. -/

namespace GenomeMachine.Machine

/-- The machine on which an opener at a level ends up: without the finished scopes that just
close. -/
def closeFinished (m : Machine) (level : Nat) : Machine :=
  closeSilent (level + 1) m.opened m

theorem opened_ne_nil {m : Machine} (h : 0 < m.innermost.depth) : m.opened ≠ [] := by
  intro hnil
  simp [innermost, hnil, Frame.root] at h

theorem opened_eq_cons {m : Machine} (h : 0 < m.innermost.depth) :
    m.opened = m.innermost :: m.closeScope.opened := by
  rw [opened_closeScope]
  cases hopened : m.opened with
  | nil => exact absurd hopened (opened_ne_nil h)
  | cons frame rest => simp [innermost, hopened]

theorem closeFinished_of_lt {m : Machine} {level : Nat} (h : m.innermost.depth < level + 1) :
    m.closeFinished level = m := by
  unfold closeFinished
  cases hopened : m.opened with
  | nil => rfl
  | cons frame rest =>
      have hdepth : frame.depth < level + 1 := by simpa [innermost, hopened] using h
      rw [closeSilent, if_neg (by omega)]

theorem closeFinished_of_not_silent {m : Machine} (level : Nat)
    (h : m.innermost.kind.closesSilently = false) : m.closeFinished level = m := by
  unfold closeFinished
  cases hopened : m.opened with
  | nil => rfl
  | cons frame rest =>
      have hkind : frame.kind.closesSilently = false := by simpa [innermost, hopened] using h
      rw [closeSilent, if_neg (by simp [hkind])]

theorem closeFinished_of_silent {m : Machine} {level : Nat} (hdepth : level < m.innermost.depth)
    (hkind : m.innermost.kind.closesSilently = true) :
    m.closeFinished level = m.closeScope.closeFinished level := by
  unfold closeFinished
  rw [opened_eq_cons (Nat.zero_lt_of_lt hdepth), closeSilent, if_pos ⟨hdepth, hkind⟩]

theorem closeFinished_keeps {α : Type} {f : Machine → α} (hf : ∀ m, f m.closeScope = f m)
    (m : Machine) (level : Nat) : f (m.closeFinished level) = f m := by
  unfold closeFinished
  generalize m.opened = frames
  induction frames generalizing m with
  | nil => rfl
  | cons frame rest ih =>
      rw [closeSilent]
      split
      · rw [ih, hf]
      · rfl

/-- What a deeper opener has closed need not be closed again. -/
theorem closeFinished_closeFinished {outer inner : Nat} (h : outer ≤ inner) (m : Machine) :
    (m.closeFinished inner).closeFinished outer = m.closeFinished outer := by
  induction hopened : m.opened generalizing m with
  | nil =>
      have hroot : m.innermost.depth < inner + 1 := by simp [innermost, hopened, Frame.root]
      rw [closeFinished_of_lt hroot]
  | cons frame rest ih =>
      by_cases hdepth : m.innermost.depth < inner + 1
      · rw [closeFinished_of_lt hdepth]
      · cases hkind : m.innermost.kind.closesSilently with
        | false => rw [closeFinished_of_not_silent inner hkind]
        | true =>
            rw [closeFinished_of_silent (by omega) hkind, closeFinished_of_silent (by omega) hkind]
            exact ih m.closeScope (by simp [hopened])

/-- An opener does the same on a machine and on the one without the finished scopes. -/
theorem enterScope_congr {m n : Machine} {level : Nat} (kind : ScopeKind)
    (h : m.closeFinished level = n.closeFinished level) :
    enterScope level kind m = enterScope level kind n := by
  unfold closeFinished at h
  simp only [enterScope, h]

theorem enterScope_of_lt {m : Machine} {level : Nat} (kind : ScopeKind)
    (hdepth : m.innermost.depth < level + 1) :
    enterScope level kind m =
      if m.frames.length < 16 then
        .ok true { m with opened := ⟨level + 1, kind, m.pointer⟩ :: m.opened }
      else .error (.scopeOverflow m.pointer (level + 1)) m := by
  have hclosed : closeSilent (level + 1) m.opened m = m := closeFinished_of_lt hdepth
  have hnone : m.opened.head?.filter (level + 1 ≤ ·.depth) = none := by
    cases hopened : m.opened with
    | nil => rfl
    | cons frame rest => simpa [innermost, hopened, Option.filter] using hdepth
  simp only [enterScope, hclosed, hnone]

theorem enterScope_of_not_silent {m : Machine} {level : Nat} (kind : ScopeKind)
    (hdepth : level < m.innermost.depth) (hkind : m.innermost.kind.closesSilently = false) :
    enterScope level kind m = .ok false (m.finishScope m.innermost) := by
  have hclosed : closeSilent (level + 1) m.opened m = m := closeFinished_of_not_silent level hkind
  have hsome : m.opened.head?.filter (level + 1 ≤ ·.depth) = some m.innermost := by
    rw [opened_eq_cons (Nat.zero_lt_of_lt hdepth)]
    simp [Option.filter, Nat.succ_le_of_lt hdepth]
  simp only [enterScope, hclosed, hsome]

theorem enterScope_of_silent {m : Machine} {level : Nat} (kind : ScopeKind)
    (hdepth : level < m.innermost.depth) (hkind : m.innermost.kind.closesSilently = true) :
    enterScope level kind m = enterScope level kind m.closeScope :=
  enterScope_congr kind (closeFinished_of_silent hdepth hkind)

/-! ## The loop -/

/-- Comparing an opener with the innermost scope, until it is decided. The number counts the
comparisons. -/
inductive Resolution (level : Nat) (kind : ScopeKind) :
    Machine → Nat → EStateM.Result Fault Machine Bool → Prop where
  | enter {m : Machine} (hdepth : m.innermost.depth < level + 1) (hroom : m.frames.length < 16) :
      Resolution level kind m 1
        (.ok true { m with opened := ⟨level + 1, kind, m.pointer⟩ :: m.opened })
  | overflow {m : Machine} (hdepth : m.innermost.depth < level + 1)
      (hfull : 16 ≤ m.frames.length) :
      Resolution level kind m 1 (.error (.scopeOverflow m.pointer (level + 1)) m)
  | finish {m : Machine} (hdepth : level + 1 ≤ m.innermost.depth)
      (hkind : m.innermost.kind = .loop ∨ m.innermost.kind = .function) :
      Resolution level kind m 1 (.ok false (m.finishScope m.innermost))
  | retry {m : Machine} {n : Nat} {result : EStateM.Result Fault Machine Bool}
      (hdepth : level + 1 ≤ m.innermost.depth)
      (hkind : m.innermost.kind = .basic ∨ m.innermost.kind = .root) :
      Resolution level kind m.closeScope n result → Resolution level kind m (n + 1) result

theorem closesSilently_eq_true {kind : ScopeKind} :
    kind.closesSilently = true ↔ kind = .basic ∨ kind = .root := by
  cases kind <;> simp [ScopeKind.closesSilently]

theorem closesSilently_eq_false {kind : ScopeKind} :
    kind.closesSilently = false ↔ kind = .loop ∨ kind = .function := by
  cases kind <;> simp [ScopeKind.closesSilently]

theorem resolution_of_lt {m : Machine} {level : Nat} (kind : ScopeKind)
    (hdepth : m.innermost.depth < level + 1) :
    Resolution level kind m 1 (enterScope level kind m) := by
  rw [enterScope_of_lt kind hdepth]
  split
  next hroom => exact .enter hdepth hroom
  next hfull => exact .overflow hdepth (Nat.le_of_not_lt hfull)

/-- The loop ends, after at most as many comparisons as scopes are open. -/
theorem enterScope_resolution (level : Nat) (kind : ScopeKind) (m : Machine) :
    ∃ n, n ≤ m.frames.length ∧ Resolution level kind m n (enterScope level kind m) := by
  -- Every retry has closed a scope, so the induction is on the open ones.
  induction hopened : m.opened generalizing m with
  | nil =>
      have hdepth : m.innermost.depth < level + 1 := by simp [innermost, hopened, Frame.root]
      exact ⟨1, by simp [frames], resolution_of_lt kind hdepth⟩
  | cons frame rest ih =>
      by_cases hdepth : m.innermost.depth < level + 1
      · exact ⟨1, by simp [frames], resolution_of_lt kind hdepth⟩
      · have hdepth := Nat.le_of_not_lt hdepth
        cases hkind : m.innermost.kind.closesSilently with
        | false =>
            refine ⟨1, by simp [frames], ?_⟩
            rw [enterScope_of_not_silent kind hdepth hkind]
            exact .finish hdepth (closesSilently_eq_false.mp hkind)
        | true =>
            obtain ⟨n, hn, hresolution⟩ := ih m.closeScope (by simp [hopened])
            refine ⟨n + 1, ?_, ?_⟩
            · simpa [frames, hopened] using hn
            · rw [enterScope_of_silent kind hdepth hkind]
              exact .retry hdepth (closesSilently_eq_true.mp hkind) hresolution

end GenomeMachine.Machine
