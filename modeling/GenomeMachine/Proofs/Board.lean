import GenomeMachine.Machine.Board

/-! # Flanking

The rule of the game, and the search that decides it by going from square to square with no bound
set in advance. `Search` has no rule for a read past the end of the board, so a search that comes to
an answer has made no such read. `flanks_rule` says that there always is an answer, that it is the
one of `flanks`, and that it is what the rule says. -/

namespace GenomeMachine

/-! ## Pieces -/

theorem beq_eq_compare (x y : Float) :
    (x == y) = (x.toModel.unpack.compare y.toModel.unpack == some .eq) := rfl

/-- The two players' pieces are told apart by their sign. -/
theorem not_opponent_of_player {piece : Float} (h : (piece == 1.0) = true) :
    (piece == -1.0) = false := by
  have hplayer : (1.0 : Float).toModel.unpack = .finite .positive (2 ^ 52) (-52) (by decide) := rfl
  have hopponent : (-1.0 : Float).toModel.unpack = .finite .negative (2 ^ 52) (-52) (by decide) :=
    rfl
  rw [beq_eq_compare, hplayer] at h
  rw [beq_eq_compare, hopponent]
  cases hpiece : piece.toModel.unpack with
  | notANumber | zero => rfl
  | infinity sign => cases sign <;> rfl
  | finite sign =>
      rw [hpiece] at h
      cases sign with
      | positive => rfl
      | negative => cases h

/-! ## The rule -/

/-- The square at a row and column is on the board. -/
def OnBoard (row column : Int) : Prop :=
  (0 ≤ row ∧ row < 8) ∧ 0 ≤ column ∧ column < 8

instance (row column : Int) : Decidable (OnBoard row column) :=
  inferInstanceAs (Decidable (_ ∧ _))

/-- The number of a square, which is where the board keeps its piece. -/
def squareIndex (row column : Int) : Int :=
  row * 8 + column

/-- The board has a piece at a row and column. -/
def HasPiece (board : Vector Float 64) (row column : Int) (piece : Float) : Prop :=
  OnBoard row column ∧ ∃ found, board[(squareIndex row column).toNat]? = some found ∧ found == piece

/-- A run of opponent pieces leads out of a square to a piece of the player. The run may be empty
only if an opponent piece was `seen` before. -/
def LeadsToPlayer (board : Vector Float 64) (step : Int × Int) (seen : Bool) (row column : Int) :
    Prop :=
  ∃ n : Nat, (seen = true ∨ 1 ≤ n) ∧
    (∀ i : Nat, 1 ≤ i → i ≤ n →
      HasPiece board (row + i * step.1) (column + i * step.2) (-1.0)) ∧
    HasPiece board (row + (n + 1 : Nat) * step.1) (column + (n + 1 : Nat) * step.2) 1.0

section Rule

variable {board : Vector Float 64} {step : Int × Int} {seen : Bool} {row column : Int}

theorem along_succ (start step : Int) (i : Nat) :
    start + (i + 1 : Nat) * step = start + step + i * step := by
  rw [Int.natCast_add, Int.add_mul]
  omega

/-- The next square settles the rule, or else passes it on to the square after it. -/
theorem leadsToPlayer_iff :
    LeadsToPlayer board step seen row column ↔
      (HasPiece board (row + step.1) (column + step.2) 1.0 ∧ seen = true) ∨
        (HasPiece board (row + step.1) (column + step.2) (-1.0) ∧
          LeadsToPlayer board step true (row + step.1) (column + step.2)) := by
  constructor
  · rintro ⟨n, hn, hrun, hend⟩
    cases n with
    | zero =>
        left
        simp only [along_succ, Int.natCast_zero, Int.zero_mul, Int.add_zero] at hend
        exact ⟨hend, by simpa using hn⟩
    | succ n =>
        right
        have hfirst := hrun 1 (Nat.le_refl 1) (by omega)
        rw [Int.natCast_one, Int.one_mul, Int.one_mul] at hfirst
        refine ⟨hfirst, n, .inl rfl, ?_, ?_⟩
        · intro i hi hle
          have hnext := hrun (i + 1) (by omega) (by omega)
          rwa [along_succ, along_succ] at hnext
        · rwa [along_succ row, along_succ column] at hend
  · rintro (⟨hplayer, rfl⟩ | ⟨hopponent, n, -, hrun, hend⟩)
    · refine ⟨0, .inl rfl, ?_, ?_⟩
      · intro i hi hle
        omega
      · simpa [along_succ] using hplayer
    · refine ⟨n + 1, .inr (by omega), ?_, ?_⟩
      · intro i hi hle
        obtain ⟨j, rfl⟩ : ∃ j, i = j + 1 := ⟨i - 1, by omega⟩
        rw [along_succ, along_succ]
        cases j with
        | zero => simpa using hopponent
        | succ j => exact hrun (j + 1) (by omega) (by omega)
      · rw [along_succ row, along_succ column]
        exact hend

theorem not_leadsToPlayer_of_edge (h : ¬OnBoard (row + step.1) (column + step.2)) :
    ¬LeadsToPlayer board step seen row column := by
  rw [leadsToPlayer_iff]
  rintro (⟨hplayer, -⟩ | ⟨hopponent, -⟩)
  · exact h hplayer.1
  · exact h hopponent.1

/-- What the rule says depends on the piece on the next square, and on what comes behind it. -/
theorem leadsToPlayer_iff_of_read {piece : Float} (hon : OnBoard (row + step.1) (column + step.2))
    (hread : board[(squareIndex (row + step.1) (column + step.2)).toNat]? = some piece) :
    LeadsToPlayer board step seen row column ↔
      ((piece == 1.0) = true ∧ seen = true) ∨
        ((piece == -1.0) = true ∧
          LeadsToPlayer board step true (row + step.1) (column + step.2)) := by
  have hpiece (other : Float) :
      HasPiece board (row + step.1) (column + step.2) other ↔ (piece == other) = true := by
    simp only [HasPiece, hon, hread, true_and, Option.some.injEq, exists_eq_left']
  rw [leadsToPlayer_iff, hpiece, hpiece]

end Rule

/-! ## The search -/

/-- A search that stands on a square and has or has not `seen` an opponent piece, with the numbers
of the squares that it reads from there on, and its answer. It looks at the next square, ends at the
edge of the board and at any piece but one of the opponent, and goes on behind that one. -/
inductive Search (board : Vector Float 64) (step : Int × Int) :
    Bool → Int → Int → List Int → Bool → Prop where
  | edge {seen : Bool} {row column : Int} (hoff : ¬OnBoard (row + step.1) (column + step.2)) :
      Search board step seen row column [] false
  | opponent {seen answer : Bool} {row column : Int} {reads : List Int} {piece : Float}
      (hon : OnBoard (row + step.1) (column + step.2))
      (hread : board[(squareIndex (row + step.1) (column + step.2)).toNat]? = some piece)
      (hopponent : (piece == -1.0) = true) :
      Search board step true (row + step.1) (column + step.2) reads answer →
      Search board step seen row column
        (squareIndex (row + step.1) (column + step.2) :: reads) answer
  | player {seen : Bool} {row column : Int} {piece : Float}
      (hon : OnBoard (row + step.1) (column + step.2))
      (hread : board[(squareIndex (row + step.1) (column + step.2)).toNat]? = some piece)
      (hopponent : (piece == -1.0) = false) (hplayer : (piece == 1.0) = true) :
      Search board step seen row column [squareIndex (row + step.1) (column + step.2)] seen
  | other {seen : Bool} {row column : Int} {piece : Float}
      (hon : OnBoard (row + step.1) (column + step.2))
      (hread : board[(squareIndex (row + step.1) (column + step.2)).toNat]? = some piece)
      (hopponent : (piece == -1.0) = false) (hplayer : (piece == 1.0) = false) :
      Search board step seen row column [squareIndex (row + step.1) (column + step.2)] false

section Search

variable {board : Vector Float 64} {step : Int × Int} {seen answer : Bool} {row column : Int}
  {reads : List Int}

/-- A search answers what the rule says. -/
theorem Search.answer_iff (h : Search board step seen row column reads answer) :
    answer = true ↔ LeadsToPlayer board step seen row column := by
  induction h with
  | edge hoff => simpa using not_leadsToPlayer_of_edge hoff
  | opponent hon hread hopponent _ ih =>
      have hplayer : ¬(_ == (1.0 : Float)) = true := fun hplayer =>
        absurd (hopponent.symm.trans (not_opponent_of_player hplayer)) (by decide)
      rw [leadsToPlayer_iff_of_read hon hread, ih]
      simp [hplayer, hopponent]
  | player hon hread hopponent hplayer =>
      rw [leadsToPlayer_iff_of_read hon hread]
      simp [hplayer, hopponent]
  | other hon hread hopponent hplayer =>
      rw [leadsToPlayer_iff_of_read hon hread]
      simp [hplayer, hopponent]

theorem OnBoard.index_bounds (h : OnBoard row column) :
    0 ≤ squareIndex row column ∧ squareIndex row column < 64 := by
  obtain ⟨⟨_, _⟩, _, _⟩ := h
  simp only [squareIndex]
  omega

theorem Search.index_bounds (h : Search board step seen row column reads answer) :
    ∀ index ∈ reads, 0 ≤ index ∧ index < 64 := by
  induction h with
  | edge => simp
  | opponent hon _ _ _ ih => exact List.forall_mem_cons.mpr ⟨hon.index_bounds, ih⟩
  | player hon | other hon => simpa using hon.index_bounds

end Search

/-! ## The line out of a square -/

theorem square?_of_onBoard {row column : Int} (h : OnBoard row column) :
    ∃ square : Fin 64, square? row column = some square ∧
      square.val = (squareIndex row column).toNat :=
  ⟨_, dif_pos h, rfl⟩

theorem square?_of_not_onBoard {row column : Int} (h : ¬OnBoard row column) :
    square? row column = none :=
  dif_neg h

/-- From a square of the board no line leads on for eight squares. -/
theorem not_onBoard_eight (direction : Direction) {row column : Int} (h : OnBoard row column) :
    ¬OnBoard (row + 8 * direction.step.1) (column + 8 * direction.step.2) := by
  obtain ⟨⟨_, _⟩, _, _⟩ := h
  rintro ⟨⟨_, _⟩, _, _⟩
  cases direction <;> simp only [Direction.step] at * <;> omega

theorem ray_of_edge {direction : Direction} {row column : Int}
    (h : ¬OnBoard (row + direction.step.1) (column + direction.step.2)) :
    direction.ray row column = [] := by
  have hnone := square?_of_not_onBoard h
  simp [Direction.ray, List.range_succ_eq_map, hnone]

theorem takeWhile_isSome_concat_none {α : Type} (xs : List (Option α)) :
    (xs ++ [none]).takeWhile (·.isSome) = xs.takeWhile (·.isSome) := by
  induction xs with
  | nil => rfl
  | cons x xs ih => cases x <;> simp [ih]

/-- The line out of a square is the next square and the line out of that. -/
theorem ray_of_onBoard {direction : Direction} {row column : Int} {square : Fin 64}
    (hon : OnBoard row column)
    (hsquare : square? (row + direction.step.1) (column + direction.step.2) = some square) :
    direction.ray row column =
      square :: direction.ray (row + direction.step.1) (column + direction.step.2) := by
  -- Seven squares from here are the next one and six from there. The seventh from there is the
  -- eighth from here, which is off the board.
  have hhere : (List.range 7).map (fun (i : Nat) => square? (row + (i + 1) * direction.step.1)
      (column + (i + 1) * direction.step.2)) =
        some square :: (List.range 6).map fun (i : Nat) =>
          square? (row + direction.step.1 + (i + 1) * direction.step.1)
            (column + direction.step.2 + (i + 1) * direction.step.2) := by
    rw [List.range_succ_eq_map, List.map_cons, List.map_map]
    congr 1
    · simpa using hsquare
    · refine List.map_congr_left fun i _ => ?_
      change square? (row + (i + 1 + 1 : Nat) * _) (column + (i + 1 + 1 : Nat) * _) = _
      rw [along_succ row, along_succ column]
      rfl
  have hthere : square? (row + direction.step.1 + ((6 : Nat) + 1) * direction.step.1)
      (column + direction.step.2 + ((6 : Nat) + 1) * direction.step.2) = none := by
    refine square?_of_not_onBoard ?_
    change ¬OnBoard (row + direction.step.1 + (7 : Nat) * direction.step.1)
      (column + direction.step.2 + (7 : Nat) * direction.step.2)
    rw [← along_succ row, ← along_succ column]
    exact not_onBoard_eight direction hon
  have hrange : List.range 7 = List.range 6 ++ [6] := List.range_succ
  rw [Direction.ray, hhere, List.takeWhile_cons_of_pos rfl, Direction.ray, hrange,
    List.map_append, List.map_singleton, hthere, takeWhile_isSome_concat_none]
  rfl

theorem getElem?_toNat_of_val_eq (board : Vector Float 64) {square : Fin 64} {index : Int}
    (h : square.val = index.toNat) : board[index.toNat]? = some (board.get square) := by
  rw [← h]
  exact Vector.getElem?_eq_getElem square.isLt

/-! ## Answers -/

/-- The answer of a search to the pieces on the line before it. -/
def runAnswer (seen : Bool) (pieces : List Float) : Bool :=
  (seen || pieces.head?.any (· == -1.0)) && (pieces.dropWhile (· == -1.0)).head?.any (· == 1.0)

section Answer

variable {seen : Bool} {piece : Float} {pieces : List Float}

theorem runAnswer_false : runAnswer false pieces = flankedRun pieces := rfl

theorem runAnswer_nil : runAnswer seen [] = false := by
  simp [runAnswer]

theorem runAnswer_opponent (h : (piece == -1.0) = true) :
    runAnswer seen (piece :: pieces) = runAnswer true pieces := by
  simp [runAnswer, h]

theorem runAnswer_of_not_opponent (h : (piece == -1.0) = false) :
    runAnswer seen (piece :: pieces) = (seen && (piece == 1.0)) := by
  simp [runAnswer, h]

end Answer

/-- Every search comes to an end, with the answer to the pieces on the line out of its square. -/
theorem exists_search (board : Vector Float 64) (direction : Direction) (seen : Bool)
    {row column : Int} (hon : OnBoard row column) :
    ∃ reads, Search board direction.step seen row column reads
      (runAnswer seen ((direction.ray row column).map board.get)) := by
  generalize hray : direction.ray row column = ray
  -- The line gets shorter with each square that the search goes on.
  induction ray generalizing seen row column with
  | nil =>
      have hoff : ¬OnBoard (row + direction.step.1) (column + direction.step.2) := by
        intro hnext
        obtain ⟨square, hsquare, -⟩ := square?_of_onBoard hnext
        rw [ray_of_onBoard hon hsquare] at hray
        cases hray
      rw [List.map_nil, runAnswer_nil]
      exact ⟨[], .edge hoff⟩
  | cons square rest ih =>
      have hnext : OnBoard (row + direction.step.1) (column + direction.step.2) := by
        apply Decidable.byContradiction
        intro hoff
        rw [ray_of_edge hoff] at hray
        cases hray
      obtain ⟨found, hsquare, hindex⟩ := square?_of_onBoard hnext
      rw [ray_of_onBoard hon hsquare] at hray
      obtain ⟨rfl, hrest⟩ := List.cons.inj hray
      have hread := getElem?_toNat_of_val_eq board hindex
      rw [List.map_cons]
      cases hopponent : board.get found == -1.0 with
      | true =>
          obtain ⟨reads, hreads⟩ := ih true hnext hrest
          rw [runAnswer_opponent hopponent]
          exact ⟨_, .opponent hnext hread hopponent hreads⟩
      | false =>
          rw [runAnswer_of_not_opponent hopponent]
          cases hplayer : board.get found == 1.0 with
          | true =>
              rw [Bool.and_true]
              exact ⟨_, .player hnext hread hopponent hplayer⟩
          | false =>
              rw [Bool.and_false]
              exact ⟨_, .other hnext hread hopponent hplayer⟩

/-! ## Moves -/

/-- How it is decided whether a move flanks, with the numbers of the squares that are read. -/
inductive Decision (board : Vector Float 64) (step : Int × Int) (position : Int) :
    List Int → Bool → Prop where
  | outside (hoff : ¬(0 ≤ position ∧ position < 64)) : Decision board step position [] false
  | occupied {piece : Float} (hon : 0 ≤ position ∧ position < 64)
      (hread : board[position.toNat]? = some piece) (hpiece : (piece == 0.0) = false) :
      Decision board step position [position] false
  | searched {piece : Float} {reads : List Int} {answer : Bool}
      (hon : 0 ≤ position ∧ position < 64) (hread : board[position.toNat]? = some piece)
      (hpiece : (piece == 0.0) = true)
      (hsearch : Search board step false (position / 8) (position % 8) reads answer) :
      Decision board step position (position :: reads) answer

/-- A move to an empty square of the board flanks when one or more opponent pieces lead from there
to a piece of the player. -/
def Flanks (board : Vector Float 64) (step : Int × Int) (position : Int) : Prop :=
  (0 ≤ position ∧ position < 64) ∧
    (∃ piece, board[position.toNat]? = some piece ∧ piece == 0.0) ∧
    ∃ n : Nat, 1 ≤ n ∧
      (∀ i : Nat, 1 ≤ i → i ≤ n →
        HasPiece board (position / 8 + i * step.1) (position % 8 + i * step.2) (-1.0)) ∧
      HasPiece board (position / 8 + (n + 1 : Nat) * step.1)
        (position % 8 + (n + 1 : Nat) * step.2) 1.0

section Moves

variable {board : Vector Float 64} {step : Int × Int} {position : Int} {reads : List Int}
  {answer : Bool}

theorem Decision.answer_iff (h : Decision board step position reads answer) :
    answer = true ↔ Flanks board step position := by
  cases h with
  | outside hoff => simp [Flanks, hoff]
  | occupied hon hread hpiece => simp [Flanks, hread, hpiece]
  | searched hon hread hpiece hsearch =>
      have hempty : ∃ piece, board[position.toNat]? = some piece ∧ piece == 0.0 :=
        ⟨_, hread, hpiece⟩
      rw [hsearch.answer_iff]
      simp only [Flanks, LeadsToPlayer, hon, hempty, true_and, Bool.false_eq_true, false_or]

theorem Decision.index_bounds (h : Decision board step position reads answer) :
    ∀ index ∈ reads, 0 ≤ index ∧ index < 64 := by
  cases h with
  | outside => simp
  | occupied hon => simpa using hon
  | searched hon _ _ hsearch => exact List.forall_mem_cons.mpr ⟨hon, hsearch.index_bounds⟩

end Moves

/-- There always is a decision, and it is that of the machine. -/
theorem exists_decision (m : Machine) (position : Int64) (direction : Direction) :
    ∃ reads, Decision m.board direction.step position.toInt reads
      (m.flanks position direction) := by
  by_cases hon : 0 ≤ position.toInt ∧ position.toInt < 64
  · have hstart : OnBoard (position.toInt / 8) (position.toInt % 8) := by
      simp only [OnBoard]
      omega
    have hread : m.board[position.toInt.toNat]? =
        some (m.board.get ⟨position.toInt.toNat, by omega⟩) :=
      getElem?_toNat_of_val_eq m.board rfl
    rw [Machine.flanks, dif_pos hon]
    cases hpiece : m.board.get ⟨position.toInt.toNat, by omega⟩ == 0.0 with
    | false =>
        rw [Bool.false_and]
        exact ⟨_, .occupied hon hread hpiece⟩
    | true =>
        obtain ⟨reads, hreads⟩ := exists_search m.board direction false hstart
        rw [Bool.true_and, ← runAnswer_false]
        exact ⟨_, .searched hon hread hpiece hreads⟩
  · rw [Machine.flanks, dif_neg hon]
    exact ⟨[], .outside hon⟩

/-- The machine says that a move flanks exactly when it does by the rule. The search that decides it
always comes to an end, and reads squares of the board only. -/
theorem flanks_rule (m : Machine) (position : Int64) (direction : Direction) :
    (m.flanks position direction = true ↔ Flanks m.board direction.step position.toInt) ∧
      (∃ reads, Decision m.board direction.step position.toInt reads
        (m.flanks position direction)) ∧
      ∀ reads answer, Decision m.board direction.step position.toInt reads answer →
        answer = m.flanks position direction ∧ ∀ index ∈ reads, 0 ≤ index ∧ index < 64 := by
  obtain ⟨reads, hreads⟩ := exists_decision m position direction
  refine ⟨hreads.answer_iff, ⟨reads, hreads⟩, ?_⟩
  intro reads' answer hanswer
  refine ⟨?_, hanswer.index_bounds⟩
  rw [Bool.eq_iff_iff, hanswer.answer_iff, hreads.answer_iff]

/-- A run down a diagonal to a piece of the player, a run up to the end of its row with a piece of
the player at the start of the next row, and a run to a piece that is neither player's. -/
def skirmish : Machine :=
  { Machine.new .empty #[] with
    board := .ofFn fun i =>
      if i.val ∈ [6, 7, 9, 18, 33, 34] then -1.0
      else if i.val ∈ [8, 27] then 1.0
      else if i.val = 35 then 2.0
      else 0.0 }

theorem skirmish_rule :
    Flanks skirmish.board Direction.downRight.step 0 ∧
      ¬Flanks skirmish.board Direction.right.step 5 ∧
      ¬Flanks skirmish.board Direction.right.step 32 ∧
      ¬Flanks skirmish.board Direction.downRight.step 64 ∧
      ∀ reads answer, Decision skirmish.board Direction.downRight.step 0 reads answer →
        answer = true := by
  have hflanks : skirmish.flanks 0 .downRight = true ∧ skirmish.flanks 5 .right = false ∧
      skirmish.flanks 32 .right = false ∧ skirmish.flanks 64 .downRight = false := by
    decide +kernel
  obtain ⟨hdiagonal, hedge, hforeign, houtside⟩ := hflanks
  have hno {position : Int64} {direction : Direction}
      (h : skirmish.flanks position direction = false) :
      ¬Flanks skirmish.board direction.step position.toInt := by
    rw [← (flanks_rule skirmish position direction).1, h]
    decide
  obtain ⟨hrule, -, hanswer⟩ := flanks_rule skirmish 0 .downRight
  exact ⟨hrule.mp hdiagonal, hno hedge, hno hforeign, hno houtside,
    fun reads answer h => (hanswer reads answer h).1.trans hdiagonal⟩

end GenomeMachine
