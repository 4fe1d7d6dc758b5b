import GenomeMachine.Text.Blank
import GenomeMachine.Text.Numeral
import Mathlib.Data.Nat.Digits.Defs
import Mathlib.Tactic.IntervalCases
import Mathlib.Tactic.Ring

/-! # Numerals

The decimal digits of a number are read as that number. In general a numeral is a row of digits of
some base, and reading it gives what the digits are worth in that base. -/

namespace GenomeMachine

section Digits

variable {ch : Char}

theorem isDigit_iff : ch.isDigit = true ↔ '0' ≤ ch ∧ ch ≤ '9' := by
  simp [Char.isDigit, Char.le_def]

theorem digitValue_of_isDigit (h : ch.isDigit = true) :
    digitValue ch = some (ch.toNat - '0'.toNat) := by
  rw [digitValue, if_pos (isDigit_iff.mp h)]

/-- The digits of base ten are the decimal ones, although `digitValue` knows letters too. -/
theorem isDigitIn_ten (ch : Char) : isDigitIn 10 ch = ch.isDigit := by
  cases h : ch.isDigit with
  | true =>
      have hrange := Char.isDigit_iff_toNat.mp h
      rw [isDigitIn, digitValue_of_isDigit h, Option.any_some, decide_eq_true_iff]
      change 48 ≤ ch.toNat ∧ ch.toNat ≤ 57 at hrange
      change ch.toNat - 48 < 10
      omega
  | false =>
      have hrange : ¬('0' ≤ ch ∧ ch ≤ '9') := by
        rw [← isDigit_iff, h]
        exact Bool.false_ne_true
      rw [isDigitIn, digitValue, if_neg hrange]
      split
      · simp
      · split <;> simp

theorem isBlank_of_isDigit (h : ch.isDigit = true) : isBlank ch = false := by
  have hrange := Char.isDigit_iff_toNat.mp h
  change 48 ≤ ch.toNat ∧ ch.toNat ≤ 57 at hrange
  simp [isBlank]
  omega

end Digits

theorem isDigit_of_mem_toDigits {n : Nat} {ch : Char} (h : ch ∈ Nat.toDigits 10 n) :
    ch.isDigit = true :=
  Nat.isDigit_of_mem_toDigits (by decide) (by decide) h

theorem digitsValue_toDigits (n : Nat) : digitsValue 10 (Nat.toDigits 10 n) = n := by
  have hdigits (cs : List Char) (value : Nat) (h : ∀ ch ∈ cs, ch.isDigit = true) :
      cs.foldl (fun value ch => value * 10 + (digitValue ch).getD 0) value =
        Nat.ofDigitChars 10 cs value := by
    induction cs generalizing value with
    | nil => rfl
    | cons ch cs ih =>
        rw [List.foldl_cons, ih _ (fun d hd => h d (by simp [hd])), Nat.ofDigitChars_cons,
          digitValue_of_isDigit (h ch (by simp)), Option.getD_some, Nat.mul_comm]
  rw [digitsValue, hdigits _ _ fun ch hch => isDigit_of_mem_toDigits hch,
    Nat.ofDigitChars_ten_toDigits]

theorem natural?_toDigits (n : Nat) : natural? 10 (Nat.toDigits 10 n) = some n := by
  rw [natural?, if_pos, digitsValue_toDigits]
  refine ⟨Nat.toDigits_ne_nil, List.all_eq_true.mpr ?_⟩
  intro ch hch
  rw [isDigitIn_ten, isDigit_of_mem_toDigits hch]

/-- A numeral of digits alone has no sign. -/
theorem unsigned?_toDigits (n : Nat) : unsigned? 10 (Nat.toDigits 10 n) = some n := by
  rw [← natural?_toDigits n, unsigned?.eq_def]
  split
  next cs hcs =>
    have hsign : '+'.isDigit = true := isDigit_of_mem_toDigits (by rw [hcs]; simp)
    exact absurd hsign (by decide)
  next => rfl

theorem word?_toDigits {n : Nat} (h : n ≤ wordLimit) : word? 10 (Nat.toDigits 10 n) = some n := by
  rw [word?, unsigned?_toDigits]
  simpa [Option.filter] using h

/-! ## Any base -/

/-- The character is the digit of a value in bases up to sixteen, in either case. -/
def IsDigitOf (ch : Char) (value : Nat) : Prop :=
  value < 16 ∧ (ch = value.digitChar ∨ ch = value.digitChar.toUpper)

instance (ch : Char) (value : Nat) : Decidable (IsDigitOf ch value) :=
  inferInstanceAs (Decidable (_ ∧ _))

theorem digitValue_eq_some_iff {ch : Char} {value : Nat} :
    digitValue ch = some value ↔ IsDigitOf ch value := by
  constructor
  · intro h
    -- All digits are among the first characters, where each one can be looked at.
    have hfirst : ∀ n < 103, ∀ v ∈ digitValue (Char.ofNat n), IsDigitOf (Char.ofNat n) v := by
      decide
    have hlt : ch.toNat < 103 := by
      by_contra hge
      have hbeyond (first last : Char) (hlast : last.toNat < 103) :
          ¬(first ≤ ch ∧ ch ≤ last) := by
        rintro ⟨_, hle⟩
        have hle : ch.toNat ≤ last.toNat := hle
        omega
      rw [digitValue, if_neg (hbeyond _ _ (by decide)), if_neg (hbeyond _ _ (by decide)),
        if_neg (hbeyond _ _ (by decide))] at h
      cases h
    have hdigit := hfirst ch.toNat hlt
    rw [Char.ofNat_toNat] at hdigit
    exact hdigit value h
  · rintro ⟨hvalue, hch⟩
    interval_cases value <;> rcases hch with rfl | rfl <;> decide

theorem isDigitIn_iff {base : Nat} {ch : Char} :
    isDigitIn base ch = true ↔ ∃ value < base, IsDigitOf ch value := by
  simp only [isDigitIn, Option.any_eq_true, decide_eq_true_eq, digitValue_eq_some_iff, and_comm]

/-- A row of digits is worth what its values are worth from the last one on. -/
theorem digitsValue_eq_ofDigits (base : Nat) {digits : List Char} {values : List Nat}
    (h : List.Forall₂ IsDigitOf digits values) :
    digitsValue base digits = Nat.ofDigits base values.reverse := by
  have hfold (start : Nat) :
      digits.foldl (fun value ch => value * base + (digitValue ch).getD 0) start =
        Nat.ofDigits base values.reverse + base ^ values.length * start := by
    induction h generalizing start with
    | nil => simp
    | @cons ch value digits values hch _ ih =>
        rw [List.foldl_cons, ih, digitValue_eq_some_iff.mpr hch, Option.getD_some,
          List.reverse_cons, Nat.ofDigits_append, Nat.ofDigits_singleton, List.length_reverse,
          List.length_cons]
        ring
  simpa [digitsValue] using hfold 0

/-- One or more digits of a base, and what they are worth. -/
def IsNumeral (base : Nat) (digits : List Char) (value : Nat) : Prop :=
  digits ≠ [] ∧ ∃ values : List Nat, List.Forall₂ IsDigitOf digits values ∧
    (∀ v ∈ values, v < base) ∧ value = Nat.ofDigits base values.reverse

theorem exists_values {base : Nat} {digits : List Char} (h : digits.all (isDigitIn base)) :
    ∃ values : List Nat, List.Forall₂ IsDigitOf digits values ∧ ∀ v ∈ values, v < base := by
  induction digits with
  | nil => exact ⟨[], .nil, by simp⟩
  | cons ch digits ih =>
      rw [List.all_cons, Bool.and_eq_true, isDigitIn_iff] at h
      obtain ⟨⟨value, hlt, hch⟩, hdigits⟩ := h
      obtain ⟨values, hvalues, hall⟩ := ih hdigits
      exact ⟨value :: values, .cons hch hvalues, List.forall_mem_cons.mpr ⟨hlt, hall⟩⟩

theorem all_isDigitIn {base : Nat} {digits : List Char} {values : List Nat}
    (h : List.Forall₂ IsDigitOf digits values) (hlt : ∀ v ∈ values, v < base) :
    digits.all (isDigitIn base) := by
  induction h with
  | nil => rfl
  | cons hch _ ih =>
      obtain ⟨hvalue, hvalues⟩ := List.forall_mem_cons.mp hlt
      rw [List.all_cons, ih hvalues, isDigitIn_iff.mpr ⟨_, hvalue, hch⟩]
      rfl

theorem natural?_eq_some_iff {base value : Nat} {digits : List Char} :
    natural? base digits = some value ↔ IsNumeral base digits value := by
  rw [natural?, Option.ite_none_right_eq_some]
  constructor
  · rintro ⟨⟨hne, hdigits⟩, hvalue⟩
    obtain ⟨values, hvalues, hlt⟩ := exists_values hdigits
    cases hvalue
    exact ⟨hne, values, hvalues, hlt, digitsValue_eq_ofDigits base hvalues⟩
  · rintro ⟨hne, values, hvalues, hlt, rfl⟩
    exact ⟨⟨hne, all_isDigitIn hvalues hlt⟩, by rw [digitsValue_eq_ofDigits base hvalues]⟩

/-- Every digit of a numeral is one of its base. -/
theorem IsNumeral.isDigitIn_of_mem {base value : Nat} {digits : List Char}
    (h : IsNumeral base digits value) : ∀ ch ∈ digits, isDigitIn base ch = true := by
  obtain ⟨_, values, hvalues, hlt, _⟩ := h
  exact List.all_eq_true.mp (all_isDigitIn hvalues hlt)

theorem unsigned?_eq_some_iff {base value : Nat} {cs : List Char} :
    unsigned? base cs = some value ↔ ∃ sign digits, (sign = [] ∨ sign = ['+']) ∧
      cs = sign ++ digits ∧ IsNumeral base digits value := by
  rw [unsigned?.eq_def]
  split
  next rest =>
    rw [natural?_eq_some_iff]
    constructor
    · intro h
      exact ⟨['+'], rest, .inr rfl, rfl, h⟩
    · rintro ⟨sign, digits, rfl | rfl, hcs, h⟩
      · obtain rfl : '+' :: rest = digits := hcs
        have hplus : isDigitIn base '+' = false := rfl
        simp [h.isDigitIn_of_mem '+' List.mem_cons_self] at hplus
      · cases hcs
        exact h
  next hplus =>
    rw [natural?_eq_some_iff]
    constructor
    · intro h
      exact ⟨[], cs, .inl rfl, rfl, h⟩
    · rintro ⟨sign, digits, rfl | rfl, rfl, h⟩
      · exact h
      · exact absurd rfl (hplus digits)

end GenomeMachine
