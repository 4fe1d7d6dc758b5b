import GenomeMachine.Genome.Codec

/-! # Genomes and their bytes

Genomes and byte strings of whole groups of eight stand in one-to-one correspondence. Words and
instructions correspond to their bytes, and a string is decoded group by group. -/

namespace GenomeMachine

/-! ## Words -/

theorem wordOfBytes_wordBytes (w : UInt16) :
    wordOfBytes (.ofNat (w.toNat % 256)) (.ofNat (w.toNat / 256)) = w := by
  have hword := w.toNat_lt
  have hlow : (UInt8.ofNat (w.toNat % 256)).toNat = w.toNat % 256 :=
    UInt8.toNat_ofNat_of_lt (Nat.mod_lt _ (by decide))
  have hhigh : (UInt8.ofNat (w.toNat / 256)).toNat = w.toNat / 256 :=
    UInt8.toNat_ofNat_of_lt (Nat.div_lt_of_lt_mul hword)
  rw [wordOfBytes, hlow, hhigh, Nat.mod_add_div, UInt16.ofNat_toNat]

theorem wordBytes_wordOfBytes (low high : UInt8) :
    wordBytes (wordOfBytes low high) = [low, high] := by
  have hlow := low.toNat_lt
  have hhigh := high.toNat_lt
  have hbound : low.toNat + 256 * high.toNat < 2 ^ 16 := by omega
  have hvalue : (wordOfBytes low high).toNat = low.toNat + 256 * high.toNat :=
    UInt16.toNat_ofNat_of_lt hbound
  have hmod : (low.toNat + 256 * high.toNat) % 256 = low.toNat := by omega
  have hdiv : (low.toNat + 256 * high.toNat) / 256 = high.toNat := by omega
  rw [wordBytes, hvalue, hmod, hdiv, UInt8.ofNat_toNat, UInt8.ofNat_toNat]

/-! ## Instructions -/

namespace Instruction

theorem length_encode (i : Instruction) : i.encode.length = 8 := rfl

/-- The bytes of an instruction are read as that instruction, whatever follows them. -/
theorem decodeAll_encode_append (i : Instruction) (rest : List UInt8) :
    decodeAll (i.encode ++ rest) = i :: decodeAll rest := by
  simp only [encode, wordBytes, List.cons_append, List.nil_append, decodeAll,
    wordOfBytes_wordBytes]

theorem decodeAll_flatMap_encode (is : List Instruction) :
    decodeAll (is.flatMap encode) = is := by
  induction is with
  | nil => rfl
  | cons i is ih => rw [List.flatMap_cons, decodeAll_encode_append, ih]

/-- Eight bytes are the bytes of the instruction that they are read as. -/
theorem encode_ofBytes (a b c d e f g h : UInt8) :
    encode ⟨wordOfBytes a b, wordOfBytes c d, wordOfBytes e f, wordOfBytes g h⟩ =
      [a, b, c, d, e, f, g, h] := by
  simp only [encode, wordBytes_wordOfBytes, List.cons_append, List.nil_append]

theorem flatMap_encode_decodeAll {bytes : List UInt8} (hlength : 8 ∣ bytes.length) :
    (decodeAll bytes).flatMap encode = bytes := by
  fun_induction decodeAll bytes with
  | case1 a b c d e f g h rest ih =>
      have hrest : 8 ∣ rest.length := (Nat.dvd_add_left (Nat.dvd_refl 8)).mp hlength
      rw [List.flatMap_cons, encode_ofBytes, ih hrest]
      rfl
  | case2 bytes hshort =>
      -- Less than a whole group is left, and so nothing is.
      match bytes with
      | [] => rfl
      | [_] | [_, _] | [_, _, _] | [_, _, _, _] | [_, _, _, _, _] | [_, _, _, _, _, _]
      | [_, _, _, _, _, _, _] => simp at hlength
      | a :: b :: c :: d :: e :: f :: g :: h :: rest =>
          exact absurd rfl (hshort a b c d e f g h rest)

end Instruction

/-! ## Genomes -/

namespace Genome

theorem length_encode (g : Genome) : (encode g).length = 8 * g.size := by
  simp only [encode, List.length_flatMap, Instruction.length_encode, List.map_const',
    List.sum_replicate_nat, Array.length_toList, Nat.mul_comm]

theorem dvd_length_encode (g : Genome) : 8 ∣ (encode g).length := by
  rw [length_encode]
  exact Nat.dvd_mul_right 8 g.size

theorem decode_of_dvd {bytes : List UInt8} (h : 8 ∣ bytes.length) :
    decode bytes = .ok (Instruction.decodeAll bytes).toArray :=
  if_pos (Nat.mod_eq_zero_of_dvd h)

theorem decode_of_not_dvd {bytes : List UInt8} (h : ¬8 ∣ bytes.length) :
    decode bytes = .error (.invalidLength bytes.length) :=
  if_neg fun hzero => h (Nat.dvd_of_mod_eq_zero hzero)

theorem decode_encode (g : Genome) : decode (encode g) = .ok g := by
  rw [decode_of_dvd (dvd_length_encode g), encode, Instruction.decodeAll_flatMap_encode]

theorem encode_append (g h : Genome) : encode (g ++ h) = encode g ++ encode h := by
  rw [encode, Array.toList_append, List.flatMap_append]
  rfl

end Genome

/-- A genome takes eight bytes for each instruction, and they are read as that genome. Bytes are
refused for their length alone, when it is not a multiple of eight; all others are the bytes of the
genome that they are read as. One genome behind another has its bytes behind those of the other. -/
theorem encode_bijective :
    (∀ g : Genome, (Genome.encode g).length = 8 * g.size ∧
        Genome.decode (Genome.encode g) = .ok g) ∧
      (∀ bytes fault, Genome.decode bytes = .error fault ↔
        ¬8 ∣ bytes.length ∧ fault = .invalidLength bytes.length) ∧
      (∀ bytes : List UInt8, 8 ∣ bytes.length ↔
        ∃ g : Genome, Genome.decode bytes = .ok g ∧ Genome.encode g = bytes) ∧
      ∀ g h : Genome, Genome.encode (g ++ h) = Genome.encode g ++ Genome.encode h := by
  refine ⟨fun g => ⟨g.length_encode, g.decode_encode⟩, ?_, ?_, Genome.encode_append⟩
  · intro bytes fault
    by_cases hlength : 8 ∣ bytes.length
    · simp [Genome.decode_of_dvd hlength, hlength]
    · simp [Genome.decode_of_not_dvd hlength, hlength, eq_comm]
  · intro bytes
    constructor
    · intro hlength
      refine ⟨_, Genome.decode_of_dvd hlength, ?_⟩
      rw [Genome.encode, Instruction.flatMap_encode_decodeAll hlength]
    · rintro ⟨g, _, rfl⟩
      exact g.dvd_length_encode

end GenomeMachine
