/-
BrokerExam/Proofs/Bytes/Crc32c.lean

The checksum tells bytes apart that differ in at most four bytes in a row.

One bit of the division is linear (`shift_xor`) and loses nothing
(`shift_injective`), since the highest bit of the polynomial shows whether it was
added.  So a difference that has come into the register never dies out, whatever
is read behind it (`run_injective`).  Four bytes just fill the register: reading
them is putting them into it, the first one lowest, and dividing by as many bits
(`run_eq_shifts`), so that different bytes leave different registers.

Main result: `eq_of_crc32c_eq`.
-/
import BrokerExam.Bytes.Crc32c
import Mathlib.Data.Nat.Digits.Defs
import Mathlib.Logic.Function.Iterate

namespace BrokerExam

namespace Crc32c

/-! ### One bit -/

theorem low_eq_one_iff (r : UInt32) : r &&& 1 = 1 ↔ r.toNat % 2 = 1 := by
  rw [← UInt32.toNat_inj, UInt32.toNat_and, show (1 : UInt32).toNat = 1 from rfl,
    Nat.and_one_is_mod]

theorem low_xor (a b : UInt32) :
    (a ^^^ b).toNat % 2 = 1 ↔ ¬ (a.toNat % 2 = 1 ↔ b.toNat % 2 = 1) := by
  rw [UInt32.toNat_xor, Nat.xor_mod_two_eq_one]

theorem shift_of_odd {r : UInt32} (odd : r.toNat % 2 = 1) : shift r = (r >>> 1) ^^^ polynomial := by
  rw [shift, if_pos ((low_eq_one_iff r).2 odd)]

theorem shift_of_even {r : UInt32} (even : r.toNat % 2 = 0) : shift r = r >>> 1 := by
  refine if_neg fun odd => ?_
  have odd := (low_eq_one_iff r).1 odd
  omega

/-- One bit of the division is linear. -/
theorem shift_xor (a b : UInt32) : shift (a ^^^ b) = shift a ^^^ shift b := by
  have low := low_xor a b
  rcases Nat.mod_two_eq_zero_or_one a.toNat with ha | ha
  · rcases Nat.mod_two_eq_zero_or_one b.toNat with hb | hb
    · rw [shift_of_even ha, shift_of_even hb, shift_of_even (by omega), UInt32.shiftRight_xor]
    · rw [shift_of_even ha, shift_of_odd hb, shift_of_odd (by omega), UInt32.shiftRight_xor,
        UInt32.xor_assoc]
  · rcases Nat.mod_two_eq_zero_or_one b.toNat with hb | hb
    · rw [shift_of_odd ha, shift_of_even hb, shift_of_odd (by omega), UInt32.shiftRight_xor,
        UInt32.xor_assoc, UInt32.xor_assoc, UInt32.xor_comm polynomial]
    · -- what was added twice is gone
      rw [shift_of_odd ha, shift_of_odd hb, shift_of_even (by omega), UInt32.shiftRight_xor,
        UInt32.xor_comm (b >>> 1), UInt32.xor_assoc, ← UInt32.xor_assoc polynomial,
        UInt32.xor_self, UInt32.zero_xor]

theorem toNat_word {n : Nat} (fits : n < 2 ^ 32) : (UInt32.ofNat n).toNat = n :=
  UInt32.toNat_ofNat_of_lt' fits

theorem toNat_half (r : UInt32) : (r >>> 1).toNat = r.toNat / 2 := by
  rw [UInt32.toNat_shiftRight]
  rfl

theorem eq_zero_of_shift {r : UInt32} (h : shift r = 0) : r = 0 := by
  have small := r.toNat_lt
  have half := toNat_half r
  rcases Nat.mod_two_eq_zero_or_one r.toNat with even | odd
  · rw [shift_of_even even] at h
    rw [h, UInt32.toNat_zero] at half
    exact UInt32.toNat_inj.1 (by rw [UInt32.toNat_zero]; omega)
  · -- the polynomial has its highest bit set, which the half of a register has not
    rw [shift_of_odd odd, UInt32.xor_eq_zero_iff] at h
    rw [h, show polynomial.toNat = 0x82F63B78 from rfl] at half
    omega

theorem shift_injective : Function.Injective shift := by
  intro a b same
  have zero : shift (a ^^^ b) = 0 := by rw [shift_xor, same, UInt32.xor_self]
  exact UInt32.xor_eq_zero_iff.1 (eq_zero_of_shift zero)

theorem shifts_xor (n : Nat) (a b : UInt32) :
    shift^[n] (a ^^^ b) = shift^[n] a ^^^ shift^[n] b := by
  induction n generalizing a b with
  | zero => rfl
  | succ n ih => rw [Function.iterate_succ_apply, shift_xor, ih]; rfl

/-- Zeros at the low end are shifted out, and nothing is added for them. -/
theorem shifts_up {n m : Nat} (fits : 2 ^ n * m < 2 ^ 32) :
    shift^[n] (UInt32.ofNat (2 ^ n * m)) = UInt32.ofNat m := by
  induction n with
  | zero => rw [Nat.pow_zero, Nat.one_mul]; rfl
  | succ n ih =>
    have twice : 2 ^ (n + 1) * m = 2 * (2 ^ n * m) := by
      rw [Nat.pow_succ, Nat.mul_comm _ 2, Nat.mul_assoc]
    rw [twice] at fits ⊢
    have value := toNat_word fits
    have one : shift (UInt32.ofNat (2 * (2 ^ n * m))) = UInt32.ofNat (2 ^ n * m) := by
      rw [shift_of_even (by omega), ← UInt32.toNat_inj, toNat_half, value, toNat_word (by omega)]
      omega
    rw [Function.iterate_succ_apply, one, ih (by omega)]

/-! ### Bytes -/

theorem step_eq (r : UInt32) (b : UInt8) : step r b = shift^[8] (r ^^^ b.toUInt32) := rfl

theorem run_append (r : UInt32) (bs bs' : Bytes) : run r (bs ++ bs') = run (run r bs) bs' :=
  List.foldl_append

/-- Different registers stay different, whatever is read. -/
theorem run_injective (bs : Bytes) : Function.Injective fun r => run r bs := by
  induction bs with
  | nil => exact fun _ _ same => same
  | cons b bs ih =>
    intro r r' same
    have same : step r b = step r' b := ih same
    exact (UInt32.xor_left_inj _).1 (shift_injective.iterate 8 same)

/-- The bytes as one number, the first one lowest. -/
def number (bs : Bytes) : Nat := Nat.ofDigits 256 (bs.map UInt8.toNat)

theorem number_cons (b : UInt8) (bs : Bytes) : number (b :: bs) = b.toNat + 2 ^ 8 * number bs :=
  Nat.ofDigits_cons

theorem digits_lt (bs : Bytes) : ∀ d ∈ bs.map UInt8.toNat, d < 256 := by
  intro d hd
  obtain ⟨b, -, rfl⟩ := List.mem_map.1 hd
  exact b.toNat_lt

theorem number_lt (bs : Bytes) : number bs < 256 ^ bs.length := by
  have h := Nat.ofDigits_lt_base_pow_length (by decide) (digits_lt bs)
  rwa [List.length_map] at h

theorem number_inj {bs bs' : Bytes} (length : bs.length = bs'.length)
    (same : number bs = number bs') : bs = bs' := by
  have length : (bs.map UInt8.toNat).length = (bs'.map UInt8.toNat).length := by
    rw [List.length_map, List.length_map, length]
  have digits := Nat.ofDigits_inj_of_len_eq (by decide) length (digits_lt bs) (digits_lt bs') same
  exact (List.map_inj_right fun _ _ => UInt8.toNat_inj.1).1 digits

/-- A byte goes below a number that leaves room for it. -/
theorem xor_above (b : UInt8) {m : Nat} (fits : b.toNat + 2 ^ 8 * m < 2 ^ 32) :
    b.toUInt32 ^^^ UInt32.ofNat (2 ^ 8 * m) = UInt32.ofNat (b.toNat + 2 ^ 8 * m) := by
  have small : b.toNat < 2 ^ 8 := b.toNat_lt
  rw [← UInt32.toNat_inj, UInt32.toNat_xor, UInt8.toNat_toUInt32,
    toNat_word (by omega), toNat_word fits, Nat.add_comm]
  -- the eight low bits are those of the byte, and all others those of the number
  refine Nat.eq_of_testBit_eq fun i => ?_
  rw [Nat.testBit_xor, Nat.testBit_two_pow_mul, Nat.testBit_two_pow_mul_add _ small]
  by_cases low : i < 8
  · simp [low, Nat.not_le.2 low]
  · have high : 2 ^ 8 ≤ 2 ^ i := Nat.pow_le_pow_right (by decide) (Nat.not_lt.1 low)
    have none : b.toNat.testBit i = false :=
      Nat.testBit_lt_two_pow (Nat.lt_of_lt_of_le small high)
    simp [low, none, Nat.not_lt.1 low]

/-- Reading up to four bytes is putting them into the register, and dividing. -/
theorem run_eq_shifts (r : UInt32) {bs : Bytes} (short : bs.length ≤ 4) :
    run r bs = shift^[8 * bs.length] (r ^^^ UInt32.ofNat (number bs)) := by
  induction bs generalizing r with
  | nil => exact (UInt32.xor_zero).symm
  | cons b bs ih =>
    have room : number (b :: bs) < 2 ^ 32 :=
      calc number (b :: bs)
        _ < 256 ^ (b :: bs).length := number_lt (b :: bs)
        _ ≤ 256 ^ 4 := Nat.pow_le_pow_right (by decide) short
        _ = 2 ^ 32 := by decide
    rw [number_cons] at room
    calc run r (b :: bs)
      _ = shift^[8 * bs.length] (step r b ^^^ UInt32.ofNat (number bs)) :=
        ih (step r b) (Nat.le_of_succ_le short)
      _ = shift^[8 * bs.length] (shift^[8] (r ^^^ b.toUInt32)
            ^^^ shift^[8] (UInt32.ofNat (2 ^ 8 * number bs))) := by
        rw [step_eq, shifts_up (by omega)]
      _ = shift^[8 * (b :: bs).length] (r ^^^ UInt32.ofNat (number (b :: bs))) := by
        rw [← shifts_xor, UInt32.xor_assoc, xor_above b room, ← Function.iterate_add_apply,
          number_cons]
        rfl

/-- As many bytes, up to four, leave different registers if they are different. -/
theorem eq_of_run_eq {r : UInt32} {u v : Bytes} (length : u.length = v.length)
    (short : u.length ≤ 4) (same : run r u = run r v) : u = v := by
  rw [run_eq_shifts r short, run_eq_shifts r (length ▸ short), length] at same
  have word := (UInt32.xor_right_inj r).1 (shift_injective.iterate _ same)
  have fits {w : Bytes} (hw : w.length ≤ 4) : number w < 2 ^ 32 :=
    Nat.lt_of_lt_of_le (number_lt w) (Nat.pow_le_pow_right (by decide) hw)
  have number : number u = number v := by
    rw [← UInt32.toNat_inj, toNat_word (fits short), toNat_word (fits (length ▸ short))] at word
    exact word
  exact number_inj length number

end Crc32c

/-- **Bursts are told**: bytes that differ within four bytes in a row, and nowhere else, have
different checksums. -/
theorem eq_of_crc32c_eq {front u v back : Bytes} (length : u.length = v.length)
    (short : u.length ≤ 4)
    (same : crc32c (front ++ (u ++ back)) = crc32c (front ++ (v ++ back))) : u = v := by
  have same := UInt32.not_inj.1 same
  simp only [Crc32c.run_append] at same
  exact Crc32c.eq_of_run_eq length short (Crc32c.run_injective back same)

end BrokerExam
