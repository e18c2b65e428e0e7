/-
BrokerExam/Bytes/BigEndian.lean

Byte strings and fixed-width numbers.  Everything of fixed width on the wire is
big-endian, so one pair of functions on natural numbers serves the 8, 16, 32 and
64 bit integers as well as the 128 bits of a UUID.

Main results: `length_encode`, `decode_encode` (what is written reads back
modulo the width) and `encode_decode` (a byte string is the encoding of the
number it denotes).
-/
namespace BrokerExam

/-- A byte string. -/
abbrev Bytes := List UInt8

namespace BigEndian

/-- How many numbers `k` bytes tell apart. -/
def span : Nat → Nat
  | 0 => 1
  | k + 1 => 256 * span k

theorem span_pos (k : Nat) : 0 < span k := by
  induction k with
  | zero => decide
  | succ k ih => rw [span]; omega

theorem span_add (j k : Nat) : span (j + k) = span j * span k := by
  induction j with
  | zero => rw [Nat.zero_add, span, Nat.one_mul]
  | succ j ih => rw [Nat.succ_add, span, ih, span, Nat.mul_assoc]

/-- The `k` low-order bytes of `n`, the most significant first. -/
def encode : Nat → Nat → Bytes
  | 0, _ => []
  | k + 1, n => UInt8.ofNat (n / span k) :: encode k n

/-- The number that the bytes denote. -/
def decode : Bytes → Nat
  | [] => 0
  | b :: bs => b.toNat * span bs.length + decode bs

@[simp] theorem length_encode (k n : Nat) : (encode k n).length = k := by
  induction k with
  | zero => rfl
  | succ k ih => simp [encode, ih]

theorem decode_encode (k n : Nat) : decode (encode k n) = n % span k := by
  induction k with
  | zero => simp [encode, decode, span, Nat.mod_one]
  | succ k ih =>
    have hb : (UInt8.ofNat (n / span k)).toNat = n / span k % 256 := by simp
    rw [encode, decode, hb, length_encode, ih, span, Nat.mul_comm 256, Nat.mod_mul]
    rw [Nat.mul_comm (span k)]
    omega

theorem decode_lt (bs : Bytes) : decode bs < span bs.length := by
  induction bs with
  | nil => simp [decode, span]
  | cons b bs ih =>
    have hb : b.toNat < 256 := b.toNat_lt
    have : (b.toNat + 1) * span bs.length ≤ 256 * span bs.length :=
      Nat.mul_le_mul_right _ (by omega)
    rw [decode, List.length_cons, span]
    rw [Nat.add_mul] at this
    omega

theorem encode_mod (k n : Nat) : encode k (n % span k) = encode k n := by
  have aux : ∀ j, j ≤ k → encode j (n % span k) = encode j n := by
    intro j hj
    induction j with
    | zero => rfl
    | succ j ih =>
      have hs : span k = span j * (256 * span (k - j - 1)) := by
        rw [show k = j + (k - j - 1 + 1) by omega, span_add, span]
        congr 3
        omega
      have hd : n % span k / span j % 256 = n / span j % 256 := by
        rw [hs, Nat.mod_mul_right_div_self, Nat.mod_mod_of_dvd _ (Nat.dvd_mul_right _ _)]
      rw [encode, encode, ih (by omega)]
      congr 1
      apply UInt8.toNat_inj.1
      simpa using hd
  exact aux k (Nat.le_refl k)

theorem encode_decode (bs : Bytes) : encode bs.length (decode bs) = bs := by
  induction bs with
  | nil => rfl
  | cons b bs ih =>
    have hpos : 0 < span bs.length := span_pos _
    have hlt := decode_lt bs
    have hq : (b.toNat * span bs.length + decode bs) / span bs.length = b.toNat := by
      rw [Nat.mul_comm, Nat.mul_add_div hpos, Nat.div_eq_of_lt hlt, Nat.add_zero]
    have hr : (b.toNat * span bs.length + decode bs) % span bs.length = decode bs := by
      rw [Nat.mul_comm, Nat.mul_add_mod, Nat.mod_eq_of_lt hlt]
    rw [decode, List.length_cons, encode, hq, ← encode_mod bs.length, hr, ih]
    simp

end BigEndian
end BrokerExam
