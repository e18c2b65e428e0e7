/-
BrokerExam/Proofs/Bytes/Varint.lean

Variable-length integers read back.  The groups of a number that needs at most
`k` of them are read again within `k` groups, whatever follows them
(`ungroup_groups`); a 64-bit number needs at most ten.

Main results: `decode_encode` and `decodeSigned_encodeSigned`, both in front of
any further bytes, and `decode_local`: what is read does not depend on the bytes
behind it.
-/
import BrokerExam.Bytes.Varint

namespace BrokerExam.Varint

/-! ### Groups -/

theorem toNat_last {n : Nat} (h : n < 128) : (UInt8.ofNat n).toNat = n := by
  rw [UInt8.toNat_ofNat']
  omega

theorem toNat_continued (n : Nat) : (UInt8.ofNat (n % 128 + 128)).toNat = n % 128 + 128 := by
  rw [UInt8.toNat_ofNat']
  omega

theorem ungroup_last {n : Nat} (h : n < 128) (k : Nat) (rest : Bytes) :
    ungroup (k + 1) (UInt8.ofNat n :: rest) = .ok (n, 1) := by
  have small : UInt8.ofNat n < 128 := by
    rw [UInt8.lt_iff_toNat_lt, toNat_last h]
    exact h
  rw [ungroup, if_pos small, toNat_last h]

theorem ungroup_continued {k n m used : Nat} {bs : Bytes} (h : ungroup k bs = .ok (m, used)) :
    ungroup (k + 1) (UInt8.ofNat (n % 128 + 128) :: bs) = .ok (n % 128 + 128 * m, used + 1) := by
  have large : ¬ UInt8.ofNat (n % 128 + 128) < 128 := by
    rw [UInt8.lt_iff_toNat_lt, toNat_continued]
    exact Nat.not_lt.2 (Nat.le_add_left 128 (n % 128))
  rw [ungroup, if_neg large, h, toNat_continued]
  simp only [Nat.add_sub_cancel]

/-- How many numbers `k` groups tell apart. -/
def span : Nat → Nat
  | 0 => 1
  | k + 1 => 128 * span k

/-- A number of at most `k` groups is read back from them. -/
theorem ungroup_groups {k n : Nat} (hk : 0 < k) (hn : n < span k) (rest : Bytes) :
    ungroup k (groups k n ++ rest) = .ok (n, (groups k n).length) := by
  induction k generalizing n with
  | zero => exact absurd hk (Nat.lt_irrefl 0)
  | succ k ih =>
    rw [groups]
    by_cases small : n < 128
    · rw [if_pos small]
      exact ungroup_last small k rest
    · -- the rest of the number is not zero, so that there is a group left for it
      have hk' : 0 < k := by
        rcases k with _ | k
        · exact absurd hn (by rw [span, span]; omega)
        · exact Nat.succ_pos k
      have hn' : n / 128 < span k := Nat.div_lt_of_lt_mul hn
      rw [if_neg small, List.cons_append, ungroup_continued (ih hk' hn'), List.length_cons,
        Nat.mod_add_div]

/-- Groups are read as the number they stand for without a look behind the last of them. -/
theorem ungroup_local {k n used : Nat} {bs : Bytes} (h : ungroup k bs = .ok (n, used)) :
    used ≤ bs.length ∧ ∀ rest, ungroup k (bs.take used ++ rest) = .ok (n, used) := by
  induction k generalizing bs n used with
  | zero => cases h
  | succ k ih =>
    cases bs with
    | nil => cases h
    | cons b bs =>
      rw [ungroup] at h
      by_cases last : b < 128
      · rw [if_pos last] at h
        obtain ⟨rfl, rfl⟩ := Prod.mk.inj (Except.ok.inj h)
        refine ⟨Nat.le_add_left 1 bs.length, fun rest => ?_⟩
        rw [List.take_succ_cons, List.cons_append, ungroup, if_pos last]
      · rw [if_neg last] at h
        rcases hk : ungroup k bs with e | ⟨m, j⟩
        · rw [hk] at h
          cases h
        · rw [hk] at h
          obtain ⟨rfl, rfl⟩ := Prod.mk.inj (Except.ok.inj h)
          obtain ⟨enough, same⟩ := ih hk
          refine ⟨Nat.succ_le_succ enough, fun rest => ?_⟩
          rw [List.take_succ_cons, List.cons_append, ungroup, if_neg last, same rest]

/-! ### 64-bit numbers -/

theorem groups_ne_nil (k n : Nat) : groups (k + 1) n ≠ [] := by
  rw [groups]
  split <;> simp

theorem encode_ne_nil (n : UInt64) : encode n ≠ [] := groups_ne_nil 9 n.toNat

theorem length_encode_pos (n : UInt64) : 0 < (encode n).length :=
  List.length_pos_iff.2 (encode_ne_nil n)

theorem length_groups_le (k n : Nat) : (groups k n).length ≤ k := by
  induction k generalizing n with
  | zero => exact Nat.le_refl 0
  | succ k ih =>
    rw [groups]
    split
    · exact Nat.le_add_left 1 k
    · exact Nat.succ_le_succ (ih (n / 128))

theorem length_encode_le (n : UInt64) : (encode n).length ≤ maxBytes :=
  length_groups_le maxBytes n.toNat

theorem decode_encode (n : UInt64) (rest : Bytes) :
    decode (encode n ++ rest) = .ok (n, (encode n).length) := by
  have hn : n.toNat < span maxBytes := Nat.lt_of_lt_of_le n.toNat_lt (by decide)
  rw [decode, encode, ungroup_groups (by decide) hn]
  simp only [UInt64.ofNat_toNat]

theorem decode_local {n : UInt64} {used : Nat} {bs : Bytes} (h : decode bs = .ok (n, used)) :
    used ≤ bs.length ∧ ∀ rest, decode (bs.take used ++ rest) = .ok (n, used) := by
  rw [decode] at h
  rcases hk : ungroup maxBytes bs with e | ⟨m, j⟩
  · rw [hk] at h
    cases h
  · rw [hk] at h
    obtain ⟨rfl, rfl⟩ := Prod.mk.inj (Except.ok.inj h)
    obtain ⟨enough, same⟩ := ungroup_local hk
    refine ⟨enough, fun rest => ?_⟩
    rw [decode, same rest]

/-! ### Signed numbers -/

theorem unzigzag_zigzag (n : Int64) : unzigzag (zigzag n) = n := by
  have lower := n.le_toInt
  have upper := n.toInt_lt
  apply Int64.toInt_inj.1
  by_cases sign : 0 ≤ n.toInt
  · have place : (zigzag n).toNat = 2 * n.toInt.toNat := by
      rw [zigzag, if_pos sign, UInt64.toNat_ofNat']
      omega
    rw [unzigzag, place, if_pos (by omega), Int64.toInt_ofInt_of_le (by omega) (by omega)]
    omega
  · have place : (zigzag n).toNat = 2 * (-n.toInt).toNat - 1 := by
      rw [zigzag, if_neg sign, UInt64.toNat_ofNat']
      omega
    rw [unzigzag, place, if_neg (by omega), Int64.toInt_ofInt_of_le (by omega) (by omega)]
    omega

theorem decodeSigned_encodeSigned (n : Int64) (rest : Bytes) :
    decodeSigned (encodeSigned n ++ rest) = .ok (n, (encodeSigned n).length) := by
  rw [decodeSigned, encodeSigned, decode_encode]
  simp only [unzigzag_zigzag]

theorem decodeSigned_local {n : Int64} {used : Nat} {bs : Bytes}
    (h : decodeSigned bs = .ok (n, used)) :
    used ≤ bs.length ∧ ∀ rest, decodeSigned (bs.take used ++ rest) = .ok (n, used) := by
  rw [decodeSigned] at h
  rcases hk : decode bs with e | ⟨m, j⟩
  · rw [hk] at h
    cases h
  · rw [hk] at h
    obtain ⟨rfl, rfl⟩ := Prod.mk.inj (Except.ok.inj h)
    obtain ⟨enough, same⟩ := decode_local hk
    refine ⟨enough, fun rest => ?_⟩
    rw [decodeSigned, same rest]

end BrokerExam.Varint
