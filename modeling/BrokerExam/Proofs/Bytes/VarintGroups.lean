/-
BrokerExam/Proofs/Bytes/VarintGroups.lean

Which bytes are read as which number.  Bytes are one whole number if the last of
them, and no other, has its top bit clear; then they denote the sum of their low
seven bits, each weighted by its place (`denoted`).

A number is read from whole groups, ten of them at most, as what they denote
(`ungroup_append`, `whole_of_ungroup`), and fails with too few bytes or too many
groups (`ungroup_eq_endOfData_iff`, `ungroup_eq_overflow_iff`).  Nine groups always fit
into 64 bits.  Of ten, the last must not be above one (`denoted_lt_iff`): above
that, what does not fit is dropped.

Main results: `varints_shortest`, that both kinds of numbers are written in the
fewest groups that are read as them, and `decode_groups`, what is read of any bytes.
-/
import Mathlib.Algebra.Ring.Nat
import BrokerExam.Proofs.Wire.RawRead

namespace BrokerExam.Varint

/-! ### What groups denote -/

/-- The number that groups stand for: of each byte seven bits, the lowest first. -/
def denoted (groups : Bytes) : Nat :=
  (groups.mapIdx fun i b => b.toNat % 128 * 2 ^ (7 * i)).sum

/-- The last byte, and no other, has its top bit clear. -/
def Whole (groups : Bytes) : Prop :=
  ∃ front last, groups = front ++ [last] ∧ (∀ b ∈ front, 128 ≤ b) ∧ last < 128

theorem sum_mapIdx_mul (c : Nat) (f : Nat → UInt8 → Nat) (bs : Bytes) :
    (bs.mapIdx fun i b => c * f i b).sum = c * (bs.mapIdx f).sum := by
  induction bs generalizing f with
  | nil => rfl
  | cons b bs ih =>
    rw [List.mapIdx_cons, List.mapIdx_cons, List.sum_cons, List.sum_cons, Nat.mul_add]
    exact congrArg (c * f 0 b + ·) (ih fun i => f (i + 1))

theorem denoted_cons (b : UInt8) (bs : Bytes) :
    denoted (b :: bs) = b.toNat % 128 + 128 * denoted bs := by
  have later (i : Nat) (b : UInt8) :
      b.toNat % 128 * 2 ^ (7 * (i + 1)) = 128 * (b.toNat % 128 * 2 ^ (7 * i)) := by
    rw [Nat.mul_succ, Nat.pow_add, ← Nat.mul_assoc, Nat.mul_comm]
  rw [denoted, List.mapIdx_cons, List.sum_cons, denoted, ← sum_mapIdx_mul]
  simp only [later, Nat.mul_zero, Nat.pow_zero, Nat.mul_one]

/-- A group more weighs as much as all groups in front of it can denote, and one more. -/
theorem denoted_concat (bs : Bytes) (b : UInt8) :
    denoted (bs ++ [b]) = denoted bs + b.toNat % 128 * span bs.length := by
  induction bs with
  | nil =>
    rw [List.nil_append, denoted_cons, List.length_nil, span, Nat.mul_one, Nat.add_comm]
    rfl
  | cons c bs ih =>
    rw [List.cons_append, denoted_cons, denoted_cons, ih, List.length_cons, span, Nat.mul_add,
      Nat.mul_left_comm, Nat.add_assoc]

/-- No more groups denote more than their number can. -/
theorem denoted_lt_span (bs : Bytes) : denoted bs < span bs.length := by
  induction bs with
  | nil => exact Nat.one_pos
  | cons b bs ih =>
    rw [denoted_cons, List.length_cons, span]
    omega

theorem span_mono {j k : Nat} (h : j ≤ k) : span j ≤ span k := by
  induction h with
  | refl => exact Nat.le_refl _
  | step _ ih =>
    rw [span]
    omega

/-! ### Whole groups -/

theorem not_whole_nil : ¬ Whole [] := by
  rintro ⟨front, last, same, -⟩
  exact List.append_ne_nil_of_right_ne_nil front (List.cons_ne_nil last []) same.symm

theorem whole_cons_iff {b : UInt8} {bs : Bytes} :
    Whole (b :: bs) ↔ b < 128 ∧ bs = [] ∨ 128 ≤ b ∧ Whole bs := by
  constructor
  · rintro ⟨front, last, same, large, small⟩
    rcases front with _ | ⟨c, front⟩
    · obtain ⟨rfl, rfl⟩ := List.cons.inj same
      exact .inl ⟨small, rfl⟩
    · obtain ⟨rfl, rfl⟩ := List.cons.inj same
      obtain ⟨first, others⟩ := List.forall_mem_cons.1 large
      exact .inr ⟨first, front, last, rfl, others, small⟩
  · rintro (⟨small, rfl⟩ | ⟨first, front, last, rfl, large, small⟩)
    · exact ⟨[], b, rfl, nofun, small⟩
    · exact ⟨b :: front, last, rfl, List.forall_mem_cons.2 ⟨first, large⟩, small⟩

theorem Whole.length_pos {groups : Bytes} (whole : Whole groups) : 0 < groups.length := by
  obtain ⟨front, last, rfl, -⟩ := whole
  rw [List.length_append]
  exact Nat.succ_pos _

/-! ### Reading groups -/

theorem toNat_group {b : UInt8} (small : b < 128) : b.toNat % 128 = b.toNat :=
  Nat.mod_eq_of_lt (UInt8.lt_iff_toNat_lt.1 small)

theorem toNat_group_of_le {b : UInt8} (large : 128 ≤ b) : b.toNat % 128 = b.toNat - 128 := by
  have := UInt8.le_iff_toNat_le.1 large
  have := b.toNat_lt
  have : (128 : UInt8).toNat = 128 := rfl
  omega

/-- Whole groups are read as what they denote, whatever follows them. -/
theorem ungroup_append {k : Nat} {groups : Bytes} (few : groups.length ≤ k) (whole : Whole groups)
    (rest : Bytes) : ungroup k (groups ++ rest) = .ok (denoted groups, groups.length) := by
  induction groups generalizing k with
  | nil => exact absurd whole not_whole_nil
  | cons b bs ih =>
    obtain ⟨k, rfl⟩ := Nat.exists_eq_add_of_lt few
    rw [List.cons_append, ungroup, denoted_cons, List.length_cons]
    rcases whole_cons_iff.1 whole with ⟨small, rfl⟩ | ⟨large, whole⟩
    · rw [if_pos small, toNat_group small]
      rfl
    · rw [if_neg (UInt8.not_lt.2 large), ih (by omega) whole, toNat_group_of_le large]

/-- What is read as a number are whole groups, and the number is what they denote. -/
theorem whole_of_ungroup {k n used : Nat} {bs : Bytes} (h : ungroup k bs = .ok (n, used)) :
    used ≤ k ∧ used ≤ bs.length ∧ Whole (bs.take used) ∧ denoted (bs.take used) = n := by
  induction k generalizing n used bs with
  | zero => cases h
  | succ k ih =>
    rcases bs with _ | ⟨b, bs⟩
    · cases h
    rw [ungroup] at h
    by_cases small : b < 128
    · rw [if_pos small] at h
      obtain ⟨rfl, rfl⟩ := Prod.mk.inj (Except.ok.inj h)
      refine ⟨Nat.le_add_left 1 k, Nat.le_add_left 1 bs.length,
        whole_cons_iff.2 (.inl ⟨small, rfl⟩), ?_⟩
      rw [List.take_succ_cons, denoted_cons, toNat_group small]
      rfl
    · rw [if_neg small] at h
      rcases rest : ungroup k bs with e | ⟨m, used'⟩
      · rw [rest] at h
        cases h
      · rw [rest] at h
        obtain ⟨rfl, rfl⟩ := Prod.mk.inj (Except.ok.inj h)
        obtain ⟨few, enough, whole, rfl⟩ := ih rest
        have large : 128 ≤ b := UInt8.not_lt.1 small
        refine ⟨Nat.succ_le_succ few, Nat.succ_le_succ enough,
          whole_cons_iff.2 (.inr ⟨large, whole⟩), ?_⟩
        rw [List.take_succ_cons, denoted_cons, toNat_group_of_le large]

theorem ungroup_eq_overflow_iff {k : Nat} {bs : Bytes} :
    ungroup k bs = .error .overflow ↔ k ≤ bs.length ∧ ∀ b ∈ bs.take k, 128 ≤ b := by
  induction k generalizing bs with
  | zero => exact iff_of_true rfl ⟨Nat.zero_le _, fun _ mem => absurd mem List.not_mem_nil⟩
  | succ k ih =>
    rcases bs with _ | ⟨b, bs⟩
    · exact iff_of_false (fun h => by cases h) fun h => Nat.not_succ_le_zero k h.1
    rw [ungroup, List.take_succ_cons, List.forall_mem_cons, List.length_cons, Nat.succ_le_succ_iff]
    by_cases small : b < 128
    · rw [if_pos small]
      exact iff_of_false (fun h => by cases h) fun h => UInt8.not_lt.2 h.2.1 small
    · rw [if_neg small, and_iff_right (UInt8.not_lt.1 small), ← ih]
      rcases ungroup k bs with e | ⟨m, used⟩
      · exact Iff.rfl
      · exact iff_of_false (fun h => by cases h) fun h => by cases h

theorem ungroup_eq_endOfData_iff {k n : Nat} {bs : Bytes} (most : k ≤ maxBytes) :
    ungroup k bs = .error (.endOfData n) ↔
      bs.length < k ∧ (∀ b ∈ bs, 128 ≤ b) ∧ n = maxBytes - k + bs.length := by
  induction k generalizing bs with
  | zero => exact iff_of_false (fun h => by cases h) fun h => Nat.not_lt_zero _ h.1
  | succ k ih =>
    rcases bs with _ | ⟨b, bs⟩
    · rw [ungroup, Except.error.injEq, Malformed.endOfData.injEq, List.length_nil, Nat.add_zero]
      exact ⟨fun h => ⟨Nat.succ_pos k, fun _ mem => absurd mem List.not_mem_nil, h.symm⟩,
        fun h => h.2.2.symm⟩
    rw [ungroup, List.forall_mem_cons, List.length_cons, Nat.succ_lt_succ_iff]
    by_cases small : b < 128
    · rw [if_pos small]
      exact iff_of_false (fun h => by cases h) fun h => UInt8.not_lt.2 h.2.1.1 small
    · have shift : maxBytes - (k + 1) + (bs.length + 1) = maxBytes - k + bs.length := by omega
      rw [if_neg small, and_iff_right (UInt8.not_lt.1 small), shift, ← ih (Nat.le_of_succ_le most)]
      rcases ungroup k bs with e | ⟨m, used⟩
      · exact Iff.rfl
      · exact iff_of_false (fun h => by cases h) fun h => by cases h

/-! ### 64-bit numbers -/

/-- Nine groups always fit into 64 bits, and ten do if the tenth is not above one. -/
theorem denoted_lt_iff {groups : Bytes} (few : groups.length ≤ maxBytes) (whole : Whole groups) :
    denoted groups < 2 ^ 64 ↔ ∀ tenth ∈ groups[9]?, tenth ≤ 1 := by
  obtain ⟨front, last, rfl, -, small⟩ := whole
  rw [List.length_append, List.length_singleton] at few
  rcases Nat.lt_or_eq_of_le (Nat.le_of_succ_le_succ few) with less | nine
  · -- fewer than ten groups stay below the weight of a tenth
    have short : (front ++ [last]).length ≤ 9 := by
      rw [List.length_append, List.length_singleton]
      exact less
    have bound := denoted_lt_span (front ++ [last])
    have most : span (front ++ [last]).length ≤ span 9 := span_mono short
    rw [List.getElem?_eq_none short]
    exact iff_of_true (Nat.lt_of_lt_of_le bound (Nat.le_trans most (by decide))) nofun
  · -- the tenth group weighs so much that only its lowest bit has room
    have front_lt : denoted front < span 9 := nine ▸ denoted_lt_span front
    have weight : span 9 = 2 ^ 63 := by decide
    rw [denoted_concat, toNat_group small, nine, List.getElem?_append_right (Nat.le_of_eq nine),
      nine, Nat.sub_self, weight]
    rw [weight] at front_lt
    constructor
    · rintro fits tenth mem
      obtain rfl := Option.some.inj mem
      rw [UInt8.le_iff_toNat_le]
      show last.toNat ≤ 1
      omega
    · intro bounded
      have one : last.toNat ≤ 1 := UInt8.le_iff_toNat_le.1 (bounded last rfl)
      omega

/-- **What is read as a 64-bit number** are whole groups, and of what they denote the low 64
bits. -/
theorem decode_eq_ok_iff {v : UInt64} {k : Nat} {bs : Bytes} : decode bs = .ok (v, k) ↔
    k ≤ maxBytes ∧ k ≤ bs.length ∧ Whole (bs.take k) ∧
      v.toNat = denoted (bs.take k) % 2 ^ 64 := by
  constructor
  · intro h
    rw [decode] at h
    rcases read : ungroup maxBytes bs with e | ⟨n, used⟩
    · rw [read] at h
      cases h
    · rw [read] at h
      obtain ⟨rfl, rfl⟩ := Prod.mk.inj (Except.ok.inj h)
      obtain ⟨few, enough, whole, rfl⟩ := whole_of_ungroup read
      exact ⟨few, enough, whole, UInt64.toNat_ofNat'⟩
  · rintro ⟨few, enough, whole, value⟩
    have length : (bs.take k).length = k := List.length_take_of_le enough
    have read := ungroup_append (Nat.le_trans (Nat.le_of_eq length) few) whole (bs.drop k)
    rw [List.take_append_drop, length] at read
    rw [decode, read]
    refine congrArg (fun v => Except.ok (v, k)) (UInt64.toNat_inj.1 ?_)
    rw [UInt64.toNat_ofNat', value]

theorem decode_eq_error_iff {e : Malformed} {bs : Bytes} :
    decode bs = .error e ↔ ungroup maxBytes bs = .error e := by
  rw [decode]
  rcases ungroup maxBytes bs with e' | ⟨n, used⟩
  · rw [Except.error.injEq, Except.error.injEq]
  · exact iff_of_false (fun h => by cases h) fun h => by cases h

/-- **What is read of any bytes.**  They start with a number if ten bytes at most, the last of them
and no other with its top bit clear, do; it is the low 64 bits of what these denote, which is all of
it unless the tenth byte is above one.  Otherwise the bytes end before the number does, or it is
still not complete after ten of them. -/
theorem decode_groups (bs : Bytes) :
    (∀ v k, decode bs = .ok (v, k) ↔ k ≤ maxBytes ∧ k ≤ bs.length ∧ Whole (bs.take k) ∧
      v.toNat = denoted (bs.take k) % 2 ^ 64) ∧
    (∀ v k, decode bs = .ok (v, k) →
      (v.toNat = denoted (bs.take k) ↔ ∀ tenth ∈ (bs.take k)[9]?, tenth ≤ 1)) ∧
    (∀ n, decode bs = .error (.endOfData n) ↔
      bs.length = n ∧ n < maxBytes ∧ ∀ b ∈ bs, 128 ≤ b) ∧
    (decode bs = .error .overflow ↔
      maxBytes ≤ bs.length ∧ ∀ b ∈ bs.take maxBytes, 128 ≤ b) := by
  refine ⟨fun v k => decode_eq_ok_iff, fun v k read => ?_, fun n => ?_, ?_⟩
  · obtain ⟨few, -, whole, value⟩ := decode_eq_ok_iff.1 read
    have short : (bs.take k).length ≤ maxBytes := Nat.le_trans (List.length_take_le k bs) few
    rw [← denoted_lt_iff short whole, value]
    exact ⟨fun same => same ▸ Nat.mod_lt _ (by decide), Nat.mod_eq_of_lt⟩
  · rw [decode_eq_error_iff, ungroup_eq_endOfData_iff (Nat.le_refl maxBytes), Nat.sub_self,
      Nat.zero_add]
    constructor
    · rintro ⟨few, large, rfl⟩
      exact ⟨rfl, few, large⟩
    · rintro ⟨rfl, few, large⟩
      exact ⟨few, large, rfl⟩
  · rw [decode_eq_error_iff, ungroup_eq_overflow_iff]

/-- Ten groups that fill 64 bits. -/
def full : Bytes := List.replicate 9 255 ++ [1]

theorem decode_full : decode full = .ok (18446744073709551615, 10) := rfl

/-- The greatest number is read for all that it is. -/
theorem decode_groups_full :
    decode full = .ok (18446744073709551615, 10) ∧ (∀ tenth ∈ (full.take 10)[9]?, tenth ≤ 1) ∧
      denoted (full.take 10) = 18446744073709551615 := by
  obtain ⟨-, exactly, -⟩ := decode_groups full
  have one : ∀ tenth ∈ (full.take 10)[9]?, tenth ≤ 1 := by
    rintro tenth mem
    obtain rfl : 1 = tenth := Option.some.inj mem
    exact UInt8.le_refl 1
  exact ⟨decode_full, one, ((exactly _ _ decode_full).2 one).symm⟩

/-- Ten groups of which the last is two. -/
def overfull : Bytes := List.replicate 9 255 ++ [2]

theorem decode_overfull : decode overfull = .ok (9223372036854775807, 10) := rfl

/-- **Not all that groups denote is read**: of the tenth, only the lowest bit is. -/
theorem not_decode_exact :
    ¬ ∀ bs v k, decode bs = .ok (v, k) → v.toNat = denoted (bs.take k) := by
  intro exactly
  exact absurd (exactly overfull _ _ decode_overfull) (by decide)

/-! ### The fewest groups -/

/-- Numbers are written in groups that are read back, ten at most, and no other groups that are read
as the same number are fewer. -/
structure Shortest {α : Type} (write : α → Bytes) (decode : Bytes → Except Malformed (α × Nat))
    (read : RawRead α) : Prop where
  undone : ∀ a rest, decode (write a ++ rest) = .ok (a, (write a).length)
  consumed : ∀ a, read.Reads (write a) a
  few : ∀ a, (write a).length ≤ maxBytes
  fewest : ∀ a bs used, decode bs = .ok (a, used) → (write a).length ≤ used ∧ used ≤ bs.length

/-- A number that fits into some groups takes no more of them. -/
theorem length_groups_le_of_lt {k j n : Nat} (some : 0 < j) (h : n < span j) :
    (groups k n).length ≤ j := by
  induction k generalizing j n with
  | zero => exact Nat.zero_le j
  | succ k ih =>
    obtain ⟨j, rfl⟩ := Nat.exists_eq_add_of_lt some
    rw [Nat.zero_add] at h ⊢
    rw [groups]
    split
    · exact Nat.le_add_left 1 j
    · next large =>
      -- a number that goes on does not fit into one group
      have more : 0 < j := by
        rcases j with _ | j
        · exact absurd h (by rw [span, span]; omega)
        · exact Nat.succ_pos j
      exact Nat.succ_le_succ (ih more (Nat.div_lt_of_lt_mul h))

theorem length_encode_le_of_decode {n : UInt64} {bs : Bytes} {used : Nat}
    (h : decode bs = .ok (n, used)) : (encode n).length ≤ used ∧ used ≤ bs.length := by
  obtain ⟨-, enough, whole, value⟩ := decode_eq_ok_iff.1 h
  have length : (bs.take used).length = used := List.length_take_of_le enough
  have bound : n.toNat < span used :=
    calc n.toNat
      _ ≤ denoted (bs.take used) := value ▸ Nat.mod_le _ _
      _ < span (bs.take used).length := denoted_lt_span _
      _ = span used := by rw [length]
  exact ⟨length_groups_le_of_lt (length ▸ whole.length_pos) bound, enough⟩

theorem zigzag_unzigzag (u : UInt64) : zigzag (unzigzag u) = u := by
  have bound := u.toNat_lt
  apply UInt64.toNat_inj.1
  -- the even numbers stand for those from zero on, and the odd ones for those below
  by_cases even : u.toNat % 2 = 0
  · have value : (unzigzag u).toInt = (u.toNat / 2 : Nat) := by
      rw [unzigzag, if_pos even, Int64.toInt_ofInt_of_le (by omega) (by omega)]
    rw [zigzag, value, if_pos (by omega), UInt64.toNat_ofNat']
    omega
  · have value : (unzigzag u).toInt = -((u.toNat / 2 : Nat) : Int) - 1 := by
      rw [unzigzag, if_neg even, Int64.toInt_ofInt_of_le (by omega) (by omega)]
    rw [zigzag, value, if_neg (by omega), UInt64.toNat_ofNat']
    omega

theorem length_encodeSigned_le_of_decodeSigned {n : Int64} {bs : Bytes} {used : Nat}
    (h : decodeSigned bs = .ok (n, used)) : (encodeSigned n).length ≤ used ∧ used ≤ bs.length := by
  rw [decodeSigned] at h
  rcases read : decode bs with e | ⟨u, used'⟩
  · rw [read] at h
    cases h
  · rw [read] at h
    obtain ⟨rfl, rfl⟩ := Prod.mk.inj (Except.ok.inj h)
    rw [encodeSigned, zigzag_unzigzag]
    exact length_encode_le_of_decode read

/-- **Numbers are written in the fewest groups**, unsigned and signed ones, and are read back from
them whatever follows. -/
theorem varints_shortest :
    Shortest encode decode RawRead.unsignedVarint ∧
      Shortest encodeSigned decodeSigned RawRead.varint where
  left := {
    undone := decode_encode
    consumed := RawRead.reads_unsignedVarint
    few := length_encode_le
    fewest := fun _ _ _ => length_encode_le_of_decode }
  right := {
    undone := decodeSigned_encodeSigned
    consumed := RawRead.reads_varint
    few := fun n => length_encode_le (zigzag n)
    fewest := fun _ _ _ => length_encodeSigned_le_of_decodeSigned }

end BrokerExam.Varint
