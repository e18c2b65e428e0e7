/-
BrokerExam/Proofs/Wire/CutRead.lean

Primitive reads of bytes that end too early.  A read that takes the bytes `used`
fails on every part of them that it meets instead (`RawRead.Delimited`), and the
cause tells of an end that came early (`CodecError.EndedEarly`): a read finds out
from the bytes alone where they end, and does not stop before that.

Main result: `Kind.Primitive.delimited`.
-/
import BrokerExam.Proofs.Wire.FailedRead

namespace BrokerExam

/-! ### Cut bytes -/

/-- Some of the bytes, from the first one on, but not all of them. -/
def IsCut (front whole : Bytes) : Prop := front <+: whole ∧ front ≠ whole

namespace IsCut

variable {front whole u v : Bytes}

theorem length_lt (h : IsCut front whole) : front.length < whole.length :=
  Nat.lt_of_le_of_ne h.1.length_le fun same => h.2 (h.1.eq_of_length same)

theorem not_nil : ¬ IsCut front [] := fun h => absurd h.length_lt (Nat.not_lt_zero _)

/-- Bytes in two parts are cut within the first, or within the second. -/
theorem of_append (h : IsCut front (u ++ v)) :
    IsCut front u ∨ ∃ p, front = u ++ p ∧ IsCut p v := by
  obtain ⟨start, some⟩ := h
  by_cases first : IsCut front u
  · exact .inl first
  · refine .inr ?_
    have there : u <+: front := by
      rcases List.prefix_or_prefix_of_prefix start (List.prefix_append u v) with before | behind
      · exact (Classical.not_not.1 fun other => first ⟨before, other⟩) ▸ List.prefix_refl front
      · exact behind
    obtain ⟨p, rfl⟩ := there
    exact ⟨p, rfl, (List.prefix_append_right_inj u).1 start, fun same => some (same ▸ rfl)⟩

theorem of_cons {b : UInt8} (h : IsCut front (b :: whole)) :
    front = [] ∨ ∃ p, front = b :: p ∧ IsCut p whole := by
  obtain ⟨start, some⟩ := h
  rcases List.prefix_cons_iff.1 start with none | ⟨p, rfl, behind⟩
  · exact .inl none
  · exact .inr ⟨p, rfl, behind, fun same => some (same ▸ rfl)⟩

end IsCut

/-- What is said of bytes that end too early. -/
inductive CodecError.EndedEarly : CodecError → Prop
  | truncated (what : String) (expected remaining : Nat) :
    EndedEarly (.truncated what expected remaining)
  | malformedVarint (read : Nat) : EndedEarly (.malformedVarint (.endOfData read))
  | batchSizeMismatch (size remaining : Nat) :
    EndedEarly (.batchSizeMismatch (.missingBatchBytes size remaining))

/-! ### Numbers in groups -/

namespace Varint

/-- Groups are not told from a part of them: the last of them is missing. -/
theorem ungroup_cut {k n : Nat} {bs front : Bytes} (h : ungroup k bs = .ok (n, bs.length))
    (cut : IsCut front bs) : ∃ read, ungroup k front = .error (.endOfData read) := by
  induction k generalizing n bs front with
  | zero => cases h
  | succ k ih =>
    cases bs with
    | nil => cases h
    | cons b bs =>
      rcases cut.of_cons with rfl | ⟨front, rfl, within⟩
      · exact ⟨_, rfl⟩
      · rw [ungroup] at h
        by_cases last : b < 128
        · -- the group that ends the number is the only byte
          rw [if_pos last] at h
          obtain ⟨-, one⟩ := Prod.mk.inj (Except.ok.inj h)
          obtain rfl : bs = [] := List.eq_nil_of_length_eq_zero (Nat.succ.inj one).symm
          exact absurd within IsCut.not_nil
        · rw [if_neg last] at h
          rcases hk : ungroup k bs with e | ⟨m, used⟩
          · rw [hk] at h
            cases h
          · rw [hk] at h
            obtain ⟨-, more⟩ := Prod.mk.inj (Except.ok.inj h)
            obtain rfl : used = bs.length := Nat.succ.inj more
            obtain ⟨read, short⟩ := ih hk within
            exact ⟨read, by rw [ungroup, if_neg last, short]⟩

theorem decode_cut {n : UInt64} {bs front : Bytes} (h : decode bs = .ok (n, bs.length))
    (cut : IsCut front bs) : ∃ read, decode front = .error (.endOfData read) := by
  rw [decode] at h
  rcases hk : ungroup maxBytes bs with e | ⟨m, used⟩
  · rw [hk] at h
    cases h
  · rw [hk] at h
    obtain ⟨-, rfl⟩ := Prod.mk.inj (Except.ok.inj h)
    obtain ⟨read, short⟩ := ungroup_cut hk cut
    exact ⟨read, by rw [decode, short]⟩

theorem decodeSigned_cut {n : Int64} {bs front : Bytes}
    (h : decodeSigned bs = .ok (n, bs.length)) (cut : IsCut front bs) :
    ∃ read, decodeSigned front = .error (.endOfData read) := by
  rw [decodeSigned] at h
  rcases hk : decode bs with e | ⟨m, used⟩
  · rw [hk] at h
    cases h
  · rw [hk] at h
    obtain ⟨-, rfl⟩ := Prod.mk.inj (Except.ok.inj h)
    obtain ⟨read, short⟩ := decode_cut hk cut
    exact ⟨read, by rw [decodeSigned, short]⟩

end Varint

/-! ### Primitive reads -/

namespace RawRead

variable {α β : Type}

/-- `r` finds out from the bytes alone where they end: it looks at none behind them, and fails in
front of a part of them. -/
structure Delimited (r : RawRead α) : Prop where
  isLocal : r.Local
  cut : ∀ {used : Bytes} {a : α}, r.Reads used a → ∀ c, IsCut c.ahead used →
    ∃ e c', r c = .error e c' ∧ e.EndedEarly

namespace Delimited

theorem pure (a : α) : Delimited (Pure.pure a) where
  isLocal := Local.pure a
  cut := by
    intro used b reads c cut
    obtain ⟨-, rfl⟩ := eq_of_reads_pure reads
    exact absurd cut IsCut.not_nil

/-- What fails reads nothing. -/
theorem throw (e : CodecError) : Delimited (throw e : RawRead α) where
  isLocal := Local.throw e
  cut := by
    intro used a reads
    cases reads 0 []

theorem map {r : RawRead α} (hr : r.Delimited) (g : α → β) : Delimited (g <$> r) where
  isLocal := hr.isLocal.map g
  cut := by
    intro used b reads c cut
    obtain ⟨a, reads, -⟩ := hr.isLocal.reads_of_map reads
    obtain ⟨e, c', run, early⟩ := hr.cut reads c cut
    exact ⟨e, c', map_of_error run, early⟩

theorem bind {r : RawRead α} {f : α → RawRead β} (hr : r.Delimited)
    (hf : ∀ a, (f a).Delimited) : (r >>= f).Delimited where
  isLocal := hr.isLocal.bind fun a => (hf a).isLocal
  cut := by
    intro used b reads c cut
    obtain ⟨a, u, v, rfl, first, second⟩ :=
      hr.isLocal.reads_of_bind (fun a => (hf a).isLocal) reads
    rcases cut.of_append with cut | ⟨front, ahead, cut⟩
    · obtain ⟨e, c', run, early⟩ := hr.cut first c cut
      exact ⟨e, c', bind_of_error run, early⟩
    · obtain ⟨e, c', run, early⟩ := (hf a).cut second ⟨c.offset + u.length, front⟩ cut
      have there : r c = .ok a ⟨c.offset + u.length, front⟩ := by
        rw [← first c.offset front, ← ahead]
      exact ⟨e, c', by rw [bind_of_ok there, run], early⟩

theorem take (n : Nat) (what : String) : Delimited (take n what) where
  isLocal := take_isLocal n what
  cut := by
    intro used a reads c cut
    obtain ⟨width, -⟩ := eq_of_reads_take reads
    have short : ¬ (c.ahead.take n).length = n := by
      have fewer := cut.length_lt
      rw [List.length_take]
      omega
    refine ⟨_, c, ?_, .truncated what n c.ahead.length⟩
    simp only [RawRead.take, if_neg short]

theorem fixed (k : Nat) (what : String) : Delimited (fixed k what) := (take k what).map _

theorem decoding {decode : Bytes → Except Varint.Malformed (α × Nat)}
    (alone : ∀ {v used bs}, decode bs = .ok (v, used) →
      used ≤ bs.length ∧ ∀ rest, decode (bs.take used ++ rest) = .ok (v, used))
    (short : ∀ {v bs front}, decode bs = .ok (v, bs.length) → IsCut front bs →
      ∃ read, decode front = .error (.endOfData read)) : Delimited (decoding decode) where
  isLocal := decoding_isLocal alone
  cut := by
    intro used v reads c cut
    obtain ⟨read, short⟩ := short ((reads_decoding_iff alone).1 reads) cut
    refine ⟨_, c, ?_, .malformedVarint read⟩
    simp only [RawRead.decoding, short]

theorem unsignedVarint : Delimited unsignedVarint := by
  rw [unsignedVarint_eq_decoding]
  exact decoding Varint.decode_local Varint.decode_cut

theorem varint : Delimited varint := by
  rw [varint_eq_decoding]
  exact decoding Varint.decodeSigned_local Varint.decodeSigned_cut

theorem contents (n : Nat) : Delimited (contents n) := (take n "string").map _

theorem compactString : Delimited compactString := by
  refine unsignedVarint.bind fun length => ?_
  split
  · exact throw _
  · exact contents _

theorem compactNullableString : Delimited compactNullableString := by
  refine unsignedVarint.bind fun length => ?_
  split
  · exact pure none
  · exact (contents _).map some

theorem string : Delimited string := by
  refine ((fixed 2 "int16").map _).bind fun length => ?_
  split
  · exact pure none
  · split
    · exact throw _
    · exact (contents _).map some

theorem boolean : Delimited boolean := by
  refine ((fixed 1 "int8").map _).bind fun v => ?_
  split
  · exact pure false
  · split
    · exact pure true
    · exact throw _

theorem tagBuffer : Delimited tagBuffer := by
  refine unsignedVarint.bind fun count => ?_
  split
  · exact pure count
  · exact throw _

end Delimited
end RawRead

/-! ### Kinds -/

namespace Kind

variable {α : Type} {kind : Kind α}

theorem Plain.delimited (h : kind.Plain) : kind.read.Delimited := by
  cases h with
  | int8 => exact (RawRead.Delimited.fixed 1 "int8").map _
  | int16 => exact (RawRead.Delimited.fixed 2 "int16").map _
  | int32 => exact (RawRead.Delimited.fixed 4 "int32").map _
  | int64 => exact (RawRead.Delimited.fixed 8 "int64").map _
  | uint32 => exact (RawRead.Delimited.fixed 4 "uint32").map _
  | unsignedVarint => exact RawRead.Delimited.unsignedVarint
  | varint => exact RawRead.Delimited.varint
  | compactString => exact RawRead.Delimited.compactString
  | compactNullableString => exact RawRead.Delimited.compactNullableString
  | uuid => exact (RawRead.Delimited.take 16 "UUID").map _
  | boolean => exact RawRead.Delimited.boolean
  | compactArrayLength => exact RawRead.Delimited.unsignedVarint
  | compactRecordSize => exact RawRead.Delimited.unsignedVarint

/-- **A value is told from every part of its bytes.** -/
theorem Primitive.delimited (h : kind.Primitive) : kind.read.Delimited := by
  cases h with
  | plain h => exact h.delimited
  | string => exact RawRead.Delimited.string
  | rawBytes n => exact RawRead.Delimited.take n "raw bytes"
  | tagBuffer => exact RawRead.Delimited.tagBuffer

end Kind
end BrokerExam
