/-
BrokerExam/Proofs/Wire/FailedRead.lean

Primitive reads that fail.  Such a read may have taken a length in front of the
contents that are at fault, but it never stands outside of the bytes that it saw
(`RawRead.FailsInSight`); so the bytes it is blamed on begin where it began, lie
in its sight, and are at least one if it saw any.

Main results: `Kind.Primitive.failsInSight`, and `DecodeError.FailedAt.range` for
the bytes to blame.
-/
import BrokerExam.Proofs.Wire.Kind
import BrokerExam.Wire.FieldRead

namespace BrokerExam

namespace RawRead

variable {α β : Type}

/-- A failed run of `r` stands no earlier than where it began, and sees as far. -/
def FailsInSight (r : RawRead α) : Prop :=
  ∀ c e c', r c = .error e c' → c.offset ≤ c'.offset ∧ c'.stop = c.stop

namespace FailsInSight

theorem pure (a : α) : FailsInSight (Pure.pure a) := by
  intro c e c' run
  cases run

/-- A read that fails where it stands has not moved. -/
theorem of_stay {r : RawRead α} (stay : ∀ c e c', r c = .error e c' → c' = c) :
    FailsInSight r := by
  intro c e c' run
  rw [stay c e c' run]
  exact ⟨Nat.le_refl _, rfl⟩

theorem throw (e : CodecError) : FailsInSight (throw e : RawRead α) := by
  refine of_stay fun c e' c' run => ?_
  exact (EStateM.Result.error.inj run).2.symm

theorem map {r : RawRead α} (hr : FailsInSight r) (g : α → β) : FailsInSight (g <$> r) :=
  fun c e c' run => hr c e c' (error_of_map run)

theorem bind {r : RawRead α} {f : α → RawRead β} (isLocal : r.Local) (hr : FailsInSight r)
    (hf : ∀ a, FailsInSight (f a)) : FailsInSight (r >>= f) := by
  intro c e c' run
  rcases error_of_bind run with first | ⟨a, c₁, first, second⟩
  · exact hr c e c' first
  · obtain ⟨forward, far⟩ := hf a c₁ e c' second
    obtain ⟨used, left, ahead, hused⟩ := isLocal c a c₁ first
    obtain ⟨-, rfl⟩ := hused.cursor_eq ahead first
    refine ⟨Nat.le_of_add_right_le forward, ?_⟩
    -- what was read is no longer ahead, and is counted in the offset instead
    simp only [Cursor.stop] at far ⊢
    rw [far, ahead, List.length_append, Nat.add_assoc]

theorem take (n : Nat) (what : String) : FailsInSight (take n what) := by
  refine of_stay fun c e c' run => ?_
  simp only [RawRead.take] at run
  split at run
  · cases run
  · exact (EStateM.Result.error.inj run).2.symm

theorem fixed (k : Nat) (what : String) : FailsInSight (fixed k what) := (take k what).map _

theorem decoding (decode : Bytes → Except Varint.Malformed (α × Nat)) :
    FailsInSight (decoding decode) := by
  refine of_stay fun c e c' run => ?_
  simp only [RawRead.decoding] at run
  split at run
  · cases run
  · exact (EStateM.Result.error.inj run).2.symm

theorem unsignedVarint : FailsInSight unsignedVarint := by
  rw [unsignedVarint_eq_decoding]
  exact decoding _

theorem varint : FailsInSight varint := by
  rw [varint_eq_decoding]
  exact decoding _

theorem contents (n : Nat) : FailsInSight (contents n) := (take n "string").map _

theorem compactString : FailsInSight compactString := by
  refine unsignedVarint.bind unsignedVarint_isLocal fun length => ?_
  split
  · exact throw _
  · exact contents _

theorem compactNullableString : FailsInSight compactNullableString := by
  refine unsignedVarint.bind unsignedVarint_isLocal fun length => ?_
  split
  · exact pure none
  · exact (contents _).map some

theorem string : FailsInSight string := by
  refine ((fixed 2 "int16").map _).bind ((fixed_isLocal 2 "int16").map _) fun length => ?_
  split
  · exact pure none
  · split
    · exact throw _
    · exact (contents _).map some

theorem boolean : FailsInSight boolean := by
  refine ((fixed 1 "int8").map _).bind ((fixed_isLocal 1 "int8").map _) fun v => ?_
  split
  · exact pure false
  · split
    · exact pure true
    · exact throw _

theorem tagBuffer : FailsInSight tagBuffer := by
  refine unsignedVarint.bind unsignedVarint_isLocal fun count => ?_
  split
  · exact pure count
  · exact throw _

end FailsInSight
end RawRead

/-! ### Kinds -/

namespace Kind

variable {α : Type} {kind : Kind α}

/-- The kinds that messages are made of. -/
inductive Primitive : {α : Type} → Kind α → Prop
  | plain {α : Type} {kind : Kind α} : kind.Plain → Primitive kind
  | string : Primitive string
  | rawBytes (n : Nat) : Primitive (rawBytes n)
  | tagBuffer : Primitive tagBuffer

theorem Primitive.isLocal (h : kind.Primitive) : kind.read.Local := by
  cases h with
  | plain h => exact h.isLocal
  | string => exact RawRead.string_isLocal
  | rawBytes n => exact RawRead.take_isLocal n "raw bytes"
  | tagBuffer => exact RawRead.tagBuffer_isLocal

theorem Plain.failsInSight (h : kind.Plain) : kind.read.FailsInSight := by
  cases h with
  | int8 => exact (RawRead.FailsInSight.fixed 1 "int8").map _
  | int16 => exact (RawRead.FailsInSight.fixed 2 "int16").map _
  | int32 => exact (RawRead.FailsInSight.fixed 4 "int32").map _
  | int64 => exact (RawRead.FailsInSight.fixed 8 "int64").map _
  | uint32 => exact (RawRead.FailsInSight.fixed 4 "uint32").map _
  | unsignedVarint => exact RawRead.FailsInSight.unsignedVarint
  | varint => exact RawRead.FailsInSight.varint
  | compactString => exact RawRead.FailsInSight.compactString
  | compactNullableString => exact RawRead.FailsInSight.compactNullableString
  | uuid => exact (RawRead.FailsInSight.take 16 "UUID").map _
  | boolean => exact RawRead.FailsInSight.boolean
  | compactArrayLength => exact RawRead.FailsInSight.unsignedVarint
  | compactRecordSize => exact RawRead.FailsInSight.unsignedVarint

theorem Primitive.failsInSight (h : kind.Primitive) : kind.read.FailsInSight := by
  cases h with
  | plain h => exact h.failsInSight
  | string => exact RawRead.FailsInSight.string
  | rawBytes n => exact RawRead.FailsInSight.take n "raw bytes"
  | tagBuffer => exact RawRead.FailsInSight.tagBuffer

/-- A plain kind is never read from no bytes at all. -/
theorem Plain.used_pos (h : kind.Plain) {used : Bytes} {a : α} (hr : kind.read.Reads used a) :
    0 < used.length := by
  refine List.length_pos_iff.2 ?_
  rintro rfl
  have run := hr 0 []
  cases h <;> cases run

end Kind

/-! ### Blame -/

/-- The bytes to blame end in sight, and behind where they start if there are any. -/
theorem FieldRead.blameStop_inSight {start : Nat} {c : Cursor} (forward : start ≤ c.offset)
    (cause : CodecError) :
    start ≤ blameStop start c cause ∧ blameStop start c cause ≤ c.stop ∧
      (start < c.stop → start < blameStop start c cause) := by
  have inSight : c.offset ≤ c.stop := Nat.le_add_right _ _
  have most : 0 < Varint.maxBytes := by decide
  cases cause
  all_goals simp only [blameStop]
  all_goals omega

/-- The error is that of a primitive read which failed at the cursor. -/
def DecodeError.FailedAt (e : DecodeError) (c : Cursor) : Prop :=
  ∃ (α : Type) (kind : Kind α), kind.Primitive ∧ ∃ c', kind.read c = .error e.cause c' ∧
    e.start = c.offset ∧ e.stop = FieldRead.blameStop c.offset c' e.cause

/-- **The bytes to blame** begin where the read began, and lie in its sight; they are at least one
if it saw any. -/
theorem DecodeError.FailedAt.range {e : DecodeError} {c : Cursor} (h : e.FailedAt c) :
    e.start = c.offset ∧ e.start ≤ e.stop ∧ e.stop ≤ c.stop ∧
      (c.ahead ≠ [] → e.start < e.stop) := by
  obtain ⟨α, kind, primitive, c', run, start, stop⟩ := h
  obtain ⟨forward, far⟩ := primitive.failsInSight c e.cause c' run
  obtain ⟨first, last, some⟩ := FieldRead.blameStop_inSight forward e.cause
  rw [start, stop]
  rw [far] at last some
  refine ⟨rfl, first, last, fun sight => some ?_⟩
  exact Nat.lt_add_of_pos_right (List.length_pos_iff.2 sight)

end BrokerExam
