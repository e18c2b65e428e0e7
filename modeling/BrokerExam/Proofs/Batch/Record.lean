/-
BrokerExam/Proofs/Batch/Record.lean

Records read back.  Inside a record a varint length stands in front of
everything of variable size, and in front of the record itself; reading checks
the latter against the distance the cursor has moved
(`ReadsBefore.measured`).

Main results: the codecs of records and their headers are lawful, and what they
write for a value reads back as that very value (`Record.codec_write_fst`).
-/
import BrokerExam.Proofs.Wire.Lawful
import BrokerExam.Batch.Record

namespace BrokerExam

variable {ν α β : Type}

/-! ### Measured reads -/

section Measured

variable {rest used used' : Bytes} {t t' : Trace} {a : α} {b : β} {r : NotingRead ν α}

/-- What follows a read may know how many bytes it took. -/
theorem ReadsBefore.measured {k : Nat → α → NotingRead ν β}
    (hr : ReadsBefore (used' ++ rest) r used t a)
    (hk : ReadsBefore rest (k used.length a) used' t' b) :
    ReadsBefore rest (do
        let start ← FieldRead.offset
        let a ← r
        k ((← FieldRead.offset) - start) a)
      (used ++ used') (t ++ t') b where
  width := by rw [Trace.width_append, hr.width, hk.width, List.length_append]
  run := by
    intro s ahead
    rw [List.append_assoc] at ahead
    show (r >>= fun a => FieldRead.offset >>= fun stop => k (stop - s.cursor.offset) a) s = _
    rw [bind_of_ok (hr.run s ahead)]
    show k (s.cursor.offset + t.width - s.cursor.offset) a (s.past t (used' ++ rest)) = _
    rw [Nat.add_sub_cancel_left, hr.width, hk.run _ rfl, ReadState.past_past]

theorem FieldRead.LocalFamily.measured {ι : Type} {k : ι → Nat → α → NotingRead ν β}
    (hr : FieldRead.Local r) (hk : ∀ n a, FieldRead.LocalFamily fun i => k i n a) :
    FieldRead.LocalFamily fun i => (do
      let start ← FieldRead.offset
      let a ← r
      k i ((← FieldRead.offset) - start) a : NotingRead ν β) := by
  intro i s b s' run
  change (r >>= fun a =>
    FieldRead.offset >>= fun stop => k i (stop - s.cursor.offset) a) s = _ at run
  obtain ⟨a, s₁, run₁, run₂⟩ := ok_of_bind run
  obtain ⟨used, left, t, ahead, hused⟩ := hr s a s₁ run₁
  obtain ⟨-, rfl⟩ := (hused left).eq_past ahead run₁
  change k i (s.cursor.offset + t.width - s.cursor.offset) a _ = _ at run₂
  rw [Nat.add_sub_cancel_left, (hused left).width] at run₂
  obtain ⟨used', left', t', ahead', hused'⟩ := hk used.length a i _ b s' run₂
  refine ⟨used ++ used', left', t ++ t', ?_, fun j rest => (hused _).measured (hused' j rest)⟩
  rw [ahead, List.append_assoc, ← ahead']
  rfl

end Measured

/-! ### Parts of records -/

/-- The varint in front of fewer than `2 ^ 63` bytes or elements counts them. -/
theorem int64Length_counts {n : Nat} (h : n < 0x8000000000000000) :
    ¬ Int64.ofNat n = -1 ∧ ¬ Int64.ofNat n < -1 ∧ (Int64.ofNat n).toInt = n := by
  have counts : (Int64.ofNat n).toInt = n := Int64.toInt_ofNat_of_lt h
  refine ⟨fun null => ?_, fun below => ?_, counts⟩
  · rw [null, show (-1 : Int64).toInt = -1 from rfl] at counts
    omega
  · rw [Int64.lt_iff_toInt_lt, counts, show (-1 : Int64).toInt = -1 from rfl] at below
    omega

theorem reads_rawBytes (bs : Bytes) : (Kind.rawBytes bs.length).Takes bs :=
  RawRead.reads_take bs "raw bytes"

namespace Codec

variable (lengthSegment segment : String)

instance : (varintBytes lengthSegment segment).Lawful where
  on_all := {
    reads := fun v _ fits => by
      cases v with
      | none =>
        exact ReadsBack.anchored_bind lengthSegment (RawRead.reads_varint (-1))
          fun _ => ReadsBack.pure none
      | some bs =>
        have small : bs.length < 0x8000000000000000 := by
          change (Encoding.bytes (Encoding.leaf lengthSegment _ ++
            Encoding.leaf segment (.rawBytes bs))).length < _ at fits
          rw [Encoding.bytes_append, List.length_append, Encoding.bytes_leaf segment] at fits
          exact Nat.lt_of_le_of_lt (Nat.le_add_left _ _) fits
        obtain ⟨notNull, notBelow, counts⟩ := int64Length_counts small
        refine ReadsBack.anchored_bind lengthSegment (RawRead.reads_varint _) fun anchor => ?_
        show ReadsBack (if Int64.ofNat bs.length = -1 then _ else
          if Int64.ofNat bs.length < -1 then _ else _) _ _
        rw [if_neg notNull, if_neg notBelow, counts]
        exact (ReadsBack.field segment (reads_rawBytes bs)).map some
    short := fun v _ => by
      cases v with
      | none => exact Encoding.Short.leaf lengthSegment rfl
      | some bs =>
        exact (Encoding.Short.leaf lengthSegment rfl).append (Encoding.Short.leaf segment rfl)
    isLocal := by
      refine FieldRead.Local.anchored_bind lengthSegment Kind.Plain.varint.isLocal fun length => ?_
      show FieldRead.LocalFamily fun anchor : Anchor => if length = -1 then _ else
        if length < -1 then _ else _
      split
      · exact (FieldRead.Local.pure none).family
      · split
        · exact FieldRead.LocalFamily.throw _
        · exact ((FieldRead.Local.field segment (RawRead.take_isLocal _ _)).map some).family }

instance : (varintBytes lengthSegment segment).Solid where
  length_pos v := by
    cases v with
    | none => exact (solid_field lengthSegment Kind.Plain.varint).length_pos (-1)
    | some bs =>
      show 0 < (Encoding.bytes (Encoding.leaf lengthSegment (.varint (Int64.ofNat bs.length)) ++
        Encoding.leaf segment (.rawBytes bs))).length
      rw [Encoding.bytes_append, List.length_append]
      exact Nat.add_pos_left ((solid_field lengthSegment Kind.Plain.varint).length_pos _) _

@[simp] theorem varintBytes_write_fst (v : Option Bytes) :
    ((varintBytes lengthSegment segment).write v).1 = v := by
  cases v <;> rfl

instance (name : String) (element : Codec α β) [h : element.Lawful] [element.Solid] :
    (varintArray lengthSegment name element).Lawful where
  on_all := {
    reads := fun as _ fits => by
      have inside : (Encoding.items name ((as.map element.write).map Prod.snd)).bytes.length
          ≤ ((varintArray lengthSegment name element).write as).2.bytes.length := by
        simp only [varintArray, writeItems_eq, Encoding.bytes_append, List.length_append]
        exact Nat.le_add_left _ _
      have items := readsBack_items h.on_all (fun _ _ => trivial) name
        (Nat.lt_of_le_of_lt inside fits)
      have count := Nat.lt_of_le_of_lt (Nat.le_trans (length_le_items as name) inside) fits
      obtain ⟨-, notBelow, counts⟩ := int64Length_counts count
      simp only [varintArray, writeItems_eq]
      refine ReadsBack.anchored_bind lengthSegment (RawRead.reads_varint _) fun anchor => ?_
      show ReadsBack (if Int64.ofNat as.length < -1 then _ else _) _ _
      rw [if_neg notBelow, counts, Int.toNat_natCast, ← List.length_map (f := element.write)]
      exact ReadsBack.repeated_scope items
    short := fun as _ => by
      simp only [varintArray, writeItems_eq]
      exact (Encoding.Short.leaf lengthSegment rfl).append
        (Encoding.Short.items (short_items h.on_all fun _ _ => trivial) name)
    isLocal := by
      refine FieldRead.Local.anchored_bind lengthSegment Kind.Plain.varint.isLocal fun length => ?_
      show FieldRead.LocalFamily fun anchor : Anchor => if length < -1 then _ else _
      split
      · exact FieldRead.LocalFamily.throw _
      · exact (FieldRead.Local.repeated (fun i => h.on_all.isLocal.scope _) _ 0).family }

/-- The size must be the distance that the cursor has moved. -/
def sizeChecked (declared : Int64) (anchor : Anchor) (actual : Nat) (b : β) : FieldRead β :=
  if declared.toInt = actual then pure b
  else throw (anchor.error (.batchSizeMismatch (.record actual declared)))

theorem readsBefore_sizeChecked {declared : Int64} {actual : Nat} (rest : Bytes) (anchor : Anchor)
    (b : β) (h : declared.toInt = actual) :
    ReadsBefore rest (sizeChecked declared anchor actual b) [] [] b := by
  rw [sizeChecked, if_pos h]
  exact ReadsBefore.pure b

instance (c : Codec α β) : (sized segment c).Solid where
  length_pos a := by
    show 0 < (Encoding.bytes (Encoding.leaf segment (.varint _) ++ (c.write a).2)).length
    rw [Encoding.bytes_append, List.length_append]
    exact Nat.add_pos_left ((solid_field segment Kind.Plain.varint).length_pos _) _

/-- What stands behind its size is read back: the cursor moves by as much as the size says. -/
instance (c : Codec α β) [h : c.Lawful] : (sized segment c).Lawful where
  on_all := {
    reads := fun a _ fits => by
      change (Encoding.bytes
        (Encoding.leaf segment (.varint _) ++ (c.write a).2)).length < _ at fits
      rw [Encoding.bytes_append, List.length_append] at fits
      have small : (c.write a).2.bytes.length < 0x8000000000000000 :=
        Nat.lt_of_le_of_lt (Nat.le_add_left _ _) fits
      have counts := (int64Length_counts small).2.2
      refine ReadsBack.anchored_bind segment (RawRead.reads_varint _) fun anchor rest => ?_
      -- the check takes no bytes of its own
      have done := readsBefore_sizeChecked rest anchor (c.write a).1 counts
      have whole := (h.on_all.reads a trivial small ([] ++ rest)).measured done
      rw [List.append_nil, List.append_nil] at whole
      exact whole
    short := fun a _ => (Encoding.Short.leaf segment rfl).append (h.on_all.short a trivial)
    isLocal := by
      refine FieldRead.Local.anchored_bind segment Kind.Plain.varint.isLocal fun declared => ?_
      refine FieldRead.LocalFamily.measured (k := sizeChecked declared) h.on_all.isLocal ?_
      intro n b
      show FieldRead.LocalFamily fun anchor : Anchor => if declared.toInt = n then _ else _
      split
      · exact (FieldRead.Local.pure b).family
      · exact FieldRead.LocalFamily.throw _ }

instance : (narrowVarint segment).Lawful where
  on_all := {
    reads := fun v _ _ => by
      show ReadsBack _ (Encoding.leaf segment (.varint v.toInt64) ++ []) v
      refine ReadsBack.anchored_bind segment (RawRead.reads_varint v.toInt64) fun anchor => ?_
      -- a number of 32 bits is still itself after having been widened
      show ReadsBack (if v.toInt64.toInt32.toInt64 = v.toInt64 then
        pure v.toInt64.toInt32 else _ : FieldRead Int32) [] v
      rw [Int32.toInt32_toInt64, if_pos rfl]
      exact ReadsBack.pure v
    short := fun _ _ => Encoding.Short.leaf segment rfl
    isLocal := by
      refine FieldRead.Local.anchored_bind segment Kind.Plain.varint.isLocal fun v => ?_
      show FieldRead.LocalFamily fun anchor : Anchor => if v.toInt32.toInt64 = v then _ else _
      split
      · exact (FieldRead.Local.pure v.toInt32).family
      · exact FieldRead.LocalFamily.throw _ }

end Codec

/-! ### Records -/

instance : RecordHeader.codec.Lawful := by
  unfold RecordHeader.codec
  infer_instance

instance : RecordHeader.codec.Solid := by
  unfold RecordHeader.codec
  infer_instance

@[simp] theorem RecordHeader.codec_write_fst (h : RecordHeader) :
    (RecordHeader.codec.write h).1 = h := by
  show (⟨Utf8.decodeLossy (Utf8.encode h.key),
    ((Codec.varintBytes "ValueLength" "Value").write h.value).1⟩ : RecordHeader) = h
  rw [Utf8.decodeLossy_encode, Codec.varintBytes_write_fst]

namespace Record

instance : contents.Lawful := by
  unfold contents
  infer_instance

instance : codec.Lawful := by
  unfold codec
  infer_instance

instance : codec.Solid := by
  unfold codec
  infer_instance

@[simp] theorem contents_write_fst (r : Record) : (contents.write r).1 = r := by
  have headers : r.headers.map (fun h => (RecordHeader.codec.write h).1) = r.headers := by
    simp only [RecordHeader.codec_write_fst, List.map_id']
  show ({ r with
    key := ((Codec.varintBytes "KeyLength" "Key").write r.key).1
    value := ((Codec.varintBytes "ValueLength" "Value").write r.value).1
    headers := r.headers.map fun h => (RecordHeader.codec.write h).1 } : Record) = r
  rw [Codec.varintBytes_write_fst, Codec.varintBytes_write_fst, headers]

@[simp] theorem codec_write_fst (r : Record) : (codec.write r).1 = r :=
  contents_write_fst r

end Record
end BrokerExam
