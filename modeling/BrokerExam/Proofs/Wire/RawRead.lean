/-
BrokerExam/Proofs/Wire/RawRead.lean

Primitive reads as relations between bytes and values.

    RawRead.Reads r used a

says that `r` takes the bytes `used` for `a`, wherever it stands and whatever
comes after them.  A primitive read is `Local`: whenever it succeeds, it has
read some bytes in this sense, so that nothing behind them was looked at.

Main results: for each primitive `r` a lemma `reads_r`, that the bytes written
for a value are read as that value, and a lemma `r_isLocal`.
-/
import BrokerExam.Wire.Kind
import BrokerExam.Proofs.Bytes.Varint
import BrokerExam.Proofs.Sequence
import BrokerExam.Proofs.Text.Utf8

namespace BrokerExam

namespace RawRead

variable {α β : Type}

/-- `r` takes the bytes `used` for `a`. -/
def Reads (r : RawRead α) (used : Bytes) (a : α) : Prop :=
  ∀ offset rest, r ⟨offset, used ++ rest⟩ = .ok a ⟨offset + used.length, rest⟩

/-- `r` looks at no more than what it reads. -/
def Local (r : RawRead α) : Prop :=
  ∀ c a c', r c = .ok a c' → ∃ used left, c.ahead = used ++ left ∧ r.Reads used a

/-! ### Sequences of primitive reads -/

theorem Reads.pure (a : α) : Reads (Pure.pure a) [] a := fun _ _ => rfl

theorem Reads.bind {r : RawRead α} {f : α → RawRead β} {u v : Bytes} {a : α} {b : β}
    (hr : r.Reads u a) (hf : (f a).Reads v b) : (r >>= f).Reads (u ++ v) b := by
  intro o rest
  rw [List.append_assoc, bind_of_ok (hr o (v ++ rest)), hf, List.length_append, Nat.add_assoc]

theorem Reads.map {r : RawRead α} {u : Bytes} {a : α} (hr : r.Reads u a) (g : α → β) :
    Reads (g <$> r) u (g a) := fun o rest => map_of_ok (hr o rest)

/-- Where a read stands after having read some bytes. -/
theorem Reads.cursor_eq {r : RawRead α} {u left : Bytes} {a b : α} {c c' : Cursor}
    (hr : r.Reads u a) (hc : c.ahead = u ++ left) (run : r c = .ok b c') :
    a = b ∧ c' = ⟨c.offset + u.length, left⟩ := by
  obtain ⟨o, ahead⟩ := c
  obtain rfl : ahead = u ++ left := hc
  rw [hr o left] at run
  obtain ⟨hb, hc'⟩ := EStateM.Result.ok.inj run
  exact ⟨hb, hc'.symm⟩

/-- Nothing is read for what is there already. -/
theorem eq_of_reads_pure {a b : α} {u : Bytes} (h : Reads (Pure.pure a) u b) : a = b ∧ u = [] := by
  obtain ⟨rfl, same⟩ := EStateM.Result.ok.inj (h 0 [])
  refine ⟨rfl, ?_⟩
  simpa only [List.append_nil] using congrArg Cursor.ahead same

theorem Local.pure (a : α) : Local (Pure.pure a) := by
  intro c b c' h
  obtain ⟨rfl, rfl⟩ := EStateM.Result.ok.inj h
  exact ⟨[], c.ahead, rfl, Reads.pure a⟩

theorem Local.throw (e : CodecError) : Local (throw e : RawRead α) := by
  intro c a c' h
  change EStateM.Result.error e c = .ok a c' at h
  cases h

theorem Local.bind {r : RawRead α} {f : α → RawRead β} (hr : r.Local) (hf : ∀ a, (f a).Local) :
    (r >>= f).Local := by
  intro c b c' h
  obtain ⟨a, c₁, h₁, h₂⟩ := ok_of_bind h
  obtain ⟨u, left, hu, ru⟩ := hr c a c₁ h₁
  obtain ⟨v, left', hv, rv⟩ := hf a c₁ b c' h₂
  -- the second read begins where the first has ended
  obtain ⟨-, rfl⟩ := ru.cursor_eq hu h₁
  refine ⟨u ++ v, left', ?_, ru.bind rv⟩
  rw [hu, List.append_assoc, ← hv]

theorem Local.map {r : RawRead α} (hr : r.Local) (g : α → β) : Local (g <$> r) := by
  intro c b c' h
  obtain ⟨a, h₁, rfl⟩ := ok_of_map h
  obtain ⟨u, left, hu, ru⟩ := hr c a c' h₁
  exact ⟨u, left, hu, ru.map g⟩

/-- What is read when nothing is left over is all that there was. -/
theorem Local.reads_of_run {r : RawRead α} (h : r.Local) {c c' : Cursor} {a : α}
    (run : r c = .ok a c') (whole : c'.ahead = []) : r.Reads c.ahead a := by
  obtain ⟨used, left, ahead, reads⟩ := h c a c' run
  obtain ⟨-, rfl⟩ := reads.cursor_eq ahead run
  obtain rfl : left = [] := whole
  rw [ahead, List.append_nil]
  exact reads

theorem Local.reads_of_bind {r : RawRead α} {f : α → RawRead β} (hr : r.Local)
    (hf : ∀ a, (f a).Local) {used : Bytes} {b : β} (h : (r >>= f).Reads used b) :
    ∃ a u v, used = u ++ v ∧ r.Reads u a ∧ (f a).Reads v b := by
  have run := h 0 []
  rw [List.append_nil] at run
  obtain ⟨a, c, first, second⟩ := ok_of_bind run
  obtain ⟨u, v, ahead, reads⟩ := hr _ a c first
  obtain ⟨-, rfl⟩ := reads.cursor_eq ahead first
  exact ⟨a, u, v, ahead, reads, (hf a).reads_of_run second rfl⟩

theorem Local.reads_of_map {r : RawRead α} (hr : r.Local) {g : α → β} {used : Bytes} {b : β}
    (h : Reads (g <$> r) used b) : ∃ a, r.Reads used a ∧ g a = b := by
  have run := h 0 []
  rw [List.append_nil] at run
  obtain ⟨a, first, value⟩ := ok_of_map run
  exact ⟨a, hr.reads_of_run first rfl, value⟩

/-! ### What is read -/

section Yields

variable {P : β → Prop}

/-- Whatever is read has the property. -/
def Yields (r : RawRead β) (P : β → Prop) : Prop := ∀ c b c', r c = .ok b c' → P b

theorem Yields.pure {b : β} (h : P b) : Yields (Pure.pure b) P := by
  intro c b' c' run
  obtain ⟨rfl, -⟩ := EStateM.Result.ok.inj run
  exact h

theorem Yields.throw (e : CodecError) : Yields (throw e : RawRead β) P := by
  intro c b c' run
  cases run

theorem Yields.bind {r : RawRead α} {f : α → RawRead β} (h : ∀ a, (f a).Yields P) :
    (r >>= f).Yields P := by
  intro c b c' run
  obtain ⟨a, c₁, -, run⟩ := ok_of_bind run
  exact h a c₁ b c' run

end Yields

/-! ### Bytes -/

theorem reads_take (bs : Bytes) (what : String) : (take bs.length what).Reads bs bs := by
  intro o rest
  simp only [take, List.take_left, Cursor.advance, List.drop_left, if_true]

theorem take_isLocal (n : Nat) (what : String) : (take n what).Local := by
  intro c a c' h
  simp only [take] at h
  split at h
  · next enough =>
    obtain ⟨rfl, -⟩ := EStateM.Result.ok.inj h
    refine ⟨c.ahead.take n, c.ahead.drop n, (List.take_append_drop n c.ahead).symm, ?_⟩
    have hr := reads_take (c.ahead.take n) what
    rwa [enough] at hr
  · cases h

/-- What is taken is that many bytes. -/
theorem eq_of_reads_take {n : Nat} {what : String} {u bs : Bytes} (h : (take n what).Reads u bs) :
    u.length = n ∧ bs = u := by
  -- one run tells: the offset has moved by the bytes used, and by their number
  have run := h 0 []
  rw [List.append_nil] at run
  simp only [take] at run
  split at run
  · obtain ⟨taken, moved⟩ := EStateM.Result.ok.inj run
    have offset := congrArg Cursor.offset moved
    simp only [Cursor.advance, Nat.zero_add] at offset
    rw [List.take_of_length_le (Nat.le_of_eq offset.symm)] at taken
    exact ⟨offset.symm, taken.symm⟩
  · cases run

theorem reads_fixed (k n : Nat) (what : String) :
    (fixed k what).Reads (BigEndian.encode k n) (n % BigEndian.span k) := by
  have hr := (reads_take (BigEndian.encode k n) what).map BigEndian.decode
  rwa [BigEndian.length_encode, BigEndian.decode_encode] at hr

theorem fixed_isLocal (k : Nat) (what : String) : (fixed k what).Local :=
  (take_isLocal k what).map _

/-- The value of a fixed-width read, when it is put back together from all its bits. -/
theorem reads_fixed_map {k n : Nat} {what : String} (g : Nat → α) {a : α}
    (h : g (n % BigEndian.span k) = a) : Reads (g <$> fixed k what) (BigEndian.encode k n) a :=
  h ▸ (reads_fixed k n what).map g

/-- What is read by a fixed-width read is that wide, and is the value of its bytes. -/
theorem eq_of_reads_fixed {k : Nat} {what : String} {g : Nat → α} {u : Bytes} {a : α}
    (h : Reads (g <$> fixed k what) u a) : u.length = k ∧ a = g (BigEndian.decode u) := by
  obtain ⟨n, number, rfl⟩ := (fixed_isLocal k what).reads_of_map h
  obtain ⟨bs, taken, rfl⟩ := (take_isLocal k what).reads_of_map number
  obtain ⟨width, rfl⟩ := eq_of_reads_take taken
  exact ⟨width, rfl⟩

theorem length_of_reads_fixed {k : Nat} {what : String} {g : Nat → α} {u : Bytes} {a : α}
    (h : Reads (g <$> fixed k what) u a) : u.length = k := (eq_of_reads_fixed h).1

/-! ### Numbers -/

theorem reads_int8 (v : Int8) : int8.Reads (Value.int8 v).bytes v := by
  apply reads_fixed_map
  rw [show BigEndian.span 1 = 2 ^ 8 from rfl, Nat.mod_eq_of_lt v.toUInt8.toNat_lt,
    UInt8.ofNat_toNat, Int8.toInt8_toUInt8]

/-- A byte is read as the signed number of its bits. -/
theorem reads_int8_iff {u : Bytes} {v : Int8} : int8.Reads u v ↔ u = [v.toUInt8] := by
  have number (b : UInt8) : BigEndian.decode [b] = b.toNat := by
    simp only [BigEndian.decode, List.length_nil, BigEndian.span, Nat.mul_one, Nat.add_zero]
  constructor
  · intro h
    obtain ⟨width, rfl⟩ := eq_of_reads_fixed h
    obtain ⟨b, rfl⟩ := List.length_eq_one_iff.1 width
    rw [number, UInt8.ofNat_toNat, UInt8.toUInt8_toInt8]
  · rintro rfl
    have bytes : (Value.int8 v).bytes = [v.toUInt8] := by
      simp only [Value.bytes, BigEndian.encode, BigEndian.span, Nat.div_one, UInt8.ofNat_toNat]
    rw [← bytes]
    exact reads_int8 v

theorem reads_int16 (v : Int16) : int16.Reads (Value.int16 v).bytes v := by
  apply reads_fixed_map
  rw [show BigEndian.span 2 = 2 ^ 16 from rfl, Nat.mod_eq_of_lt v.toUInt16.toNat_lt,
    UInt16.ofNat_toNat, Int16.toInt16_toUInt16]

theorem reads_int32 (v : Int32) : int32.Reads (Value.int32 v).bytes v := by
  apply reads_fixed_map
  rw [show BigEndian.span 4 = 2 ^ 32 from rfl, Nat.mod_eq_of_lt v.toUInt32.toNat_lt,
    UInt32.ofNat_toNat, Int32.toInt32_toUInt32]

theorem reads_int64 (v : Int64) : int64.Reads (Value.int64 v).bytes v := by
  apply reads_fixed_map
  rw [show BigEndian.span 8 = 2 ^ 64 from rfl, Nat.mod_eq_of_lt v.toUInt64.toNat_lt,
    UInt64.ofNat_toNat, Int64.toInt64_toUInt64]

/-- A checksum crosses the wire as its signed bit pattern. -/
theorem reads_uint32 (v : UInt32) : uint32.Reads (Value.int32 v.toInt32).bytes v := by
  apply reads_fixed_map
  rw [UInt32.toUInt32_toInt32, show BigEndian.span 4 = 2 ^ 32 from rfl,
    Nat.mod_eq_of_lt v.toNat_lt, UInt32.ofNat_toNat]

theorem reads_unsignedVarint (v : UInt64) : unsignedVarint.Reads (Varint.encode v) v := by
  intro o rest
  simp only [unsignedVarint, Varint.decode_encode, Cursor.advance, List.drop_left]

theorem reads_varint (v : Int64) : varint.Reads (Varint.encodeSigned v) v := by
  intro o rest
  simp only [varint, Varint.decodeSigned_encodeSigned, Cursor.advance, List.drop_left]

theorem int8_isLocal : int8.Local := (fixed_isLocal 1 "int8").map _

theorem int16_isLocal : int16.Local := (fixed_isLocal 2 "int16").map _

theorem int32_isLocal : int32.Local := (fixed_isLocal 4 "int32").map _

theorem uuid_isLocal : uuid.Local := (take_isLocal 16 "UUID").map _

/-! ### Decoders -/

/-- The read of what a decoder finds at the start of the bytes ahead: unsigned and signed numbers
of variable length are read so. -/
def decoding (decode : Bytes → Except Varint.Malformed (α × Nat)) : RawRead α := fun c =>
  match decode c.ahead with
  | .ok (v, used) => .ok v (c.advance used)
  | .error e => .error (.malformedVarint e) c

theorem unsignedVarint_eq_decoding : unsignedVarint = decoding Varint.decode := by
  funext c
  rw [unsignedVarint, decoding]
  rcases Varint.decode c.ahead with e | ⟨v, used⟩
  · rfl
  · rfl

theorem varint_eq_decoding : varint = decoding Varint.decodeSigned := by
  funext c
  rw [varint, decoding]
  rcases Varint.decodeSigned c.ahead with e | ⟨v, used⟩
  · rfl
  · rfl

section Decoders

variable {decode : Bytes → Except Varint.Malformed (α × Nat)}
  (alone : ∀ {v used bs}, decode bs = .ok (v, used) →
    used ≤ bs.length ∧ ∀ rest, decode (bs.take used ++ rest) = .ok (v, used))
include alone

theorem reads_decoding_of_ok {u : Bytes} {v : α} (h : decode u = .ok (v, u.length)) :
    (decoding decode).Reads u v := by
  intro o rest
  have same := (alone h).2 rest
  rw [List.take_length] at same
  simp only [decoding, same, Cursor.advance, List.drop_left]

/-- The bytes of a number are those that it is decoded from. -/
theorem reads_decoding_iff {u : Bytes} {v : α} :
    (decoding decode).Reads u v ↔ decode u = .ok (v, u.length) := by
  refine ⟨fun h => ?_, reads_decoding_of_ok alone⟩
  have run := h 0 []
  rw [List.append_nil] at run
  simp only [decoding] at run
  split at run
  · next w used decoded =>
    obtain ⟨rfl, moved⟩ := EStateM.Result.ok.inj run
    have offset := congrArg Cursor.offset moved
    simp only [Cursor.advance, Nat.zero_add] at offset
    rw [decoded, offset]
  · cases run

theorem decoding_isLocal : (decoding decode).Local := by
  intro c v c' h
  simp only [decoding] at h
  split at h
  · next w used decoded =>
    obtain ⟨rfl, -⟩ := EStateM.Result.ok.inj h
    obtain ⟨enough, same⟩ := alone decoded
    refine ⟨c.ahead.take used, c.ahead.drop used, (List.take_append_drop used _).symm, ?_⟩
    apply reads_decoding_of_ok alone
    have again := same []
    rw [List.append_nil] at again
    rw [again, List.length_take_of_le enough]
  · cases h

end Decoders

theorem reads_unsignedVarint_iff {u : Bytes} {v : UInt64} :
    unsignedVarint.Reads u v ↔ Varint.decode u = .ok (v, u.length) := by
  rw [unsignedVarint_eq_decoding]
  exact reads_decoding_iff Varint.decode_local

theorem reads_varint_iff {u : Bytes} {v : Int64} :
    varint.Reads u v ↔ Varint.decodeSigned u = .ok (v, u.length) := by
  rw [varint_eq_decoding]
  exact reads_decoding_iff Varint.decodeSigned_local

theorem unsignedVarint_isLocal : unsignedVarint.Local := by
  rw [unsignedVarint_eq_decoding]
  exact decoding_isLocal Varint.decode_local

theorem varint_isLocal : varint.Local := by
  rw [varint_eq_decoding]
  exact decoding_isLocal Varint.decodeSigned_local

/-! ### Texts -/

theorem reads_contents (v : String) :
    (contents (Utf8.encode v).length).Reads (Utf8.encode v) v := by
  have hr := (reads_take (Utf8.encode v) "string").map Utf8.decodeLossy
  rwa [Utf8.decodeLossy_encode] at hr

theorem contents_isLocal (n : Nat) : (contents n).Local := (take_isLocal n "string").map _

/-- The length in front of a text of fewer than `2 ^ 63` bytes is not zero, and counts them. -/
theorem compactLength_counts {n : Nat} (h : n < 0x8000000000000000) :
    UInt64.ofNat (n + 1) ≠ 0 ∧ (UInt64.ofNat (n + 1)).toNat = n + 1 := by
  have counts : (UInt64.ofNat (n + 1)).toNat = n + 1 := by
    rw [UInt64.toNat_ofNat']
    omega
  refine ⟨fun zero => ?_, counts⟩
  rw [zero] at counts
  exact Nat.succ_ne_zero n counts.symm

theorem reads_compactString {v : String} (h : (Utf8.encode v).length < 0x8000000000000000) :
    compactString.Reads (Value.compactString v).bytes v := by
  obtain ⟨nonzero, counts⟩ := compactLength_counts h
  refine (reads_unsignedVarint _).bind ?_
  rw [if_neg nonzero, counts]
  exact reads_contents v

theorem reads_compactNullableString {v : Option String}
    (h : ∀ s, v = some s → (Utf8.encode s).length < 0x8000000000000000) :
    compactNullableString.Reads (Value.compactNullableString v).bytes v := by
  cases v with
  | none => exact (reads_unsignedVarint 0).bind (Reads.pure none)
  | some s =>
    obtain ⟨nonzero, counts⟩ := compactLength_counts (h s rfl)
    refine (reads_unsignedVarint _).bind ?_
    rw [if_neg nonzero, counts]
    exact (reads_contents s).map some

/-- The signed 16-bit length in front of a text that is not too long for it counts its bytes. -/
theorem shortLength_counts {n : Nat} (h : n ≤ Value.maxStringBytes) :
    ¬ Int16.ofNat n = -1 ∧ ¬ Int16.ofNat n < -1 ∧ (Int16.ofNat n).toInt = n := by
  have small : n ≤ 32767 := h
  have counts : (Int16.ofNat n).toInt = n := Int16.toInt_ofNat_of_lt (by omega)
  refine ⟨fun null => ?_, fun below => ?_, counts⟩
  · rw [null, show (-1 : Int16).toInt = -1 from rfl] at counts
    omega
  · rw [Int16.lt_iff_toInt_lt, counts, show (-1 : Int16).toInt = -1 from rfl] at below
    omega

theorem length_le_of_overlong?_eq_none {s : String}
    (h : (Value.string (some s)).overlong? = none) :
    (Utf8.encode s).length ≤ Value.maxStringBytes := by
  refine Nat.le_of_not_lt fun long => ?_
  rw [Value.overlong?, if_pos long] at h
  cases h

/-- Bytes are read as a text from behind a signed 16-bit length that can count them. -/
theorem reads_string_raw {raw : Bytes} (short : raw.length ≤ Value.maxStringBytes) :
    string.Reads (BigEndian.encode 2 raw.length ++ raw) (some (Utf8.decodeLossy raw)) := by
  obtain ⟨notNull, notBelow, counts⟩ := shortLength_counts short
  -- so short a length is the same sixteen bits, signed or not
  have length : BigEndian.encode 2 raw.length = (Value.int16 (Int16.ofNat raw.length)).bytes := by
    have small : raw.length % 2 ^ 16 = raw.length :=
      Nat.mod_eq_of_lt (Nat.lt_of_le_of_lt short (by decide))
    rw [Value.bytes, Int16.toUInt16_ofNat', UInt16.toNat_ofNat', small]
  rw [length]
  refine (reads_int16 _).bind ?_
  rw [if_neg notNull, if_neg notBelow, counts]
  exact ((reads_take raw "string").map Utf8.decodeLossy).map some

/-- A text is read back from behind a signed 16-bit length that can count its bytes. -/
theorem reads_string {v : Option String} (h : (Value.string v).overlong? = none) :
    string.Reads (Value.string v).bytes v := by
  cases v with
  | none => exact (reads_int16 (-1)).bind (Reads.pure none)
  | some s =>
    have back := reads_string_raw (length_le_of_overlong?_eq_none h)
    rwa [Utf8.decodeLossy_encode] at back

theorem compactString_isLocal : compactString.Local := by
  refine unsignedVarint_isLocal.bind fun length => ?_
  split
  · exact Local.throw _
  · exact contents_isLocal _

theorem compactNullableString_isLocal : compactNullableString.Local := by
  refine unsignedVarint_isLocal.bind fun length => ?_
  split
  · exact Local.pure none
  · exact (contents_isLocal _).map some

theorem string_isLocal : string.Local := by
  refine ((fixed_isLocal 2 "int16").map _).bind fun length => ?_
  split
  · exact Local.pure none
  · split
    · exact Local.throw _
    · exact (contents_isLocal _).map some

/-- A text that was read stood behind two bytes that can count it. -/
theorem some_of_reads_string {u : Bytes} {text : String} (h : string.Reads u (some text)) :
    ∃ length raw : Bytes, u = length ++ raw ∧ length.length = 2 ∧
      raw.length ≤ Value.maxStringBytes ∧ text = Utf8.decodeLossy raw := by
  have behindLength (n : Int16) : Local (if n = -1 then Pure.pure none
      else if n < -1 then throw (.invalidLength (.negativeString n))
      else some <$> contents n.toInt.toNat) := by
    split
    · exact .pure none
    · split
      · exact .throw _
      · exact (contents_isLocal _).map some
  have int16Local : int16.Local := (fixed_isLocal 2 "int16").map _
  obtain ⟨n, length, v, rfl, number, behind⟩ := int16Local.reads_of_bind behindLength h
  split at behind
  · cases (eq_of_reads_pure behind).1
  · split at behind
    · cases behind 0 []
    · obtain ⟨_, inside, same⟩ := (contents_isLocal _).reads_of_map behind
      obtain ⟨raw, taken, rfl⟩ := (take_isLocal _ _).reads_of_map inside
      obtain ⟨counts, rfl⟩ := eq_of_reads_take taken
      refine ⟨length, raw, rfl, length_of_reads_fixed number, ?_, (Option.some.inj same).symm⟩
      have bound := n.toInt_lt
      show raw.length ≤ 32767
      omega

/-! ### Other values -/

theorem reads_uuid (v : Uuid) : uuid.Reads v.toBytes v := by
  have hr := (reads_take v.toBytes "UUID").map Uuid.ofBytes
  rwa [Uuid.ofBytes_toBytes, Uuid.toBytes, BigEndian.length_encode] at hr

theorem reads_boolean (v : Bool) : boolean.Reads (Value.boolean v).bytes v := by
  cases v with
  | false => exact (reads_int8 0).bind (Reads.pure false)
  | true => exact (reads_int8 1).bind (Reads.pure true)

theorem reads_tagBuffer : tagBuffer.Reads (Varint.encode 0) 0 :=
  (reads_unsignedVarint 0).bind (Reads.pure 0)

theorem boolean_isLocal : boolean.Local := by
  refine ((fixed_isLocal 1 "int8").map _).bind fun v => ?_
  split
  · exact Local.pure false
  · split
    · exact Local.pure true
    · exact Local.throw _

theorem tagBuffer_isLocal : tagBuffer.Local := by
  refine unsignedVarint_isLocal.bind fun count => ?_
  split
  · exact Local.pure count
  · exact Local.throw _

end RawRead
end BrokerExam
