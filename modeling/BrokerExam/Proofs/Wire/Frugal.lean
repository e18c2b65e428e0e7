/-
BrokerExam/Proofs/Wire/Frugal.lean

What a run records and returns, against the bytes that it takes.  A length, a count
or a size that the bytes declare is no more than a promise: it is met one element
at a time, and each element takes a byte at least.

* Two fields are recorded for a byte at most, however the run ends.  One would not
  do, since behind a length of zero there is a field that takes no byte.
* For each byte that is taken one element can be returned.  What has been taken and
  nothing was returned for yet is the credit of what follows.

Main results: the closure of `FieldRead.Frugal` under what readers are made of, the
class `Codec.Frugal`, and `repeated_rounds`, that no count makes a loop go on for
longer than there are bytes.
-/
import BrokerExam.Proofs.Wire.Steady

namespace BrokerExam

variable {ν α β γ : Type}

/-! ### Elements -/

/-- How many elements the arrays in a value have, those within other elements among them. -/
class Elements (α : Type) where
  count : α → Nat

instance [Elements α] : Elements (List α) :=
  ⟨fun as => as.foldr (fun a others => Elements.count a + 1 + others) 0⟩

instance : Elements Int32 := ⟨fun _ => 0⟩

namespace Elements

theorem count_cons [Elements α] (a : α) (as : List α) :
    count (a :: as) = count a + 1 + count as := rfl

end Elements

/-! ### Accounts -/

/-- A run can lead from `s` to `s'` with no more than two new fields for each byte taken. -/
structure ReadState.Spends (s s' : ReadState ν) : Prop extends s.Follows s' where
  fields : s'.fields.size + 2 * s.cursor.offset ≤ s.fields.size + 2 * s'.cursor.offset

namespace ReadState.Spends

variable {s s₁ s₂ : ReadState ν}

theorem refl (s : ReadState ν) : s.Spends s := ⟨.refl s, Nat.le_refl _⟩

theorem trans (h₁ : s.Spends s₁) (h₂ : s₁.Spends s₂) : s.Spends s₂ where
  toFollows := h₁.toFollows.trans h₂.toFollows
  fields := by
    have first := h₁.fields
    have second := h₂.fields
    omega

end ReadState.Spends

/-- No field is read from no bytes at all. -/
def Kind.Hungry (kind : Kind α) : Prop :=
  ∀ used a, kind.read.Reads used a → 0 < used.length

theorem Kind.Plain.hungry {kind : Kind α} (plain : kind.Plain) : kind.Hungry :=
  fun _ _ => plain.used_pos

theorem Kind.hungry_string : string.Hungry := by
  intro used a reads
  refine List.length_pos_iff.2 ?_
  rintro rfl
  cases reads 0 []

theorem Kind.hungry_tagBuffer : tagBuffer.Hungry := by
  intro used a reads
  refine List.length_pos_iff.2 ?_
  rintro rfl
  cases reads 0 []

namespace FieldRead

/-- The run spends on fields what it may, and what it returns costs no more than the bytes that it
has taken and the credit that it was given. -/
structure Frugal (credit : Nat) (cost : α → Nat) (r : NotingRead ν α) : Prop where
  spends : ∀ s : ReadState ν, s.Spends (finalState (r s))
  pays : ∀ s a s', r s = .ok a s' → s.cursor.offset + cost a ≤ credit + s'.cursor.offset

/-- The run records one field at most. -/
structure Single (r : NotingRead ν α) : Prop where
  steady : Steady r
  one : ∀ s : ReadState ν, (finalState (r s)).fields.size ≤ s.fields.size + 1

namespace Single

variable {r : NotingRead ν α} {kind : Kind α}

theorem of_stay (stay : ∀ s, finalState (r s) = s) : Single r where
  steady := .of_stay stay
  one := by
    intro s
    rw [stay s]
    exact Nat.le_add_right _ _

theorem map (h : Single r) (g : α → β) : Single (g <$> r) where
  steady := h.steady.map g
  one := by
    intro s
    rw [finalState_map]
    exact h.one s

theorem anchored (primitive : kind.Primitive) (segment : String) :
    Single (anchored segment kind : NotingRead ν (α × Anchor)) where
  steady := .anchored primitive segment
  one := by
    intro s
    cases run : FieldRead.anchored segment kind s with
    | ok v s' =>
      obtain ⟨used, left, -, -, rfl⟩ := ok_of_anchored primitive.isLocal run
      exact Nat.le_of_eq Array.size_append
    | error e s' =>
      simp only [FieldRead.anchored] at run
      split at run
      · cases run
      · obtain ⟨-, rfl⟩ := EStateM.Result.error.inj run
        exact Nat.le_add_right _ _

end Single

namespace Frugal

variable {credit : Nat} {cost : α → Nat} {weight : β → Nat} {r : NotingRead ν α}
  {f : α → NotingRead ν β} {kind : Kind α}

/-! ### Sequences -/

/-- A reader that takes nothing has its credit only. -/
theorem of_stay (stay : ∀ s, finalState (r s) = s)
    (pays : ∀ s a s', r s = .ok a s' → cost a ≤ credit) : Frugal credit cost r where
  spends := by
    intro s
    rw [stay s]
    exact .refl s
  pays := by
    intro s a s' run
    have same := stay s
    rw [run] at same
    obtain rfl : s' = s := same
    rw [Nat.add_comm]
    exact Nat.add_le_add_right (pays s' a s' run) _

theorem pure {a : α} (paid : cost a ≤ credit) :
    Frugal credit cost (Pure.pure a : NotingRead ν α) := by
  refine of_stay (fun _ => rfl) fun s b s' run => ?_
  obtain ⟨rfl, -⟩ := EStateM.Result.ok.inj run
  exact paid

theorem throw (e : DecodeError) : Frugal credit cost (throw e : NotingRead ν α) :=
  of_stay (fun _ => rfl) fun _ _ _ run => nomatch run

theorem offset : Frugal 0 (fun _ => 0) (offset : NotingRead ν Nat) :=
  of_stay (fun _ => rfl) fun _ _ _ _ => Nat.le_refl 0

theorem remaining : Frugal 0 (fun _ => 0) (remaining : NotingRead ν Nat) :=
  of_stay (fun _ => rfl) fun _ _ _ _ => Nat.le_refl 0

theorem errorOverRemaining (cause : CodecError) :
    Frugal 0 (fun _ => 0) (errorOverRemaining cause : NotingRead ν DecodeError) :=
  of_stay (fun _ => rfl) fun _ _ _ _ => Nat.le_refl 0

theorem get : Frugal 0 (fun _ => 0) (MonadState.get : NotingRead ν (ReadState ν)) :=
  of_stay (fun _ => rfl) fun _ _ _ _ => Nat.le_refl 0

theorem lend (h : Frugal 0 cost r) (credit : Nat) : Frugal credit cost r where
  spends := h.spends
  pays := by
    intro s a s' run
    have paid := h.pays s a s' run
    omega

/-- What the first reader has taken is credit for the second. -/
theorem bind (hr : Frugal 0 cost r) (hf : ∀ a, Frugal (credit + cost a) weight (f a)) :
    Frugal credit weight (r >>= f) where
  spends := by
    intro s
    have first := hr.spends s
    cases run : r s with
    | ok a s₁ =>
      rw [run] at first
      rw [bind_of_ok run]
      exact first.trans ((hf a).spends s₁)
    | error e s₁ =>
      rw [run] at first
      rw [bind_of_error run]
      exact first
  pays := by
    intro s b s' run
    obtain ⟨a, s₁, first, second⟩ := ok_of_bind run
    have paid₁ := hr.pays s a s₁ first
    have paid₂ := (hf a).pays s₁ b s' second
    omega

theorem map (g : α → β) (h : Frugal credit (fun a => weight (g a)) r) :
    Frugal credit weight (g <$> r) where
  spends := by
    intro s
    rw [finalState_map]
    exact h.spends s
  pays := by
    intro s b s' run
    obtain ⟨a, first, rfl⟩ := ok_of_map run
    exact h.pays s a s' first

/-! ### Fields -/

/-- A hungry field moves on as it is read. -/
theorem forward_of_anchored (primitive : kind.Primitive) (hungry : kind.Hungry) {segment : String}
    {s s' : ReadState ν} {v : α × Anchor} (run : FieldRead.anchored segment kind s = .ok v s') :
    s.cursor.offset + 1 ≤ s'.cursor.offset := by
  obtain ⟨used, left, -, reads, rfl⟩ := ok_of_anchored primitive.isLocal run
  have some := hungry used v.1 reads
  show s.cursor.offset + 1 ≤ s.cursor.offset + (used.length + 0)
  omega

theorem anchored (primitive : kind.Primitive) (hungry : kind.Hungry) (segment : String) :
    Frugal 0 (fun _ => 1) (FieldRead.anchored segment kind : NotingRead ν (α × Anchor)) where
  spends := by
    intro s
    have follows := Steady.anchored primitive segment s
    refine ⟨follows, ?_⟩
    have size := (Single.anchored primitive segment).one s
    have forward := follows.forward
    cases run : FieldRead.anchored segment kind s with
    | ok v s' =>
      have moved := forward_of_anchored primitive hungry run
      rw [run] at size
      simp only [finalState] at size ⊢
      omega
    | error e s' =>
      rw [run] at forward
      simp only [FieldRead.anchored] at run
      split at run
      · cases run
      · obtain ⟨-, rfl⟩ := EStateM.Result.error.inj run
        exact Nat.add_le_add_left (Nat.mul_le_mul_left 2 forward) _
  pays := by
    intro s v s' run
    rw [Nat.zero_add]
    exact forward_of_anchored primitive hungry run

/-- A hungry field can pay for a second one, which may take no byte itself. -/
theorem anchored_bind {k : α × Anchor → NotingRead ν β} (primitive : kind.Primitive)
    (hungry : kind.Hungry) (segment : String) (hk : ∀ v, Single (k v)) :
    Frugal 0 (fun _ => 1) (FieldRead.anchored segment kind >>= k) where
  spends := by
    intro s
    have first := (anchored (ν := ν) primitive hungry segment).spends s
    have size := (Single.anchored primitive segment).one s
    cases run : FieldRead.anchored segment kind s with
    | ok v s₁ =>
      rw [run] at first size
      rw [bind_of_ok run]
      have moved := forward_of_anchored primitive hungry run
      have follows := (hk v).steady s₁
      refine ⟨first.toFollows.trans follows, ?_⟩
      have one := (hk v).one s₁
      have forward := follows.forward
      simp only [finalState] at size
      omega
    | error e s₁ =>
      rw [run] at first
      rw [bind_of_error run]
      exact first
  pays := by
    intro s b s' run
    obtain ⟨v, s₁, first, second⟩ := ok_of_bind run
    have moved := forward_of_anchored primitive hungry first
    have forward := ((hk v).steady s₁).forward
    rw [second] at forward
    rw [Nat.zero_add]
    exact Nat.le_trans moved forward

theorem field (primitive : kind.Primitive) (hungry : kind.Hungry) (segment : String) :
    Frugal 0 (fun _ => 1) (FieldRead.field segment kind : NotingRead ν α) :=
  map Prod.fst (anchored primitive hungry segment)

theorem plainAnchored (h : kind.Plain) (segment : String) :
    Frugal 0 (fun _ => 1) (FieldRead.anchored segment kind : NotingRead ν (α × Anchor)) :=
  anchored (.plain h) h.hungry segment

theorem plain (h : kind.Plain) (segment : String) :
    Frugal 0 (fun _ => 1) (FieldRead.field segment kind : NotingRead ν α) :=
  field (.plain h) h.hungry segment

theorem tagBuffer : Frugal 0 (fun _ => 1) (FieldRead.tagBuffer : NotingRead ν Unit) :=
  map (fun _ => ()) (field .tagBuffer Kind.hungry_tagBuffer tagBufferSegment)

/-! ### Scopes and bounds -/

theorem scope (h : Frugal credit cost r) (segment : String) :
    Frugal credit cost (FieldRead.scope segment r) where
  spends := by
    intro s
    have follows := Steady.scope (fun s => (h.spends s).toFollows) segment s
    have spent := (h.spends { s with path := s.path.child segment }).fields
    rw [finalState_scope] at follows ⊢
    exact ⟨follows, spent⟩
  pays := by
    intro s a s' run
    obtain ⟨s₁, body, rfl⟩ := ok_of_scope run
    exact h.pays { s with path := s.path.child segment } a s₁ body

theorem bounded (h : Frugal credit cost r) (length : Nat) :
    Frugal credit cost (FieldRead.bounded length r) where
  spends := by
    intro s
    have follows := Steady.bounded (fun s => (h.spends s).toFollows) length s
    have spent := (h.spends
      { s with cursor := s.cursor.confine (s.cursor.offset + length) }).fields
    rw [finalState_bounded] at follows ⊢
    exact ⟨follows, spent⟩
  pays := by
    intro s a s' run
    obtain ⟨s₁, body, rfl⟩ := ok_of_bounded run
    exact h.pays { s with cursor := s.cursor.confine (s.cursor.offset + length) } a s₁ body

/-! ### Arrays -/

section Arrays

variable [Elements α] {name : String}

/-- Each element pays for itself and for the elements within it. -/
theorem repeated {element : Nat → NotingRead ν α}
    (h : ∀ i, Frugal 0 (fun a => Elements.count a + 1) (element i)) (count i : Nat) :
    Frugal 0 Elements.count (FieldRead.repeated element count i) := by
  induction count generalizing i with
  | zero => exact pure (Nat.le_refl 0)
  | succ count ih =>
    refine (h i).bind fun a => bind (ih (i + 1)) fun as => pure ?_
    rw [Elements.count_cons]
    omega

variable {element : NotingRead ν α}

theorem untilEnd (h : Frugal 0 (fun a => Elements.count a + 1) element) (fuel i : Nat) :
    Frugal 0 Elements.count (FieldRead.untilEnd name element fuel i) := by
  induction fuel generalizing i with
  | zero => exact pure (Nat.le_refl 0)
  | succ fuel ih =>
    refine get.bind fun s => ?_
    split
    · exact pure (Nat.le_refl 0)
    · refine (h.scope (indexed name i)).bind fun a => bind (ih (i + 1)) fun as => pure ?_
      rw [Elements.count_cons]
      omega

theorem all (h : Frugal 0 (fun a => Elements.count a + 1) element) :
    Frugal 0 Elements.count (FieldRead.all name element) :=
  remaining.bind fun fuel => h.untilEnd fuel 0

theorem compactArray (h : Frugal 0 (fun a => Elements.count a + 1) element) :
    Frugal 0 Elements.count (FieldRead.compactArray name element) := by
  refine scope ((plain .compactArrayLength "Length").bind fun raw => ?_) name
  exact lend (repeated (fun i => h.scope (indexed name i)) _ 0) _

theorem compactInt32Array :
    Frugal 0 Elements.count (FieldRead.compactInt32Array name : NotingRead ν (List Int32)) := by
  refine scope ((plain .compactArrayLength "Length").bind fun raw => ?_) name
  exact lend (repeated (fun i => plain .int32 (indexed name i)) _ 0) _

theorem array (h : Frugal 0 (fun a => Elements.count a + 1) element) :
    Frugal 0 Elements.count (FieldRead.array name element) := by
  refine scope ((plainAnchored .int32 "Length").bind fun p => ?_) name
  show Frugal _ _ (if p.1 < -1 then _ else _)
  split
  · exact throw _
  · exact lend (repeated (fun i => h.scope (indexed name i)) _ 0) _

end Arrays
end Frugal

/-! ### Loops -/

/-- **No count is of more rounds than there are bytes, and one.**  Where each element takes a byte
at least, a loop that is to go on for longer than that does so in vain: it fails in the same way
whatever the count. -/
theorem repeated_rounds {element : Nat → NotingRead ν α}
    {cost : α → Nat} (h : ∀ i, Frugal 0 cost (element i)) (some : ∀ a, 0 < cost a)
    {rounds count i : Nat} {s : ReadState ν} (few : s.cursor.ahead.length < rounds)
    (many : rounds ≤ count) :
    repeated element count i s = repeated element rounds i s := by
  induction rounds generalizing count i s with
  | zero => exact absurd few (Nat.not_lt_zero _)
  | succ rounds ih =>
    obtain ⟨more, rfl⟩ := Nat.exists_eq_add_of_le' many
    rw [← Nat.add_assoc, repeated, repeated]
    cases run : element i s with
    | error e s' => rw [bind_of_error run, bind_of_error run]
    | ok a s' =>
      rw [bind_of_ok run, bind_of_ok run]
      have taken := (h i).pays s a s' run
      have one := some a
      have stop := ((h i).spends s).stop
      simp only [run, finalState, Cursor.stop] at stop
      have same := ih (i := i + 1) (s := s') (by omega) (Nat.le_add_left rounds more)
      show EStateM.bind _ _ s' = EStateM.bind _ _ s'
      rw [EStateM.bind, EStateM.bind, same]

end FieldRead

/-! ### Codecs -/

namespace Codec

/-- What the codec reads is frugal. -/
class Frugal (c : Codec α β) (cost : outParam (β → Nat)) : Prop where
  frugal : FieldRead.Frugal 0 cost c.read

instance {c : Codec α β} {cost : β → Nat} [h : c.Frugal cost] (part : γ → α) :
    (c.on part).Frugal cost := ⟨h.frugal⟩

/-- What one codec has taken is credit for those that follow. -/
theorem frugal_bind {c : Codec α β} {f : β → Codec α γ} {cost : β → Nat} {weight : γ → Nat}
    {credit : Nat} [h : c.Frugal cost]
    (hf : ∀ b, FieldRead.Frugal (credit + cost b) weight (f b).read) :
    FieldRead.Frugal credit weight (c >>= f).read := h.frugal.bind hf

/-- What has been taken so far pays for the value. -/
theorem frugal_pure {b : β} {cost : β → Nat} {credit : Nat} (paid : cost b ≤ credit) :
    FieldRead.Frugal credit cost (pure b : Codec α β).read := .pure paid

section Parts

variable (segment lengthSegment name : String) {element : Codec α β} {cost : β → Nat}

instance : (int8 segment).Frugal fun _ => 1 := ⟨.plain .int8 segment⟩
instance : (int16 segment).Frugal fun _ => 1 := ⟨.plain .int16 segment⟩
instance : (int32 segment).Frugal fun _ => 1 := ⟨.plain .int32 segment⟩
instance : (int64 segment).Frugal fun _ => 1 := ⟨.plain .int64 segment⟩
instance : (varint segment).Frugal fun _ => 1 := ⟨.plain .varint segment⟩
instance : (compactString segment).Frugal fun _ => 1 := ⟨.plain .compactString segment⟩
instance : (compactNullableString segment).Frugal fun _ => 1 :=
  ⟨.plain .compactNullableString segment⟩
instance : (string segment).Frugal fun _ => 1 := ⟨.field .string Kind.hungry_string segment⟩
instance : (uuid segment).Frugal fun _ => 1 := ⟨.plain .uuid segment⟩
instance : (boolean segment).Frugal fun _ => 1 := ⟨.plain .boolean segment⟩
instance : (tagBuffer : Codec α Unit).Frugal fun _ => 1 := ⟨.tagBuffer⟩

instance [h : element.Frugal cost] : (scope segment element).Frugal cost :=
  ⟨h.frugal.scope segment⟩

instance [Elements β] [h : element.Frugal fun b => Elements.count b + 1] :
    (compactArray name element).Frugal Elements.count := ⟨h.frugal.compactArray⟩

instance [Elements β] [h : element.Frugal fun b => Elements.count b + 1] :
    (array name element).Frugal Elements.count := ⟨h.frugal.array⟩

instance : (compactInt32Array name).Frugal Elements.count := ⟨.compactInt32Array⟩

/-- Of the two fields, only the length takes a byte for certain. -/
instance : (varintBytes lengthSegment segment).Frugal fun _ => 1 := by
  refine ⟨.anchored_bind (.plain .varint) Kind.Plain.varint.hungry lengthSegment fun p => ?_⟩
  show FieldRead.Single (if p.1 = -1 then _ else if p.1 < -1 then _ else _)
  split
  · exact .of_stay fun _ => rfl
  · split
    · exact .of_stay fun _ => rfl
    · exact ((FieldRead.Single.anchored (.rawBytes _) segment).map Prod.fst).map some

instance [Elements β] [h : element.Frugal fun b => Elements.count b + 1] :
    (varintArray lengthSegment name element).Frugal Elements.count := by
  refine ⟨(FieldRead.Frugal.plainAnchored .varint lengthSegment).bind fun p => ?_⟩
  show FieldRead.Frugal _ _ (if p.1 < -1 then _ else _)
  split
  · exact .throw _
  · exact .lend (.repeated (fun i => h.frugal.scope (indexed name i)) _ 0) _

instance [h : element.Frugal cost] : (sized segment element).Frugal fun b => cost b + 1 := by
  refine ⟨(FieldRead.Frugal.plainAnchored .varint segment).bind fun p => ?_⟩
  refine FieldRead.Frugal.offset.bind fun start => h.frugal.bind fun b => ?_
  refine FieldRead.Frugal.offset.bind fun stop => ?_
  dsimp only
  split
  · exact .pure (by omega)
  · exact .throw _

instance : (narrowVarint segment).Frugal fun _ => 1 := by
  refine ⟨(FieldRead.Frugal.plainAnchored .varint segment).bind fun p => ?_⟩
  show FieldRead.Frugal _ _ (if p.1.toInt32.toInt64 = p.1 then _ else _)
  split
  · exact .pure (Nat.le_refl 1)
  · exact .throw _

end Parts
end Codec

/-! ### Batches -/

instance : Elements RecordHeader := ⟨fun _ => 0⟩

instance : Elements Record := ⟨fun r => Elements.count r.headers⟩

instance : Elements RecordBatch := ⟨fun b => Elements.count b.records⟩

open Codec

instance : RecordHeader.codec.Frugal fun h => Elements.count h + 1 :=
  ⟨frugal_bind fun _ => frugal_bind fun _ => frugal_pure (Nat.le_succ 1)⟩

instance : Record.contents.Frugal Elements.count :=
  ⟨frugal_bind fun _ => frugal_bind fun _ => frugal_bind fun _ => frugal_bind fun _ =>
    frugal_bind fun _ => frugal_bind fun _ => frugal_pure (Nat.le_add_left _ _)⟩

instance : Record.codec.Frugal fun r => Elements.count r + 1 :=
  inferInstanceAs ((sized "Size" Record.contents).Frugal _)

namespace RecordBatch

instance : covered.Frugal Elements.count :=
  ⟨frugal_bind fun _ => frugal_bind fun _ => frugal_bind fun _ => frugal_bind fun _ =>
    frugal_bind fun _ => frugal_bind fun _ => frugal_bind fun _ => frugal_bind fun _ =>
    frugal_pure (Nat.le_add_left _ _)⟩

theorem frugal_readCounted (baseOffset : Int64) (batchLength : Int32) (anchor : Anchor) :
    FieldRead.Frugal 0 (fun b => Elements.count b + 1)
      (readCounted baseOffset batchLength anchor) := by
  refine FieldRead.Frugal.offset.bind fun start => ?_
  refine (FieldRead.Frugal.plain .int32 "PartitionLeaderEpoch").bind fun epoch => ?_
  refine (FieldRead.Frugal.plainAnchored .int8 "Magic").bind fun magic => ?_
  show FieldRead.Frugal _ _ (if magic.1 ≠ magicByte then _ else _)
  split
  · exact .throw _
  · refine (FieldRead.Frugal.plainAnchored .uint32 "CRC").bind fun crc => ?_
    refine FieldRead.Frugal.get.bind fun before => ?_
    refine (Frugal.frugal (c := covered)).bind fun b => ?_
    refine FieldRead.Frugal.offset.bind fun stop => ?_
    show FieldRead.Frugal _ _
      (if batchLength.toInt ≠ _ then _ else if crc32c _ ≠ crc.1 then _ else _)
    split
    · exact .throw _
    · split
      · exact .throw _
      · refine .pure ?_
        show Elements.count b + 1 ≤ _
        omega

theorem frugal_read : FieldRead.Frugal 0 (fun b => Elements.count b + 1) read := by
  refine (FieldRead.Frugal.plain .int64 "BaseOffset").bind fun baseOffset => ?_
  refine (FieldRead.Frugal.plainAnchored .int32 "BatchLength").bind fun length => ?_
  show FieldRead.Frugal _ _ (if length.1 ≤ 0 then _ else _)
  split
  · exact .throw _
  · exact (frugal_readCounted baseOffset length.1 length.2).lend _

end RecordBatch

/-! ### Streams -/

namespace FieldRead

theorem frugal_batchesIn (name : String) (size : Nat) (anchor : Anchor) :
    Frugal 0 Elements.count (batchesIn name size anchor) := by
  refine Frugal.remaining.bind fun remaining => ?_
  split
  · exact .throw _
  · refine Frugal.offset.bind fun start => ?_
    refine (RecordBatch.frugal_read.all.bounded size).bind fun batches => ?_
    refine Frugal.offset.bind fun stop => ?_
    dsimp only
    split
    · exact .throw _
    · exact .pure (by omega)

theorem frugal_batchStream (name : String) : Frugal 0 Elements.count (batchStream name) := by
  refine Frugal.scope ?_ name
  refine (Frugal.plainAnchored .compactRecordSize "Size").bind fun size => ?_
  show Frugal _ _ (if size.1 ≤ 1 then _ else _)
  split
  · exact .pure (Nat.zero_le _)
  · exact (frugal_batchesIn name _ size.2).lend _

end FieldRead

instance (name : String) : (Codec.batchStream name).Frugal Elements.count :=
  ⟨FieldRead.frugal_batchStream name⟩

theorem frugal_readLog : FieldRead.Frugal 0 Elements.count readLog :=
  RecordBatch.frugal_read.all.scope "RecordBatches"

end BrokerExam
