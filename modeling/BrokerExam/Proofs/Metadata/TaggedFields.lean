/-
BrokerExam/Proofs/Metadata/TaggedFields.lean

The tagged fields of the record that begins a transaction.  Each of them is a tag,
a size and a value.  The value of a field that is not known is as many bytes as its
size declares (`TaggedField.Sized`).  Under tag zero stands the name, a text that
tells by itself where it ends (`TaggedField.Names`): of its size no use is made.

What is written is sized throughout, but what is read need not be.

Main results: `reads_tags_iff`, `tagged_inStep` and `not_tagged_sized`.
-/
import BrokerExam.Proofs.Metadata.Payload
import BrokerExam.Proofs.Metadata.Reading
import BrokerExam.Proofs.Wire.Spelling

namespace BrokerExam

open RawRead

/-! ### Tagged fields -/

/-- A tagged field as it stands in a record. -/
structure TaggedField where
  tag : UInt64
  size : UInt64
  tagSpelling : Kind.unsignedVarint.Spelling tag
  sizeSpelling : Kind.unsignedVarint.Spelling size
  value : Bytes

namespace TaggedField

def bytes (f : TaggedField) : Bytes := f.tagSpelling.1 ++ (f.sizeSpelling.1 ++ f.value)

/-- The value is as many bytes as the size declares. -/
def Sized (f : TaggedField) : Prop := f.value.length = f.size.toNat

/-- The value is the name behind its length, which counts one more than the bytes of it. -/
def Names (f : TaggedField) (name : String) : Prop :=
  ∃ (n : UInt64) (length : Kind.unsignedVarint.Spelling n) (contents : Bytes),
    f.value = length.1 ++ contents ∧ n.toNat = contents.length + 1 ∧
      Utf8.decodeLossy contents = name

/-- What a field leaves of the name that was given before it: a name takes its place. -/
inductive Leaves (f : TaggedField) : Option String → Option String → Prop
  | name {given : Option String} {name : String} (tag : f.tag = 0) (names : f.Names name) :
    Leaves f given (some name)
  | other {given : Option String} (tag : f.tag ≠ 0) (sized : f.Sized) : Leaves f given given

/-- What the fields leave, one after the other. -/
inductive Leave : List TaggedField → Option String → Option String → Prop
  | nil (given : Option String) : Leave [] given given
  | cons {f : TaggedField} {fs : List TaggedField} {given between last : Option String}
    (first : f.Leaves given between) (rest : Leave fs between last) : Leave (f :: fs) given last

/-- A field is sized, unless it holds the name. -/
theorem Leave.sized_or_names {fs : List TaggedField} {given last : Option String}
    (h : Leave fs given last) {f : TaggedField} (hf : f ∈ fs) :
    f.Sized ∨ f.tag = 0 ∧ ∃ name, f.Names name := by
  induction h with
  | nil => cases hf
  | cons first _ ih =>
    rcases List.mem_cons.1 hf with rfl | hf
    · cases first with
      | name tag names => exact .inr ⟨tag, _, names⟩
      | other _ sized => exact .inl sized
    · exact ih hf

end TaggedField

/-! ### Reading the fields -/

namespace MetadataRecord

open TaggedField

/-- **One field** is read from its tag, its size and its value. -/
theorem reads_field_iff {given last : Option String} {u : Bytes} :
    (readField given).Reads u last ↔ ∃ f : TaggedField, u = f.bytes ∧ f.Leaves given last := by
  constructor
  · intro h
    obtain ⟨tag, tagBytes, _, rfl, tagRead, h⟩ := unsignedVarint_isLocal.reads_of_bind
      (fun _ => unsignedVarint_isLocal.bind fun _ => readValue_isLocal _ _ _) h
    obtain ⟨size, sizeBytes, value, rfl, sizeRead, h⟩ := unsignedVarint_isLocal.reads_of_bind
      (fun _ => readValue_isLocal _ _ _) h
    refine ⟨⟨tag, size, ⟨tagBytes, tagRead⟩, ⟨sizeBytes, sizeRead⟩, value⟩, rfl, ?_⟩
    rw [readValue] at h
    split at h
    · next zero =>
      obtain ⟨name, text, rfl⟩ := compactString_isLocal.reads_of_map h
      exact .name zero (reads_compactString_iff.1 text)
    · next other =>
      obtain ⟨bs, taken, rfl⟩ := (take_isLocal _ _).reads_of_map h
      exact .other other (eq_of_reads_take taken).1
  · rintro ⟨f, rfl, leaves⟩
    refine Reads.bind f.tagSpelling.2 (Reads.bind f.sizeSpelling.2 ?_)
    cases leaves with
    | name zero names =>
      rw [readValue, if_pos zero]
      exact (reads_compactString_iff.2 names).map some
    | other other sized =>
      rw [readValue, if_neg other, ← sized]
      exact (reads_take f.value "raw bytes").map _

/-- **The fields** are read one after the other. -/
theorem reads_tags_iff {count : Nat} {given last : Option String} {u : Bytes} :
    (readTags count given).Reads u last ↔ ∃ fields : List TaggedField,
      u = fields.flatMap TaggedField.bytes ∧ fields.length = count ∧ Leave fields given last := by
  constructor
  · intro h
    induction count generalizing given u with
    | zero =>
      obtain ⟨rfl, rfl⟩ := eq_of_reads_pure h
      exact ⟨[], rfl, rfl, .nil given⟩
    | succ count ih =>
      rw [readTags_succ] at h
      obtain ⟨between, front, back, rfl, first, rest⟩ :=
        (readField_isLocal given).reads_of_bind (readTags_isLocal count) h
      obtain ⟨f, rfl, leaves⟩ := reads_field_iff.1 first
      obtain ⟨fields, rfl, rfl, leave⟩ := ih rest
      exact ⟨f :: fields, rfl, rfl, .cons leaves leave⟩
  · rintro ⟨fields, rfl, rfl, leave⟩
    induction leave with
    | nil given => exact .pure given
    | @cons f fs given between last first _ ih =>
      rw [List.length_cons, readTags_succ]
      exact Reads.bind (reads_field_iff.2 ⟨f, rfl, first⟩) ih

end MetadataRecord

/-! ### Records that begin a transaction -/

/-- A record that begins a transaction, with its tagged fields behind their number. -/
def TaggedField.record (frameVersion version : Int8) {n : UInt64}
    (count : Kind.unsignedVarint.Spelling n) (fields : List TaggedField) : Bytes :=
  frameVersion.toUInt8 :: 23 :: version.toUInt8 :: (count.1 ++ fields.flatMap TaggedField.bytes)

open TaggedField MetadataRecord

/-- What is read for the type is the number of the fields, and the fields. -/
theorem MetadataRecord.reads_beginTransaction_iff {u : Bytes} {name : Option String} :
    (read 23).Reads u (beginTransaction name) ↔
      ∃ (n : UInt64) (count : Kind.unsignedVarint.Spelling n) (fields : List TaggedField),
        u = count.1 ++ fields.flatMap TaggedField.bytes ∧ fields.length = n.toNat ∧
          Leave fields none name := by
  have row : read 23 = RawRead.unsignedVarint >>= fun count =>
      beginTransaction <$> readTags count.toNat none := by
    simp only [map_eq_pure_bind]
    rfl
  rw [row]
  constructor
  · intro h
    obtain ⟨n, countBytes, _, rfl, count, h⟩ :=
      unsignedVarint_isLocal.reads_of_bind (fun n => (readTags_isLocal _ _).map _) h
    obtain ⟨last, tags, same⟩ := (readTags_isLocal _ _).reads_of_map h
    obtain rfl := beginTransaction.inj same
    obtain ⟨fields, rfl, length, leave⟩ := reads_tags_iff.1 tags
    exact ⟨n, ⟨countBytes, count⟩, fields, rfl, length, leave⟩
  · rintro ⟨n, count, fields, rfl, length, leave⟩
    have tags := reads_tags_iff.2 ⟨fields, rfl, length, leave⟩
    exact Reads.bind count.2 (tags.map beginTransaction)

theorem MetadataPayload.decode_beginTransaction_iff {bs : Bytes} {frameVersion version : Int8}
    {name : Option String} :
    decode bs = .ok ⟨frameVersion, version, .beginTransaction name⟩ ↔
      ∃ (n : UInt64) (count : Kind.unsignedVarint.Spelling n) (fields : List TaggedField),
        bs = record frameVersion version count fields ∧ fields.length = n.toNat ∧
          Leave fields none name := by
  rw [decode_eq_ok_iff, reads_contents_iff]
  constructor
  · rintro ⟨v, rfl, reads⟩
    obtain ⟨n, count, fields, rfl, rest⟩ := reads_beginTransaction_iff.1 reads
    exact ⟨n, count, fields, rfl, rest⟩
  · rintro ⟨n, count, fields, rfl, rest⟩
    exact ⟨_, rfl, reads_beginTransaction_iff.2 ⟨n, count, fields, rfl, rest⟩⟩

/-! ### Sizes -/

/-- The fields that are written: at most the one with the name. -/
def TaggedField.written : Option String → List TaggedField
  | none => []
  | some name => [{
      tag := 0
      size := UInt64.ofNat (Value.compactBytes name).length
      tagSpelling := .shortest 0
      sizeSpelling := .shortest _
      value := Value.compactBytes name }]

theorem TaggedField.encode_eq_record (frameVersion version : Int8) (name : Option String) :
    MetadataPayload.encode ⟨frameVersion, version, .beginTransaction name⟩ =
      record frameVersion version (.shortest (UInt64.ofNat (written name).length))
        (written name) := by
  have int8 (n : Int8) : (Value.int8 n).bytes = [n.toUInt8] :=
    reads_int8_iff.1 (reads_int8 n)
  rw [MetadataPayload.encode_eq, int8, int8, int8]
  cases name with
  | none => rfl
  | some name =>
    simp only [values, List.flatMap_cons, List.flatMap_nil, record, written, TaggedField.bytes,
      Kind.Spelling.shortest, Value.bytes, List.append_nil, List.cons_append, List.nil_append]
    rfl

/-- **What is written is sized.** -/
theorem TaggedField.sized_written {name : Option String}
    (short : ∀ s, name = some s → (Value.compactBytes s).length < 0x8000000000000000) :
    ∀ f ∈ written name, f.Sized := by
  cases name with
  | none => exact fun f hf => absurd hf List.not_mem_nil
  | some name =>
    intro f hf
    obtain rfl := List.mem_singleton.1 hf
    have fits := Nat.lt_trans (short name rfl) (by decide : 0x8000000000000000 < 2 ^ 64)
    exact (UInt64.toNat_ofNat_of_lt' fits).symm

/-- **Tagged fields are in step with their sizes**, but for names.  A record that begins a
transaction is accepted exactly if its bytes are the number of its tagged fields and that many
fields, of which each is as long as its size declares, unless it holds the name, which is as long as
it says itself.  What is written for a name of fewer than `2 ^ 63` bytes is sized throughout. -/
theorem tagged_inStep (bs : Bytes) (frameVersion version : Int8) (name : Option String) :
    (MetadataPayload.decode bs = .ok ⟨frameVersion, version, .beginTransaction name⟩ ↔
      ∃ (n : UInt64) (count : Kind.unsignedVarint.Spelling n) (fields : List TaggedField),
        bs = record frameVersion version count fields ∧ fields.length = n.toNat ∧
          Leave fields none name ∧ ∀ f ∈ fields, f.Sized ∨ f.tag = 0 ∧ ∃ name, f.Names name) ∧
    MetadataPayload.encode ⟨frameVersion, version, .beginTransaction name⟩ =
      record frameVersion version (.shortest (UInt64.ofNat (written name).length)) (written name) ∧
    ((∀ s, name = some s → (Value.compactBytes s).length < 0x8000000000000000) →
      ∀ f ∈ written name, f.Sized) := by
  refine ⟨?_, encode_eq_record frameVersion version name, sized_written⟩
  rw [MetadataPayload.decode_beginTransaction_iff]
  constructor
  · rintro ⟨n, count, fields, bytes, length, leave⟩
    exact ⟨n, count, fields, bytes, length, leave, fun f hf => leave.sized_or_names hf⟩
  · rintro ⟨n, count, fields, bytes, length, leave, -⟩
    exact ⟨n, count, fields, bytes, length, leave⟩

/-- A field that is not known, of three bytes. -/
def sampleUnknown : TaggedField := ⟨5, 3, .shortest 5, .shortest 3, [1, 2, 3]⟩

/-- The name `a`, of two bytes, that is said to be of five. -/
def sampleName : TaggedField := ⟨0, 5, .shortest 0, .shortest 5, [2, 97]⟩

theorem names_sampleName : sampleName.Names "a" :=
  ⟨2, .shortest 2, [97], rfl, rfl, by decide +kernel⟩

/-- The condition of `tagged_inStep` holds of a name, and a record is read with a field that is not
known and a name that is not of its size. -/
theorem tagged_inStep_sample :
    MetadataPayload.decode (record 1 0 (.shortest 2) [sampleUnknown, sampleName]) =
      .ok ⟨1, 0, .beginTransaction (some "a")⟩ ∧
    (∀ s, some "a" = some s → (Value.compactBytes s).length < 0x8000000000000000) ∧
    ∀ f ∈ written (some "a"), f.Sized := by
  have short : ∀ s, some "a" = some s → (Value.compactBytes s).length < 0x8000000000000000 := by
    rintro s same
    obtain rfl := Option.some.inj same
    decide +kernel
  obtain ⟨accepted, -, sized⟩ := tagged_inStep
    (record 1 0 (.shortest 2) [sampleUnknown, sampleName]) 1 0 (some "a")
  have leave : Leave [sampleUnknown, sampleName] none (some "a") :=
    .cons (.other (by decide) rfl) (.cons (.name rfl names_sampleName) (.nil _))
  exact ⟨accepted.2 ⟨2, .shortest 2, _, rfl, rfl, leave, fun f hf => leave.sized_or_names hf⟩,
    short, sized short⟩

/-- **A record is accepted though its name is not of the size declared.** -/
theorem not_tagged_sized : ¬ ∀ (bs : Bytes) (frameVersion version : Int8) (name : Option String),
    MetadataPayload.decode bs = .ok ⟨frameVersion, version, .beginTransaction name⟩ →
      ∃ (n : UInt64) (count : Kind.unsignedVarint.Spelling n) (fields : List TaggedField),
        bs = record frameVersion version count fields ∧ fields.length = n.toNat ∧
          ∀ f ∈ fields, f.Sized := by
  intro sized
  have accepted : MetadataPayload.decode (record 1 0 (.shortest 1) [sampleName]) =
      .ok ⟨1, 0, .beginTransaction (some "a")⟩ :=
    MetadataPayload.decode_beginTransaction_iff.2
      ⟨1, .shortest 1, _, rfl, rfl, .cons (.name rfl names_sampleName) (.nil _)⟩
  obtain ⟨n, count, fields, same, length, all⟩ := sized _ _ _ _ accepted
  simp only [record, List.cons.injEq, true_and] at same
  have ahead : (Kind.Spelling.shortest 1).1 ++ [sampleName].flatMap TaggedField.bytes =
      [1, 0, 5, 2, 97] := by decide +kernel
  -- the bytes have no other fields
  obtain ⟨rfl, behindCount⟩ := count.of_small (b := 1) (by decide) (same.symm.trans ahead)
  obtain ⟨f, rfl⟩ := List.length_eq_one_iff.1 length
  rw [List.flatMap_cons, List.flatMap_nil, List.append_nil, TaggedField.bytes] at behindCount
  obtain ⟨-, behindTag⟩ := f.tagSpelling.of_small (b := 0) (by decide) behindCount
  obtain ⟨size, value⟩ := f.sizeSpelling.of_small (b := 5) (by decide) behindTag
  have wrong : f.value.length = f.size.toNat := all f List.mem_cons_self
  rw [value, size] at wrong
  exact absurd wrong (by decide)

end BrokerExam
