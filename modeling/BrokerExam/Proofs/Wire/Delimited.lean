/-
BrokerExam/Proofs/Wire/Delimited.lean

Field readers of bytes that end too early.  A reader is delimited
(`FieldRead.Delimited`) if it takes some bytes whatever follows them, and fails on
every part of these bytes that it meets instead (`FieldRead.Misses`): the error
tells of an end that came early, and lies in sight (`DecodeError.ShortWithin`).

The bytes of a sequence are cut in its first part or in its second, and the run
on cut bytes is the run on all of them up to the part in which they are cut.  Only
a stream of batches needs an argument of its own: its batches never meet the cut,
since the size in front of them is compared with the bytes there are.

Main result: the class `Codec.Delimited`, which is found by instances along a
codec.
-/
import BrokerExam.Proofs.Batch.Stream
import BrokerExam.Proofs.Wire.CutRead

namespace BrokerExam

variable {α β γ : Type}

/-- The error tells of an end that came early, and lies between the offsets. -/
structure DecodeError.ShortWithin (e : DecodeError) (start stop : Nat) : Prop where
  early : e.cause.EndedEarly
  lower : start ≤ e.start
  forward : e.start ≤ e.stop
  upper : e.stop ≤ stop

theorem DecodeError.ShortWithin.widen {e : DecodeError} {start start' stop stop' : Nat}
    (h : e.ShortWithin start' stop') (lower : start ≤ start') (upper : stop' ≤ stop) :
    e.ShortWithin start stop :=
  ⟨h.early, Nat.le_trans lower h.lower, h.forward, Nat.le_trans h.upper upper⟩

namespace FieldRead

/-- In front of a part of the bytes the reader fails for want of the others. -/
def Misses (r : FieldRead α) (used : Bytes) : Prop :=
  ∀ s : ReadState Unit, IsCut s.cursor.ahead used →
    ∃ e s', r s = .error e s' ∧ e.ShortWithin s.cursor.offset s.cursor.stop

/-- As `Misses`, of a reader right behind an anchor, which the error may be blamed on. -/
def MissesBehind (anchor : Anchor) (r : FieldRead α) (used : Bytes) : Prop :=
  anchor.start ≤ anchor.stop → ∀ s : ReadState Unit, s.cursor.offset = anchor.stop →
    IsCut s.cursor.ahead used →
    ∃ e s', r s = .error e s' ∧ e.ShortWithin anchor.start s.cursor.stop

/-- The reader finds out from the bytes alone where they end. -/
structure Delimited (r : FieldRead α) : Prop where
  isLocal : Local r
  misses : ∀ {used : Bytes} {t : Trace} {a : α}, Reads r used t a → Misses r used

variable {r : FieldRead α} {f : α → FieldRead β}

/-! ### The parts of what is read -/

/-- What is read when nothing is left over is all that there was. -/
theorem Local.reads_of_run (h : Local r) {s s' : ReadState Unit} {a : α} (run : r s = .ok a s')
    (whole : s'.cursor.ahead = []) : ∃ t, Reads r s.cursor.ahead t a := by
  obtain ⟨used, left, t, ahead, reads⟩ := h s a s' run
  obtain ⟨-, rfl⟩ := (reads left).eq_past ahead run
  obtain rfl : left = [] := whole
  refine ⟨t, ?_⟩
  rw [ahead, List.append_nil]
  exact reads

theorem Local.reads_of_bind (hr : Local r) (hf : ∀ a, Local (f a)) {used : Bytes} {t : Trace}
    {b : β} (h : Reads (r >>= f) used t b) :
    ∃ a u v t₁ t₂, used = u ++ v ∧ Reads r u t₁ a ∧ Reads (f a) v t₂ b := by
  obtain ⟨a, s₁, first, second⟩ := ok_of_bind (h.run_start ())
  obtain ⟨u, v, t₁, ahead, reads⟩ := hr _ a s₁ first
  obtain ⟨-, rfl⟩ := (reads v).eq_past ahead first
  obtain ⟨t₂, behind⟩ := (hf a).reads_of_run second rfl
  exact ⟨a, u, v, t₁, t₂, ahead, reads, behind⟩

theorem Local.reads_of_map (hr : Local r) {g : α → β} {used : Bytes} {t : Trace} {b : β}
    (h : Reads (g <$> r) used t b) : ∃ a t', g a = b ∧ Reads r used t' a := by
  obtain ⟨a, first, same⟩ := ok_of_map (h.run_start ())
  obtain ⟨t', reads⟩ := hr.reads_of_run first rfl
  exact ⟨a, t', same, reads⟩

/-- Where nothing is read there is nothing. -/
theorem reads_of_pure {a b : α} {used : Bytes} {t : Trace}
    (h : Reads (pure a : FieldRead α) used t b) : used = [] ∧ a = b := by
  obtain ⟨value, same⟩ := EStateM.Result.ok.inj (h.run_start ())
  exact ⟨congrArg (fun s : ReadState Unit => s.cursor.ahead) same, value⟩

theorem reads_of_field {segment : String} {kind : Kind α} (h : kind.read.Local) {used : Bytes}
    {t : Trace} {a : α} (reads : Reads (field segment kind : FieldRead α) used t a) :
    kind.read.Reads used a := by
  obtain ⟨u, left, ahead, value, same⟩ := ok_of_field h (reads.run_start ())
  have none : [] = left := congrArg (fun s : ReadState Unit => s.cursor.ahead) same
  have ahead : used = u := by
    rw [← none, List.append_nil] at ahead
    exact ahead
  exact ahead ▸ value

theorem Local.reads_of_scope (hr : Local r) {segment : String} {used : Bytes} {t : Trace} {a : α}
    (h : Reads (FieldRead.scope segment r) used t a) : ∃ t', Reads r used t' a := by
  obtain ⟨s₁, body, left⟩ := ok_of_scope (h.run_start ())
  have whole : [] = s₁.cursor.ahead := congrArg (fun s : ReadState Unit => s.cursor.ahead) left
  exact hr.reads_of_run body whole.symm

/-- The bytes behind a field are read the same way whatever the anchor. -/
theorem reads_of_anchored_bind {segment : String} {kind : Kind α} {k : α × Anchor → FieldRead β}
    (h : kind.read.Local) (hk : ∀ v, LocalFamily fun anchor => k (v, anchor)) {used : Bytes}
    {t : Trace} {b : β} (reads : Reads (anchored segment kind >>= k) used t b) :
    ∃ a u v t', used = u ++ v ∧ kind.read.Reads u a ∧
      ∀ anchor, Reads (k (a, anchor)) v t' b := by
  obtain ⟨⟨a, anchor⟩, s₁, first, second⟩ := ok_of_bind (reads.run_start ())
  obtain ⟨u, v, ahead, value, rfl⟩ := ok_of_anchored h first
  obtain ⟨v', left, t', split, behind⟩ := hk a anchor _ b _ second
  -- the run has come to the end of the bytes, so that none is left over
  obtain ⟨-, same⟩ := (behind anchor left).eq_past split second
  have none : [] = left := congrArg (fun s : ReadState Unit => s.cursor.ahead) same
  have split : v = v' := by
    rw [← none, List.append_nil] at split
    exact split
  exact ⟨a, u, v, t', ahead, value, split ▸ behind⟩

/-! ### Cut bytes -/

theorem Misses.bind_left {u : Bytes} (first : Misses r u) : Misses (r >>= f) u := by
  intro s cut
  obtain ⟨e, s', run, short⟩ := first s cut
  exact ⟨e, s', bind_of_error run, short⟩

theorem Misses.bind {u v : Bytes} {t : Trace} {a : α} (first : Misses r u) (reads : Reads r u t a)
    (second : Misses (f a) v) : Misses (r >>= f) (u ++ v) := by
  intro s cut
  rcases cut.of_append with cut | ⟨front, ahead, cut⟩
  · -- cut in the first part
    exact first.bind_left s cut
  · -- the first part is all there
    obtain ⟨e, s', run, short⟩ := second (s.past t front) cut
    refine ⟨e, s', ?_, ?_⟩
    · rw [bind_of_ok ((reads front).run s ahead), run]
    · apply short.widen
      · exact Nat.le_add_right _ _
      · apply Nat.le_of_eq
        rw [Cursor.stop, Cursor.stop, ReadState.past_offset, ReadState.past_ahead, ahead,
          (reads front).width, List.length_append, Nat.add_assoc]

theorem Misses.map {used : Bytes} (h : Misses r used) (g : α → β) : Misses (g <$> r) used := by
  intro s cut
  obtain ⟨e, s', run, short⟩ := h s cut
  exact ⟨e, s', map_of_error run, short⟩

theorem Misses.scope {used : Bytes} (segment : String) (h : Misses r used) :
    Misses (FieldRead.scope segment r) used := by
  intro s cut
  obtain ⟨e, s', run, short⟩ := h { s with path := s.path.child segment } cut
  exact ⟨e, _, scope_of_error run, short⟩

/-- Every run of a reader right behind an anchor is a run of it. -/
theorem Misses.behind {used : Bytes} (h : Misses r used) (anchor : Anchor) :
    MissesBehind anchor r used := by
  intro forward s here cut
  obtain ⟨e, s', run, short⟩ := h s cut
  exact ⟨e, s', run, short.widen (here ▸ forward) (Nat.le_refl _)⟩

section Anchored

variable {segment : String} {kind : Kind α} {u v : Bytes} {a : α}

/-- A field that is cut is blamed on what is left of it. -/
theorem misses_anchored (primitive : kind.Primitive) (value : kind.read.Reads u a) :
    Misses (anchored segment kind) u := by
  intro s cut
  obtain ⟨cause, c, run, early⟩ := primitive.delimited.cut value s.cursor cut
  obtain ⟨forward, far⟩ := primitive.failsInSight s.cursor cause c run
  obtain ⟨first, last, -⟩ := blameStop_inSight forward cause
  refine ⟨⟨s.path.child segment, s.cursor.offset, blameStop s.cursor.offset c cause, cause⟩,
    { s with cursor := c }, ?_, ?_⟩
  · simp only [anchored, run]
  · exact ⟨early, Nat.le_refl _, first, far ▸ last⟩

theorem misses_anchored_bind {k : α × Anchor → FieldRead β} (primitive : kind.Primitive)
    (value : kind.read.Reads u a) (hk : ∀ anchor, MissesBehind anchor (k (a, anchor)) v) :
    Misses (anchored segment kind >>= k) (u ++ v) := by
  intro s cut
  rcases cut.of_append with cut | ⟨front, ahead, cut⟩
  · -- cut in the field
    exact (misses_anchored primitive value).bind_left s cut
  · -- the field is all there, and its anchor leads up to what is cut
    have field := run_anchored segment value ahead
    obtain ⟨e, s', run, short⟩ := hk ⟨s.path.child segment, s.cursor.offset,
      s.cursor.offset + u.length⟩ (Nat.le_add_right _ _)
      (s.past [⟨[segment], kind.value a, u.length⟩] front) rfl cut
    refine ⟨e, s', ?_, ?_⟩
    · rw [bind_of_ok field, run]
    · apply short.widen (Nat.le_refl _)
      apply Nat.le_of_eq
      rw [Cursor.stop, Cursor.stop, ReadState.past_offset, ReadState.past_ahead, ahead,
        Trace.width_cons, Trace.width_nil, List.length_append, Nat.add_zero, Nat.add_assoc]

end Anchored

/-! ### Delimited readers -/

namespace Delimited

theorem pure (a : α) : Delimited (Pure.pure a) where
  isLocal := Local.pure a
  misses := by
    intro used t b reads s cut
    exact absurd ((reads_of_pure reads).1 ▸ cut) IsCut.not_nil

/-- What fails takes nothing. -/
theorem throw (e : DecodeError) : Delimited (throw e : FieldRead α) where
  isLocal := (LocalFamily.throw fun _ : Unit => e).isLocal ()
  misses := by
    intro used t a reads
    cases reads.run_start ()

theorem bind (hr : Delimited r) (hf : ∀ a, Delimited (f a)) : Delimited (r >>= f) where
  isLocal := hr.isLocal.bind fun a => (hf a).isLocal
  misses := by
    intro used t b reads
    obtain ⟨a, u, v, t₁, t₂, rfl, first, second⟩ :=
      hr.isLocal.reads_of_bind (fun a => (hf a).isLocal) reads
    exact (hr.misses first).bind first ((hf a).misses second)

theorem map (hr : Delimited r) (g : α → β) : Delimited (g <$> r) where
  isLocal := hr.isLocal.map g
  misses := by
    intro used t b reads
    obtain ⟨a, t', -, reads⟩ := hr.isLocal.reads_of_map reads
    exact (hr.misses reads).map g

theorem scope (segment : String) (hr : Delimited r) : Delimited (FieldRead.scope segment r) where
  isLocal := hr.isLocal.scope segment
  misses := by
    intro used t a reads
    obtain ⟨t', reads⟩ := hr.isLocal.reads_of_scope reads
    exact (hr.misses reads).scope segment

section Anchored

variable {kind : Kind α} {k : α × Anchor → FieldRead β}

/-- A field, and what follows it whatever its anchor. -/
theorem anchored_bind (primitive : kind.Primitive) (segment : String)
    (family : ∀ v, LocalFamily fun anchor => k (v, anchor))
    (hk : ∀ v anchor, ∀ {used : Bytes} {t : Trace} {b : β}, Reads (k (v, anchor)) used t b →
      MissesBehind anchor (k (v, anchor)) used) : Delimited (anchored segment kind >>= k) where
  isLocal := Local.anchored_bind segment primitive.isLocal family
  misses := by
    intro used t b reads
    obtain ⟨a, u, v, t', rfl, value, behind⟩ :=
      reads_of_anchored_bind primitive.isLocal family reads
    exact misses_anchored_bind primitive value fun anchor => hk a anchor (behind anchor)

theorem field (primitive : kind.Primitive) (segment : String) :
    Delimited (FieldRead.field segment kind) where
  isLocal := Local.field segment primitive.isLocal
  misses := by
    intro used t a reads
    exact (misses_anchored primitive (reads_of_field primitive.isLocal reads)).map Prod.fst

end Anchored

theorem tagBuffer : Delimited (FieldRead.tagBuffer : FieldRead Unit) :=
  (field .tagBuffer tagBufferSegment).map _

/-! ### Arrays -/

theorem repeated {element : Nat → FieldRead α} (h : ∀ i, Delimited (element i)) (count i : Nat) :
    Delimited (FieldRead.repeated element count i) := by
  induction count generalizing i with
  | zero => exact pure []
  | succ count ih => exact (h i).bind fun a => (ih (i + 1)).bind fun as => pure (a :: as)

theorem compactArray (name : String) {element : FieldRead α} (h : Delimited element) :
    Delimited (FieldRead.compactArray name element) := by
  apply scope name
  apply bind (field (.plain .compactArrayLength) "Length")
  intro raw
  exact repeated (fun i => h.scope _) _ 0

theorem compactInt32Array (name : String) :
    Delimited (FieldRead.compactInt32Array name : FieldRead (List Int32)) := by
  apply scope name
  apply bind (field (.plain .compactArrayLength) "Length")
  intro raw
  exact repeated (fun i => field (.plain .int32) _) _ 0

/-! ### Streams of batches -/

/-- A stream takes as many bytes as it declares. -/
theorem length_of_reads_batchesIn {name : String} {size : Nat} {anchor : Anchor} {used : Bytes}
    {t : Trace} {bs : List RecordBatch} (reads : Reads (batchesIn name size anchor) used t bs) :
    used.length = size := by
  have run := reads.run_start ()
  obtain ⟨log, left, ahead, rfl, decoded⟩ := ok_of_batchesIn run
  obtain ⟨t', whole⟩ := readsBefore_of_decodeLog decoded name
  have again : ReadsBefore left (batchesIn name log.length anchor) log t' bs :=
    readsBefore_batchesIn whole anchor
  obtain ⟨-, same⟩ := again.eq_past ahead run
  have none : [] = left := congrArg (fun s : ReadState Unit => s.cursor.ahead) same
  have ahead : used = log ++ left := ahead
  rw [ahead, ← none, List.append_nil]

/-- A stream that has fewer bytes than it declares is blamed on its size. -/
theorem missesBehind_batchesIn {name : String} {size : Nat} {anchor : Anchor} {used : Bytes}
    {t : Trace} {bs : List RecordBatch} (reads : Reads (batchesIn name size anchor) used t bs) :
    MissesBehind anchor (batchesIn name size anchor) used := by
  intro forward s here cut
  have fewer : s.cursor.ahead.length < size := by
    rw [← length_of_reads_batchesIn reads]
    exact cut.length_lt
  refine ⟨anchor.error (.batchSizeMismatch (.missingBatchBytes size s.cursor.ahead.length)), s,
    ?_, ?_⟩
  · rw [batchesIn, bind_of_ok (remaining_ok s), if_pos fewer]
    rfl
  · refine ⟨.batchSizeMismatch _ _, Nat.le_refl _, forward, ?_⟩
    rw [Cursor.stop, here]
    exact Nat.le_add_right _ _

theorem batchStream (name : String) : Delimited (FieldRead.batchStream name) := by
  apply scope name
  apply anchored_bind (.plain .compactRecordSize) "Size"
  · intro size
    show LocalFamily fun anchor : Anchor =>
      if size ≤ 1 then Pure.pure [] else batchesIn name (size.toNat - 1) anchor
    split
    · exact (Local.pure []).family
    · exact localFamily_batchesIn name _
  · intro size anchor used t bs reads
    change Reads (if size ≤ 1 then Pure.pure [] else batchesIn name (size.toNat - 1) anchor)
      used t bs at reads
    show MissesBehind anchor
      (if size ≤ 1 then Pure.pure [] else batchesIn name (size.toNat - 1) anchor) used
    split
    · next empty =>
      rw [if_pos empty] at reads
      exact ((pure []).misses reads).behind anchor
    · next some =>
      rw [if_neg some] at reads
      exact missesBehind_batchesIn reads

end Delimited
end FieldRead

/-! ### Codecs -/

namespace Codec

/-- The codec finds out from the bytes that it reads where they end. -/
class Delimited (c : Codec α β) : Prop where
  delimited : FieldRead.Delimited c.read

instance (b : β) : (pure b : Codec α β).Delimited := ⟨FieldRead.Delimited.pure b⟩

instance {c : Codec α β} {f : β → Codec α γ} [h : c.Delimited] [h' : ∀ b, (f b).Delimited] :
    (c >>= f).Delimited := ⟨h.delimited.bind fun b => (h' b).delimited⟩

instance {c : Codec α β} [h : c.Delimited] (part : γ → α) : (c.on part).Delimited := ⟨h.delimited⟩

instance {c : Codec α β} [h : c.Delimited] (segment : String) : (c.scope segment).Delimited :=
  ⟨h.delimited.scope segment⟩

instance {p : Prop} [Decidable p] {c c' : Codec α β} [h : c.Delimited] [h' : c'.Delimited] :
    (if p then c else c').Delimited := by
  split
  · exact h
  · exact h'

instance (c : Codec α β) : c.writeOnly.Delimited := ⟨FieldRead.Delimited.pure ()⟩

section Kinds

variable (segment : String)

instance : (int8 segment).Delimited := ⟨.field (.plain .int8) segment⟩
instance : (int16 segment).Delimited := ⟨.field (.plain .int16) segment⟩
instance : (int32 segment).Delimited := ⟨.field (.plain .int32) segment⟩
instance : (int64 segment).Delimited := ⟨.field (.plain .int64) segment⟩
instance : (compactString segment).Delimited := ⟨.field (.plain .compactString) segment⟩
instance : (compactNullableString segment).Delimited :=
  ⟨.field (.plain .compactNullableString) segment⟩
instance : (string segment).Delimited := ⟨.field .string segment⟩
instance : (uuid segment).Delimited := ⟨.field (.plain .uuid) segment⟩
instance : (boolean segment).Delimited := ⟨.field (.plain .boolean) segment⟩

end Kinds

instance : (tagBuffer : Codec α Unit).Delimited := ⟨FieldRead.Delimited.tagBuffer⟩

section Arrays

variable (name : String) {element : Codec α β}

instance [h : element.Delimited] : (compactArray name element).Delimited :=
  ⟨h.delimited.compactArray name⟩

instance : (compactInt32Array name).Delimited := ⟨.compactInt32Array name⟩

instance : (batchStream name).Delimited := ⟨.batchStream name⟩

end Arrays
end Codec
end BrokerExam
