/-
BrokerExam/Proofs/Wire/Steady.lean

Where a run ends, well or not.  Readers move the cursor forward, and show in the
end what was in sight at the start; below whatever path they read, they come back
to the one at which they began (`ReadState.Follows`).  A failure is no exception:
a scope is left and a bound is lifted on the way out.

Main results: the closure of `FieldRead.Steady` under what readers are made of,
and the class `Codec.Steady`, which is found by instances along a codec.
-/
import BrokerExam.Proofs.Wire.FailedRead
import BrokerExam.Proofs.Wire.Reads
import BrokerExam.Batch.Stream

namespace BrokerExam

variable {ν α β γ : Type}

/-- The state in which a run has ended. -/
def finalState {ε σ : Type} : EStateM.Result ε σ α → σ
  | .ok _ s => s
  | .error _ s => s

/-- A run can lead from `s` to `s'`: no way back, to the same path, in front of the same end. -/
structure ReadState.Follows (s s' : ReadState ν) : Prop where
  path : s'.path = s.path
  forward : s.cursor.offset ≤ s'.cursor.offset
  stop : s'.cursor.stop = s.cursor.stop

namespace ReadState.Follows

variable {s s₁ s₂ : ReadState ν}

theorem refl (s : ReadState ν) : s.Follows s := ⟨rfl, Nat.le_refl _, rfl⟩

theorem trans (h₁ : s.Follows s₁) (h₂ : s₁.Follows s₂) : s.Follows s₂ where
  path := h₂.path.trans h₁.path
  forward := Nat.le_trans h₁.forward h₂.forward
  stop := h₂.stop.trans h₁.stop

/-- Reading some bytes leaves the end where it is. -/
theorem past {t : Trace} {used left : Bytes} (ahead : s.cursor.ahead = used ++ left)
    (width : t.width = used.length) : s.Follows (s.past t left) where
  path := rfl
  forward := Nat.le_add_right _ _
  stop := by
    rw [Cursor.stop, Cursor.stop, ReadState.past_offset, ReadState.past_ahead, width, ahead,
      List.length_append, Nat.add_assoc]

end ReadState.Follows

namespace FieldRead

/-! ### Ways out -/

/-- What is made of the result plays no part in where a run ends. -/
theorem finalState_map (r : NotingRead ν α) (g : α → β) (s : ReadState ν) :
    finalState ((g <$> r) s) = finalState (r s) := by
  cases run : r s with
  | ok a s' => rw [map_of_ok run]; rfl
  | error e s' => rw [map_of_error run]; rfl

/-- However its body ends, a scope is left. -/
theorem finalState_scope (r : NotingRead ν α) (segment : String) (s : ReadState ν) :
    finalState (scope segment r s) =
      { finalState (r { s with path := s.path.child segment }) with
        path := (finalState (r { s with path := s.path.child segment })).path.parent } := by
  rw [scope]
  split
  · next run => rw [run]; rfl
  · next run => rw [run]; rfl

/-- However its body ends, a bound is lifted. -/
theorem finalState_bounded (r : NotingRead ν α) (length : Nat) (s : ReadState ν) :
    finalState (bounded length r s) =
      { finalState (r { s with cursor := s.cursor.confine (s.cursor.offset + length) }) with
        cursor := (finalState (r { s with
          cursor := s.cursor.confine (s.cursor.offset + length) })).cursor.release s.cursor } := by
  rw [bounded]
  split
  · next run => rw [run]; rfl
  · next run => rw [run]; rfl

/-- However a reader ends that keeps no notes, those beside it are what they were. -/
theorem finalState_noting (r : FieldRead α) (s : ReadState ν) :
    finalState (noting r s) = { finalState (r { s with notes := () }) with notes := s.notes } := by
  rw [noting]
  split
  · next run => rw [run]; rfl
  · next run => rw [run]; rfl

/-- Each run, however it ends, follows on the state in which it began. -/
def Steady (r : NotingRead ν α) : Prop := ∀ s : ReadState ν, s.Follows (finalState (r s))

namespace Steady

variable {r : NotingRead ν α} {f : α → NotingRead ν β} {kind : Kind α}

/-! ### Sequences -/

theorem of_stay (stay : ∀ s, finalState (r s) = s) : Steady r := by
  intro s
  rw [stay s]
  exact .refl s

theorem pure (a : α) : Steady (Pure.pure a : NotingRead ν α) := of_stay fun _ => rfl

theorem throw (e : DecodeError) : Steady (throw e : NotingRead ν α) := of_stay fun _ => rfl

theorem offset : Steady (offset : NotingRead ν Nat) := of_stay fun _ => rfl

theorem remaining : Steady (remaining : NotingRead ν Nat) := of_stay fun _ => rfl

theorem get : Steady (MonadState.get : NotingRead ν (ReadState ν)) := of_stay fun _ => rfl

theorem bind (hr : Steady r) (hf : ∀ a, Steady (f a)) : Steady (r >>= f) := by
  intro s
  have first := hr s
  cases run : r s with
  | ok a s₁ =>
    rw [run] at first
    rw [bind_of_ok run]
    exact first.trans (hf a s₁)
  | error e s₁ =>
    rw [run] at first
    rw [bind_of_error run]
    exact first

theorem map (hr : Steady r) (g : α → β) : Steady (g <$> r) := by
  rw [← bind_pure_comp]
  exact hr.bind fun a => pure (g a)

/-! ### Fields -/

theorem anchored (primitive : kind.Primitive) (segment : String) :
    Steady (anchored segment kind : NotingRead ν (α × Anchor)) := by
  intro s
  cases run : FieldRead.anchored segment kind s with
  | ok v s' =>
    obtain ⟨used, left, ahead, -, rfl⟩ := ok_of_anchored primitive.isLocal run
    exact .past ahead (Nat.add_zero used.length)
  | error e s' =>
    simp only [FieldRead.anchored] at run
    split at run
    · cases run
    · next cause c raw =>
      obtain ⟨-, rfl⟩ := EStateM.Result.error.inj run
      obtain ⟨forward, far⟩ := primitive.failsInSight s.cursor cause c raw
      exact ⟨rfl, forward, far⟩

theorem field (primitive : kind.Primitive) (segment : String) :
    Steady (field segment kind : NotingRead ν α) := (anchored primitive segment).map _

/-! ### Scopes -/

theorem scope (hr : Steady r) (segment : String) : Steady (scope segment r) := by
  intro s
  have body := hr { s with path := s.path.child segment }
  rw [finalState_scope]
  refine ⟨?_, body.forward, body.stop⟩
  rw [body.path]
  exact FieldPath.parent_child s.path segment

/-- The body of a bounded read came no further than the bound. -/
theorem bounded (hr : Steady r) (length : Nat) : Steady (bounded length r) := by
  intro s
  have body := hr { s with cursor := s.cursor.confine (s.cursor.offset + length) }
  rw [finalState_bounded]
  refine ⟨body.path, body.forward, ?_⟩
  have forward := body.forward
  have stop := body.stop
  simp only [Cursor.stop, Cursor.confine, Cursor.release, List.length_take, List.length_drop]
    at forward stop ⊢
  omega

/-! ### Arrays -/

theorem repeated {element : Nat → NotingRead ν α} (h : ∀ i, Steady (element i)) (count i : Nat) :
    Steady (repeated element count i) := by
  induction count generalizing i with
  | zero => exact pure []
  | succ count ih => exact (h i).bind fun a => (ih (i + 1)).bind fun as => pure (a :: as)

theorem untilEnd {element : NotingRead ν α} (h : Steady element) (name : String) (fuel i : Nat) :
    Steady (untilEnd name element fuel i) := by
  induction fuel generalizing i with
  | zero => exact pure []
  | succ fuel ih =>
    refine get.bind fun s => ?_
    split
    · exact pure []
    · exact (h.scope _).bind fun a => (ih (i + 1)).bind fun as => pure (a :: as)

theorem all {element : NotingRead ν α} (h : Steady element) (name : String) :
    Steady (all name element) := remaining.bind fun fuel => h.untilEnd name fuel 0

/-- A length, and as many elements as it counts. -/
theorem counted {element : NotingRead ν α} (h : Steady element) (name : String) :
    Steady (do
      let (length, anchor) ← FieldRead.anchored "Length" Kind.int32
      if length < -1 then
        MonadExcept.throw (anchor.error (.invalidLength (.negativeArray length)))
      else
        FieldRead.repeated (fun i => FieldRead.scope (indexed name i) element)
          length.toInt.toNat 0 : NotingRead ν (List α)) := by
  refine (anchored (.plain .int32) "Length").bind fun p => ?_
  show Steady (if p.1 < -1 then _ else _)
  split
  · exact throw _
  · exact repeated (fun i => h.scope _) _ 0

theorem array {element : NotingRead ν α} (h : Steady element) (name : String) :
    Steady (array name element) := (h.counted name).scope name

end Steady
end FieldRead

/-! ### Codecs -/

namespace Codec

/-- What the codec reads follows on where it began. -/
class Steady (c : Codec α β) : Prop where
  steady : FieldRead.Steady c.read

instance (b : β) : (pure b : Codec α β).Steady := ⟨.pure b⟩

instance {c : Codec α β} {f : β → Codec α γ} [h : c.Steady] [h' : ∀ b, (f b).Steady] :
    (c >>= f).Steady := ⟨h.steady.bind fun b => (h' b).steady⟩

instance {c : Codec α β} [h : c.Steady] (part : γ → α) : (c.on part).Steady := ⟨h.steady⟩

section Parts

variable (segment lengthSegment name : String) {element : Codec α β}

instance : (int8 segment).Steady := ⟨.field (.plain .int8) segment⟩
instance : (int16 segment).Steady := ⟨.field (.plain .int16) segment⟩
instance : (int32 segment).Steady := ⟨.field (.plain .int32) segment⟩
instance : (int64 segment).Steady := ⟨.field (.plain .int64) segment⟩
instance : (varint segment).Steady := ⟨.field (.plain .varint) segment⟩

instance : (varintBytes lengthSegment segment).Steady := by
  refine ⟨(FieldRead.Steady.anchored (.plain .varint) lengthSegment).bind fun p => ?_⟩
  show FieldRead.Steady (if p.1 = -1 then _ else if p.1 < -1 then _ else _)
  split
  · exact .pure none
  · split
    · exact .throw _
    · exact (FieldRead.Steady.field (.rawBytes _) segment).map some

instance [h : element.Steady] : (varintArray lengthSegment name element).Steady := by
  refine ⟨(FieldRead.Steady.anchored (.plain .varint) lengthSegment).bind fun p => ?_⟩
  show FieldRead.Steady (if p.1 < -1 then _ else _)
  split
  · exact .throw _
  · exact .repeated (fun i => h.steady.scope _) _ 0

instance [h : element.Steady] : (sized segment element).Steady := by
  refine ⟨(FieldRead.Steady.anchored (.plain .varint) segment).bind fun p => ?_⟩
  refine FieldRead.Steady.offset.bind fun start => h.steady.bind fun b => ?_
  refine FieldRead.Steady.offset.bind fun stop => ?_
  dsimp only
  split
  · exact .pure b
  · exact .throw _

instance : (narrowVarint segment).Steady := by
  refine ⟨(FieldRead.Steady.anchored (.plain .varint) segment).bind fun p => ?_⟩
  show FieldRead.Steady (if p.1.toInt32.toInt64 = p.1 then _ else _)
  split
  · exact .pure _
  · exact .throw _

instance [h : element.Steady] : (array name element).Steady := ⟨h.steady.array name⟩

end Parts
end Codec

/-! ### Batches -/

instance : RecordHeader.codec.Steady := by
  unfold RecordHeader.codec
  infer_instance

instance : Record.contents.Steady := by
  unfold Record.contents
  infer_instance

instance : Record.codec.Steady := by
  unfold Record.codec
  infer_instance

namespace RecordBatch

instance : covered.Steady := by
  unfold covered
  infer_instance

theorem steady_readCounted (baseOffset : Int64) (batchLength : Int32) (anchor : Anchor) :
    FieldRead.Steady (readCounted baseOffset batchLength anchor) := by
  refine FieldRead.Steady.offset.bind fun start => ?_
  refine (FieldRead.Steady.field (.plain .int32) "PartitionLeaderEpoch").bind fun epoch => ?_
  refine (FieldRead.Steady.anchored (.plain .int8) "Magic").bind fun magic => ?_
  show FieldRead.Steady (if magic.1 ≠ magicByte then _ else _)
  split
  · exact .throw _
  · refine (FieldRead.Steady.anchored (.plain .uint32) "CRC").bind fun crc => ?_
    refine FieldRead.Steady.get.bind fun before => ?_
    refine (Codec.Steady.steady (c := covered)).bind fun b => ?_
    refine FieldRead.Steady.offset.bind fun stop => ?_
    show FieldRead.Steady (if batchLength.toInt ≠ _ then _ else if crc32c _ ≠ crc.1 then _ else _)
    split
    · exact .throw _
    · split
      · exact .throw _
      · exact .pure _

theorem steady_read : FieldRead.Steady read := by
  refine (FieldRead.Steady.field (.plain .int64) "BaseOffset").bind fun baseOffset => ?_
  refine (FieldRead.Steady.anchored (.plain .int32) "BatchLength").bind fun length => ?_
  show FieldRead.Steady (if length.1 ≤ 0 then _ else _)
  split
  · exact .throw _
  · exact steady_readCounted baseOffset length.1 length.2

end RecordBatch

/-! ### Streams -/

namespace FieldRead

theorem steady_batchesIn (name : String) (size : Nat) (anchor : Anchor) :
    Steady (batchesIn name size anchor) := by
  refine Steady.remaining.bind fun remaining => ?_
  split
  · exact .throw _
  · refine Steady.offset.bind fun start => ?_
    refine ((RecordBatch.steady_read.all name).bounded size).bind fun batches => ?_
    refine Steady.offset.bind fun stop => ?_
    dsimp only
    split
    · exact .throw _
    · exact .pure batches

theorem steady_batchStream (name : String) : Steady (batchStream name) := by
  refine Steady.scope ?_ name
  refine (Steady.anchored (.plain .compactRecordSize) "Size").bind fun size => ?_
  show Steady (if size.1 ≤ 1 then _ else _)
  split
  · exact .pure []
  · exact steady_batchesIn name _ size.2

end FieldRead
end BrokerExam
