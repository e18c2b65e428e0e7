/-
BrokerExam/Proofs/Batch/Confinement.lean

A stream of batches is confined to the bytes it declares.  Its reader hides what is
behind them, so that every run inside sees the same bytes whatever follows; and it
shows it again however the run has ended.  What is read inside may well try to go
further, by a length or a count that is wrong: then it fails at the end that it
sees, and blames no byte behind it.

Main results: `batchesIn_eq_bounded`, that the stream is never found to have taken
more or less than it declares, and `batchStream_confined`.
-/
import BrokerExam.Proofs.Batch.Layout
import BrokerExam.Proofs.Batch.Stream
import BrokerExam.Proofs.Wire.Steady

namespace BrokerExam

variable {α β : Type}

/-! ### Confined readers -/

/-- The state with other bytes ahead. -/
def ReadState.facing (s : ReadState Unit) (bytes : Bytes) : ReadState Unit :=
  { s with cursor := ⟨s.cursor.offset, bytes⟩ }

namespace ReadState

variable (s : ReadState Unit) (bytes rest : Bytes)

theorem facing_take_drop (n : Nat) :
    s.facing (s.cursor.ahead.take n ++ s.cursor.ahead.drop n) = s := by
  rw [List.take_append_drop]
  rfl

/-- Behind a bound nothing is seen, whatever is there. -/
theorem confine_facing :
    ({ s.facing (bytes ++ rest) with
      cursor := (s.facing (bytes ++ rest)).cursor.confine (s.cursor.offset + bytes.length) } :
        ReadState Unit) = s.facing bytes := by
  simp only [facing, Cursor.confine, Nat.add_sub_cancel_left, List.take_left]

/-- What was not taken is seen again once the bound is lifted. -/
theorem release_facing {read : Nat} (some : read ≤ bytes.length) {c : Cursor}
    (offset : c.offset = s.cursor.offset + read) :
    c.release (s.facing (bytes ++ rest)).cursor =
      ⟨s.cursor.offset + read, bytes.drop read ++ rest⟩ := by
  simp only [Cursor.release, facing, offset, Nat.add_sub_cancel_left,
    List.drop_append_of_le_length some]

end ReadState

/-- In front of the bytes, the reader does the same whatever follows them: it gives the same value
and has taken them all, or fails with the same error and has taken some of them.  What it recorded
and what it blames ends with the bytes, and what follows is still there. -/
def Confined (r : FieldRead α) (bytes : Bytes) : Prop :=
  ∀ s : ReadState Unit, ∃ new : Array Field,
    (∀ f ∈ new, f.stop ≤ s.cursor.offset + bytes.length) ∧
    ((∃ a, ∀ rest, r (s.facing (bytes ++ rest)) =
      .ok a ⟨⟨s.cursor.offset + bytes.length, rest⟩, s.path, s.fields ++ new, ()⟩) ∨
    (∃ e read, e.stop ≤ s.cursor.offset + bytes.length ∧ read ≤ bytes.length ∧
      ∀ rest, r (s.facing (bytes ++ rest)) = .error e
        ⟨⟨s.cursor.offset + read, bytes.drop read ++ rest⟩, s.path, s.fields ++ new, ()⟩))

/-- What an orderly reader blames lies in its sight, if it was told of nothing from before. -/
theorem Orderly.stop_le_of_error {l : Layout} {r : FieldRead α} (orderly : Orderly l [] r)
    {s s' : ReadState Unit} {e : DecodeError} (run : r s = .error e s') : e.stop ≤ s.cursor.stop := by
  obtain ⟨t, met, -, -, cause⟩ := orderly.error s e s' run
  have width := met.width
  rcases cause with refused | ⟨f, hf, same, -⟩ | given
  · obtain ⟨sight, inSight, failed⟩ := refused.failed
    have stop := failed.range.2.2.1
    have length := inSight.length_le
    rw [List.length_drop] at length
    simp only [Cursor.stop] at stop ⊢
    omega
  · have stop : f.stop = e.stop := congrArg Anchor.stop same
    have last := (Trace.mark_of_mem_fields hf).2
    simp only [Cursor.stop]
    omega
  · exact absurd given List.not_mem_nil

namespace Confined

variable {r r' : FieldRead α} {bytes : Bytes}

theorem pure (a : α) : Confined (Pure.pure a) [] := by
  intro s
  refine ⟨#[], fun f hf => absurd hf (Array.not_mem_empty f), .inl ⟨a, fun rest => ?_⟩⟩
  rw [Array.append_empty]
  rfl

/-- It does not matter what the reader does elsewhere. -/
theorem congr (h : Confined r bytes)
    (same : ∀ s : ReadState Unit, bytes.length ≤ s.cursor.ahead.length → r' s = r s) :
    Confined r' bytes := by
  intro s
  have here (rest : Bytes) : r' (s.facing (bytes ++ rest)) = r (s.facing (bytes ++ rest)) := by
    apply same
    show bytes.length ≤ (bytes ++ rest).length
    rw [List.length_append]
    exact Nat.le_add_right _ _
  simp only [here]
  exact h s

theorem scope (h : Confined r bytes) (segment : String) :
    Confined (FieldRead.scope segment r) bytes := by
  intro s
  obtain ⟨new, inside, outcome⟩ := h { s with path := s.path.child segment }
  refine ⟨new, inside, ?_⟩
  rcases outcome with ⟨a, run⟩ | ⟨e, read, blamed, some, run⟩
  · refine .inl ⟨a, fun rest => ?_⟩
    rw [FieldRead.scope_of_ok (s := s.facing (bytes ++ rest)) (run rest), FieldPath.parent_child]
  · refine .inr ⟨e, read, blamed, some, fun rest => ?_⟩
    rw [FieldRead.scope_of_error (s := s.facing (bytes ++ rest)) (run rest),
      FieldPath.parent_child]

/-- A field in front is recorded, and what follows it is confined to the other bytes. -/
theorem anchored_bind {segment : String} {kind : Kind β} {k : β × Anchor → FieldRead α}
    {u : Bytes} {b : β} (value : kind.read.Reads u b)
    (hk : ∀ anchor, Confined (k (b, anchor)) bytes) :
    Confined (FieldRead.anchored segment kind >>= k) (u ++ bytes) := by
  intro s
  let t : Trace := [⟨[segment], kind.value b, u.length⟩]
  let anchor : Anchor := ⟨s.path.child segment, s.cursor.offset, s.cursor.offset + u.length⟩
  obtain ⟨new, inside, outcome⟩ := hk anchor (s.past t [])
  have first (rest : Bytes) : (FieldRead.anchored segment kind >>= k)
      (s.facing (u ++ bytes ++ rest)) = k (b, anchor) ((s.past t []).facing (bytes ++ rest)) :=
    bind_of_ok (run_anchored segment value (List.append_assoc u bytes rest))
  have width : t.width = u.length := Nat.add_zero u.length
  refine ⟨(t.fields s.path s.cursor.offset).toArray ++ new, fun f hf => ?_, ?_⟩
  · rw [List.length_append]
    rcases Array.mem_append.1 hf with hf | hf
    · have stop := (Trace.mark_of_mem_fields (List.mem_toArray.1 hf)).2
      omega
    · have stop := inside f hf
      rw [ReadState.past_offset] at stop
      omega
  · rw [ReadState.past_offset, width] at outcome
    rcases outcome with ⟨a, run⟩ | ⟨e, read, blamed, some, run⟩
    · refine .inl ⟨a, fun rest => ?_⟩
      rw [first, run, List.length_append, ← Nat.add_assoc, ← Array.append_assoc]
      rfl
    · refine .inr ⟨e, u.length + read, ?_, ?_, fun rest => ?_⟩
      · rw [List.length_append, ← Nat.add_assoc]
        exact blamed
      · rw [List.length_append]
        exact Nat.add_le_add_left some _
      · rw [first, run, ← List.drop_drop, List.drop_left, ← Nat.add_assoc, ← Array.append_assoc]
        rfl

/-- A reader that goes on to the end is confined by a bound. -/
theorem bounded {l : Layout} (steady : FieldRead.Steady r) (orderly : Orderly l [] r)
    (whole : ∀ s a s', r s = .ok a s' → s'.cursor.ahead = []) :
    Confined (FieldRead.bounded bytes.length r) bytes := by
  intro s
  -- whatever follows, the run inside begins in one and the same state
  have inside (rest : Bytes) := congrArg r (s.confine_facing bytes rest)
  have follows := steady (s.facing bytes)
  cases run : r (s.facing bytes) with
  | ok a s' =>
    rw [run] at follows
    have stop : s'.cursor.stop = s.cursor.offset + bytes.length := follows.stop
    rw [Cursor.stop, whole _ a s' run] at stop
    obtain ⟨t, met, rfl⟩ := orderly.ok _ a s' run
    refine ⟨(t.fields s.path s.cursor.offset).toArray, fun f hf => ?_, .inl ⟨a, fun rest => ?_⟩⟩
    · have last := (Trace.mark_of_mem_fields (List.mem_toArray.1 hf)).2
      exact Nat.le_trans last (Nat.add_le_add_left met.width _)
    · rw [FieldRead.bounded_of_ok (s := s.facing (bytes ++ rest)) ((inside rest).trans run),
        s.release_facing bytes rest (Nat.le_refl _) stop, List.drop_length, List.nil_append]
      rfl
  | error e s' =>
    rw [run] at follows
    have forward : s.cursor.offset ≤ s'.cursor.offset := follows.forward
    have stop : s'.cursor.stop = s.cursor.offset + bytes.length := follows.stop
    rw [Cursor.stop] at stop
    obtain ⟨t, met, path, fields, -⟩ := orderly.error _ e s' run
    have fields : s'.fields = s.fields ++ (t.fields s.path s.cursor.offset).toArray := fields
    have path : s'.path = s.path := path
    have some : s'.cursor.offset - s.cursor.offset ≤ bytes.length := by omega
    refine ⟨(t.fields s.path s.cursor.offset).toArray, fun f hf => ?_,
      .inr ⟨e, _, orderly.stop_le_of_error run, some, fun rest => ?_⟩⟩
    · have last := (Trace.mark_of_mem_fields (List.mem_toArray.1 hf)).2
      exact Nat.le_trans last (Nat.add_le_add_left met.width _)
    · rw [FieldRead.bounded_of_error (s := s.facing (bytes ++ rest)) ((inside rest).trans run),
        s.release_facing bytes rest some (Nat.add_sub_of_le forward).symm, path, fields]

end Confined

/-! ### Streams of batches -/

/-- Batches that were read to the end leave nothing ahead. -/
theorem ahead_of_all {name : String} {s s' : ReadState Unit} {bs : List RecordBatch}
    (run : FieldRead.all name RecordBatch.read s = .ok bs s') : s'.cursor.ahead = [] := by
  obtain ⟨ps, ahead, rfl, each⟩ := pieces_of_all run
  have whole : ReadsBefore [] (FieldRead.all name RecordBatch.read) _ _ _ :=
    readsBefore_all_pieces each fun p hp => length_pos_of_readBy (each p hp)
  obtain ⟨-, rfl⟩ := whole.eq_past (ahead.trans (List.append_nil _).symm) run
  rfl

/-- Batches are confined by a bound. -/
theorem confined_bounded (name : String) (stream : Bytes) :
    Confined (FieldRead.bounded stream.length (FieldRead.all name RecordBatch.read)) stream := by
  have orderly : Orderly RecordBatch.layout [] RecordBatch.read :=
    Codec.LaidOut.orderly (c := RecordBatch.codec)
  exact .bounded (RecordBatch.steady_read.all name) orderly.all fun _ _ _ run => ahead_of_all run

/-- **A stream takes what it declares**: if there are as many bytes as that, then to confine the
batches to them is all that is done.  Neither check of the size finds anything wrong. -/
theorem batchesIn_eq_bounded (name : String) (size : Nat) (anchor : Anchor) {s : ReadState Unit}
    (enough : size ≤ s.cursor.ahead.length) :
    FieldRead.batchesIn name size anchor s =
      FieldRead.bounded size (FieldRead.all name RecordBatch.read) s := by
  rw [FieldRead.batchesIn, bind_of_ok (FieldRead.remaining_ok s), if_neg (Nat.not_lt.2 enough),
    bind_of_ok (FieldRead.offset_ok s)]
  obtain ⟨new, -, outcome⟩ := confined_bounded name (s.cursor.ahead.take size) s
  rw [List.length_take_of_le enough] at outcome
  rcases outcome with ⟨bs, run⟩ | ⟨e, read, -, -, run⟩
  · have run := run (s.cursor.ahead.drop size)
    rw [s.facing_take_drop] at run
    rw [run, bind_of_ok run, bind_of_ok (FieldRead.offset_ok _)]
    simp only [Nat.add_sub_cancel_left, ne_eq, not_true, if_false]
    rfl
  · have run := run (s.cursor.ahead.drop size)
    rw [s.facing_take_drop] at run
    rw [run, bind_of_error run]

theorem confined_batchesIn (name : String) (stream : Bytes) (anchor : Anchor) :
    Confined (FieldRead.batchesIn name stream.length anchor) stream :=
  (confined_bounded name stream).congr fun _ enough =>
    batchesIn_eq_bounded name stream.length anchor enough

/-- **A stream of batches is confined to its declared size**, however it is made up inside: it is
read in the same way whatever follows, and what follows is there afterwards.  The size is met, so
that it is never found to differ in the end. -/
theorem batchStream_confined (name : String) {size stream : Bytes} {declared : UInt64}
    (sized : Varint.decode size = .ok (declared, size.length))
    (whole : stream.length = declared.toNat - 1) :
    Confined (FieldRead.batchStream name) (size ++ stream) ∧
    ∀ (anchor : Anchor) (s : ReadState Unit), declared.toNat - 1 ≤ s.cursor.ahead.length →
      FieldRead.batchesIn name (declared.toNat - 1) anchor s =
        FieldRead.bounded (declared.toNat - 1) (FieldRead.all name RecordBatch.read) s := by
  refine ⟨.scope (.anchored_bind (RawRead.reads_unsignedVarint_iff.2 sized) fun anchor => ?_) name,
    fun anchor s enough => batchesIn_eq_bounded name _ anchor enough⟩
  show Confined (if declared ≤ 1 then pure [] else _) stream
  split
  · next none =>
    rw [UInt64.le_iff_toNat_le, show (1 : UInt64).toNat = 1 from rfl] at none
    obtain rfl : stream = [] := List.eq_nil_of_length_eq_zero (by omega)
    exact .pure []
  · rw [← whole]
    exact confined_batchesIn name stream anchor

/-- A stream that ends within its last record, which would go further. -/
theorem batchStream_confined_cut :
    Varint.decode [71] = .ok (71, 1) ∧ ((encodeLog [staleBatch]).take 70).length = 70 ∧
    (encodeLog [staleBatch]).length = 83 ∧
    Confined (FieldRead.batchStream "RecordBatches")
      ([71] ++ (encodeLog [staleBatch]).take 70) := by
  have length : (encodeLog [staleBatch]).length = 83 := by decide +kernel
  have whole : ((encodeLog [staleBatch]).take 70).length = 70 :=
    List.length_take_of_le (by rw [length]; decide)
  exact ⟨rfl, whole, length, (batchStream_confined "RecordBatches" rfl whole).1⟩

end BrokerExam
