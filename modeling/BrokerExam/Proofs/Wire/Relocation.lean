/-
BrokerExam/Proofs/Wire/Relocation.lean

The same bytes read at another place.  A reader asks for the offset only to take
the difference of two, and for the path only to put it in front of what it records
and blames.  So from a place that is further on in the bytes and further down the
tree it does what it does from the start (`Moves`), with offsets and paths moved:

    r from s            gives   a at s'
    r from p.state s    gives   a at p.state s'

and in the same way for a failure.  A field that is blamed later on was moved too,
so that what follows it is another reader there, which knows the moved anchor.

Main results: `Moves` is closed under everything a batch is read by, and the class
`Codec.Relocatable`, which is found by instances along a codec.
-/
import BrokerExam.Proofs.Wire.Steady

namespace BrokerExam

variable {α β γ δ : Type}

/-! ### Runs that mirror each other -/

section Mirrors

variable {ε ε' σ σ' : Type} {onState : σ → σ'} {onError : ε → ε'} {onValue : α → β}
  {onResult : γ → δ} {x : EStateM ε σ α} {y : EStateM ε' σ' β}

/-- What `y` does from an image is the image of what `x` does. -/
def Mirrors (onState : σ → σ') (onError : ε → ε') (onValue : α → β) (x : EStateM ε σ α)
    (y : EStateM ε' σ' β) : Prop :=
  ∀ s, y (onState s) = match x s with
    | .ok a s' => .ok (onValue a) (onState s')
    | .error e s' => .error (onError e) (onState s')

namespace Mirrors

theorem ok (h : Mirrors onState onError onValue x y) {s s' : σ} {a : α} (run : x s = .ok a s') :
    y (onState s) = .ok (onValue a) (onState s') := by
  rw [h s, run]

theorem error (h : Mirrors onState onError onValue x y) {s s' : σ} {e : ε}
    (run : x s = .error e s') : y (onState s) = .error (onError e) (onState s') := by
  rw [h s, run]

theorem pure (a : α) : Mirrors onState onError onValue (Pure.pure a) (Pure.pure (onValue a)) :=
  fun _ => rfl

theorem throw (e : ε) : Mirrors onState onError onValue (throw e) (throw (onError e)) :=
  fun _ => rfl

theorem bind {f : α → EStateM ε σ γ} {k : β → EStateM ε' σ' δ}
    (h : Mirrors onState onError onValue x y)
    (hf : ∀ a, Mirrors onState onError onResult (f a) (k (onValue a))) :
    Mirrors onState onError onResult (x >>= f) (y >>= k) := by
  intro s
  cases run : x s with
  | ok a s₁ => rw [bind_of_ok (h.ok run), bind_of_ok run, hf a s₁]
  | error e s₁ => rw [bind_of_error (h.error run), bind_of_error run]

theorem map {g : α → γ} {k : β → δ} (h : Mirrors onState onError onValue x y)
    (same : ∀ a, k (onValue a) = onResult (g a)) :
    Mirrors onState onError onResult (g <$> x) (k <$> y) := by
  rw [← bind_pure_comp, ← bind_pure_comp]
  refine h.bind fun a => ?_
  rw [same a]
  exact pure (g a)

end Mirrors
end Mirrors

/-! ### Primitive reads -/

/-- The cursor, `n` bytes further on in other bytes. -/
def Cursor.shift (n : Nat) (c : Cursor) : Cursor := ⟨n + c.offset, c.ahead⟩

theorem Cursor.shift_advance (n k : Nat) (c : Cursor) :
    (c.shift n).advance k = (c.advance k).shift n := by
  simp only [shift, advance, Nat.add_assoc]

namespace RawRead

variable {r : RawRead α}

/-- The read is the same at every offset. -/
def Floats (r : RawRead α) : Prop := ∀ n, Mirrors (Cursor.shift n) id id r r

namespace Floats

theorem pure (a : α) : Floats (Pure.pure a) := fun _ => Mirrors.pure a

theorem throw (e : CodecError) : Floats (throw e : RawRead α) := fun _ => Mirrors.throw e

theorem bind {f : α → RawRead β} (h : Floats r) (hf : ∀ a, Floats (f a)) : Floats (r >>= f) :=
  fun n => (h n).bind fun a => hf a n

theorem map (h : Floats r) (g : α → β) : Floats (g <$> r) := fun n => (h n).map fun _ => rfl

theorem take (k : Nat) (what : String) : Floats (take k what) := by
  intro n c
  simp only [RawRead.take, Cursor.shift_advance]
  by_cases enough : (c.ahead.take k).length = k
  · simp only [Cursor.shift, enough, if_true]
    rfl
  · simp only [Cursor.shift, enough, if_false]
    rfl

theorem fixed (k : Nat) (what : String) : Floats (fixed k what) := (take k what).map _

theorem decoding (decode : Bytes → Except Varint.Malformed (α × Nat)) :
    Floats (decoding decode) := by
  intro n c
  simp only [RawRead.decoding, Cursor.shift_advance]
  simp only [Cursor.shift]
  split
  · rfl
  · rfl

theorem unsignedVarint : Floats unsignedVarint := by
  rw [unsignedVarint_eq_decoding]
  exact decoding _

theorem varint : Floats varint := by
  rw [varint_eq_decoding]
  exact decoding _

theorem contents (n : Nat) : Floats (contents n) := (take n "string").map _

theorem compactString : Floats compactString := by
  refine unsignedVarint.bind fun length => ?_
  split
  · exact throw _
  · exact contents _

theorem compactNullableString : Floats compactNullableString := by
  refine unsignedVarint.bind fun length => ?_
  split
  · exact pure none
  · exact (contents _).map some

theorem string : Floats string := by
  refine ((fixed 2 "int16").map _).bind fun length => ?_
  split
  · exact pure none
  · split
    · exact throw _
    · exact (contents _).map some

theorem boolean : Floats boolean := by
  refine ((fixed 1 "int8").map _).bind fun v => ?_
  split
  · exact pure false
  · split
    · exact pure true
    · exact throw _

theorem tagBuffer : Floats tagBuffer := by
  refine unsignedVarint.bind fun count => ?_
  split
  · exact pure count
  · exact throw _

end Floats
end RawRead

namespace Kind

variable {kind : Kind α}

theorem Plain.floats (h : kind.Plain) : kind.read.Floats := by
  cases h with
  | int8 => exact (RawRead.Floats.fixed 1 "int8").map _
  | int16 => exact (RawRead.Floats.fixed 2 "int16").map _
  | int32 => exact (RawRead.Floats.fixed 4 "int32").map _
  | int64 => exact (RawRead.Floats.fixed 8 "int64").map _
  | uint32 => exact (RawRead.Floats.fixed 4 "uint32").map _
  | unsignedVarint => exact RawRead.Floats.unsignedVarint
  | varint => exact RawRead.Floats.varint
  | compactString => exact RawRead.Floats.compactString
  | compactNullableString => exact RawRead.Floats.compactNullableString
  | uuid => exact (RawRead.Floats.take 16 "UUID").map _
  | boolean => exact RawRead.Floats.boolean
  | compactArrayLength => exact RawRead.Floats.unsignedVarint
  | compactRecordSize => exact RawRead.Floats.unsignedVarint

theorem Primitive.floats (h : kind.Primitive) : kind.read.Floats := by
  cases h with
  | plain h => exact h.floats
  | string => exact RawRead.Floats.string
  | rawBytes n => exact RawRead.Floats.take n "raw bytes"
  | tagBuffer => exact RawRead.Floats.tagBuffer

end Kind

/-! ### Places -/

/-- Where bytes are read: below which path, behind how many others, and with what recorded
already. -/
structure Place where
  above : FieldPath
  before : Nat
  recorded : Array Field

namespace Place

def path (p : Place) (q : FieldPath) : FieldPath := ⟨p.above.segments ++ q.segments⟩

def anchor (p : Place) (a : Anchor) : Anchor :=
  ⟨p.path a.path, p.before + a.start, p.before + a.stop⟩

def field (p : Place) (f : Field) : Field :=
  ⟨p.path f.path, f.value, p.before + f.start, p.before + f.stop⟩

def error (p : Place) (e : DecodeError) : DecodeError :=
  ⟨p.path e.path, p.before + e.start, p.before + e.stop, e.cause⟩

def state (p : Place) (s : ReadState Unit) : ReadState Unit :=
  ⟨s.cursor.shift p.before, p.path s.path, p.recorded ++ s.fields.map p.field, ()⟩

/-- Every state is the start of some bytes at some place. -/
def of (s : ReadState Unit) : Place := ⟨s.path, s.cursor.offset, s.fields⟩

theorem state_start (s : ReadState Unit) :
    (of s).state (ReadState.start s.cursor.ahead ()) = s := by
  simp only [state, of, ReadState.start, Cursor.start, Cursor.shift, path, FieldPath.root,
    List.append_nil, Array.map_empty, Array.append_empty, Nat.add_zero]

theorem path_child (p : Place) (q : FieldPath) (segment : String) :
    p.path (q.child segment) = (p.path q).child segment := by
  simp only [path, FieldPath.child, List.append_assoc]

end Place

/-- At the place, `r'` does what `r` does at the start. -/
abbrev Moves (p : Place) (onValue : α → β) (r : FieldRead α) (r' : FieldRead β) : Prop :=
  Mirrors p.state p.error onValue r r'

namespace Moves

variable {p : Place} {onValue : α → β} {r : FieldRead α} {r' : FieldRead β} {kind : Kind α}
  {name : String}

theorem offset : Moves p (p.before + ·) FieldRead.offset FieldRead.offset := fun _ => rfl

theorem get : Moves p p.state MonadState.get MonadState.get := fun _ => rfl

/-! ### Fields -/

theorem blameStop_shift (n start : Nat) (c : Cursor) (cause : CodecError) :
    FieldRead.blameStop (n + start) (c.shift n) cause = n + FieldRead.blameStop start c cause := by
  cases cause
  all_goals simp only [FieldRead.blameStop, Cursor.shift, Cursor.stop]
  all_goals omega

/-- A field is read at the place, and so is its anchor. -/
theorem anchored (primitive : kind.Primitive) (segment : String) :
    Moves p (fun v => (v.1, p.anchor v.2)) (FieldRead.anchored segment kind)
      (FieldRead.anchored segment kind) := by
  intro s
  have mirrored := primitive.floats p.before
  cases run : kind.read s.cursor with
  | ok a c =>
    have raw : kind.read (p.state s).cursor = .ok a (c.shift p.before) := mirrored.ok run
    simp only [FieldRead.anchored, run, raw]
    simp only [Place.state, Place.anchor, Place.path_child, Place.field, Cursor.shift,
      Array.map_push, Array.append_push]
  | error cause c =>
    have raw : kind.read (p.state s).cursor = .error cause (c.shift p.before) :=
      mirrored.error run
    have blamed : FieldRead.blameStop (p.state s).cursor.offset (c.shift p.before) cause =
        p.before + FieldRead.blameStop s.cursor.offset c cause := blameStop_shift ..
    simp only [FieldRead.anchored, run, raw, blamed]
    simp only [Place.state, Place.error, Place.path_child, Cursor.shift]

theorem field (primitive : kind.Primitive) (segment : String) :
    Moves p id (FieldRead.field segment kind) (FieldRead.field segment kind) :=
  (anchored primitive segment).map fun _ => rfl

/-! ### Scopes and arrays -/

theorem scope (h : Moves p onValue r r') (steady : FieldRead.Steady r) (segment : String) :
    Moves p onValue (FieldRead.scope segment r) (FieldRead.scope segment r') := by
  intro s
  have body := h { s with path := s.path.child segment }
  have back := (steady { s with path := s.path.child segment }).path
  have inside : p.state { s with path := s.path.child segment } =
      { p.state s with path := (p.state s).path.child segment } := by
    simp only [Place.state, Place.path_child]
  rw [inside] at body
  -- the body has come back to the path it was given, which has a last segment
  have left (s' : ReadState Unit) (at_child : s'.path = s.path.child segment) :
      ({ p.state s' with path := (p.state s').path.parent } : ReadState Unit) =
        p.state { s' with path := s'.path.parent } := by
    simp only [Place.state, at_child, Place.path_child, FieldPath.parent_child]
  simp only [FieldRead.scope, body]
  cases run : r { s with path := s.path.child segment } with
  | ok a s' =>
    rw [run] at back
    simp only [left s' back]
  | error e s' =>
    rw [run] at back
    simp only [left s' back]

theorem repeated {element : Nat → FieldRead α} (h : ∀ i, Moves p id (element i) (element i))
    (count i : Nat) :
    Moves p id (FieldRead.repeated element count i) (FieldRead.repeated element count i) := by
  induction count generalizing i with
  | zero => exact Mirrors.pure []
  | succ count ih =>
    exact (h i).bind fun a => (ih (i + 1)).bind fun as => Mirrors.pure (a :: as)

theorem array {element : FieldRead α} (h : Moves p id element element)
    (steady : FieldRead.Steady element) :
    Moves p id (FieldRead.array name element) (FieldRead.array name element) := by
  have items (count : Nat) : Moves p id
      (FieldRead.repeated (fun i => FieldRead.scope (indexed name i) element) count 0)
      (FieldRead.repeated (fun i => FieldRead.scope (indexed name i) element) count 0) :=
    repeated (fun i => h.scope steady _) count 0
  refine Moves.scope ((anchored (.plain .int32) "Length").bind fun v => ?_) (steady.counted name)
    name
  dsimp only
  split
  · exact Mirrors.throw _
  · exact items _

end Moves

/-! ### Codecs -/

namespace Codec

/-- What the codec reads does not depend on the place. -/
class Relocatable (c : Codec α β) : Prop where
  moves : ∀ p : Place, Moves p id c.read c.read

instance (b : β) : (pure b : Codec α β).Relocatable := ⟨fun _ => Mirrors.pure b⟩

instance {c : Codec α β} {f : β → Codec α γ} [h : c.Relocatable] [h' : ∀ b, (f b).Relocatable] :
    (c >>= f).Relocatable := ⟨fun p => (h.moves p).bind fun b => (h' b).moves p⟩

instance {c : Codec α β} [h : c.Relocatable] (part : γ → α) : (c.on part).Relocatable := ⟨h.moves⟩

section Parts

variable (segment lengthSegment name : String) {element : Codec α β}

instance : (int8 segment).Relocatable := ⟨fun _ => Moves.field (.plain .int8) segment⟩
instance : (int16 segment).Relocatable := ⟨fun _ => Moves.field (.plain .int16) segment⟩
instance : (int32 segment).Relocatable := ⟨fun _ => Moves.field (.plain .int32) segment⟩
instance : (int64 segment).Relocatable := ⟨fun _ => Moves.field (.plain .int64) segment⟩
instance : (varint segment).Relocatable := ⟨fun _ => Moves.field (.plain .varint) segment⟩

instance : (varintBytes lengthSegment segment).Relocatable := by
  refine ⟨fun p => (Moves.anchored (.plain .varint) lengthSegment).bind fun v => ?_⟩
  dsimp only
  split
  · exact Mirrors.pure none
  · split
    · exact Mirrors.throw _
    · exact (Moves.field (.rawBytes _) segment).map fun _ => rfl

instance [h : element.Relocatable] [steady : element.Steady] :
    (varintArray lengthSegment name element).Relocatable := by
  refine ⟨fun p => (Moves.anchored (.plain .varint) lengthSegment).bind fun v => ?_⟩
  dsimp only
  split
  · exact Mirrors.throw _
  · exact Moves.repeated (fun i => (h.moves p).scope steady.steady _) _ 0

/-- The distance that the cursor has moved is the same at every place. -/
instance [h : element.Relocatable] : (sized segment element).Relocatable := by
  refine ⟨fun p => (Moves.anchored (.plain .varint) segment).bind fun v => ?_⟩
  refine Moves.offset.bind fun start => (h.moves p).bind fun b => Moves.offset.bind fun stop => ?_
  dsimp only [id]
  rw [Nat.add_sub_add_left]
  split
  · exact Mirrors.pure b
  · exact Mirrors.throw _

instance : (narrowVarint segment).Relocatable := by
  refine ⟨fun p => (Moves.anchored (.plain .varint) segment).bind fun v => ?_⟩
  dsimp only
  split
  · exact Mirrors.pure _
  · exact Mirrors.throw _

instance [h : element.Relocatable] [steady : element.Steady] :
    (array name element).Relocatable := ⟨fun p => (h.moves p).array steady.steady⟩

end Parts
end Codec

/-! ### Batches -/

instance : RecordHeader.codec.Relocatable := by
  unfold RecordHeader.codec
  infer_instance

instance : Record.contents.Relocatable := by
  unfold Record.contents
  infer_instance

instance : Record.codec.Relocatable := by
  unfold Record.codec
  infer_instance

namespace RecordBatch

instance : covered.Relocatable := by
  unfold covered
  infer_instance

/-- Both checks behind the last record compare what was read with a distance. -/
theorem moves_readCounted (p : Place) (baseOffset : Int64) (batchLength : Int32)
    (anchor : Anchor) :
    Moves p id (readCounted baseOffset batchLength anchor)
      (readCounted baseOffset batchLength (p.anchor anchor)) := by
  refine Moves.offset.bind fun start => ?_
  refine (Moves.field (.plain .int32) "PartitionLeaderEpoch").bind fun epoch => ?_
  refine (Moves.anchored (.plain .int8) "Magic").bind fun magic => ?_
  dsimp only [id]
  split
  · exact Mirrors.throw _
  · refine (Moves.anchored (.plain .uint32) "CRC").bind fun crc => ?_
    refine Moves.get.bind fun before => ?_
    refine (Codec.Relocatable.moves (c := covered) p).bind fun b => ?_
    refine Moves.offset.bind fun stop => ?_
    simp only [id, Place.state, Cursor.shift, Nat.add_sub_add_left]
    split
    · exact Mirrors.throw _
    · split
      · exact Mirrors.throw _
      · exact Mirrors.pure _

theorem moves_read (p : Place) : Moves p id read read := by
  refine (Moves.field (.plain .int64) "BaseOffset").bind fun baseOffset => ?_
  refine (Moves.anchored (.plain .int32) "BatchLength").bind fun length => ?_
  dsimp only [id]
  split
  · exact Mirrors.throw _
  · exact moves_readCounted p baseOffset length.1 length.2

end RecordBatch
end BrokerExam
