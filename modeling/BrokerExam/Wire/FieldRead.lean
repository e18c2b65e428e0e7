/-
BrokerExam/Wire/FieldRead.lean

Reading fields.  On top of a cursor, a field reader keeps the path at which it
stands and records every value that it reads as a field at that path.  What was
recorded before a failure stays recorded.

A scope enters a segment and leaves it again however its body ends; a bounded
read hides every byte behind its bound and shows them again however its body
ends.
-/
import BrokerExam.Wire.Kind

namespace BrokerExam

structure ReadState (ν : Type) where
  cursor : Cursor
  path : FieldPath
  fields : Array Field
  /-- What whoever drives the reader keeps beside the fields; no reader looks at it. -/
  notes : ν
  deriving DecidableEq, Repr

/-- Before the first byte, at the root, with nothing recorded. -/
def ReadState.start {ν : Type} (bs : Bytes) (notes : ν) : ReadState ν :=
  ⟨Cursor.start bs, FieldPath.root, #[], notes⟩

/-- A field reader beside which notes of type `ν` are kept. -/
abbrev NotingRead (ν : Type) := EStateM DecodeError (ReadState ν)

/-- A field reader. -/
abbrev FieldRead := NotingRead Unit

namespace FieldRead

variable {ν α : Type}

/-- How many bytes have been read. -/
def offset : NotingRead ν Nat := return (← get).cursor.offset

/-- How many bytes can still be read. -/
def remaining : NotingRead ν Nat := return (← get).cursor.ahead.length

/-- An error at the current path over all the bytes not read. -/
def errorOverRemaining (cause : CodecError) : NotingRead ν DecodeError := do
  let s ← get
  pure ⟨s.path, s.cursor.offset, s.cursor.stop, cause⟩

/-- The reader, with notes kept beside it. -/
def noting (r : FieldRead α) : NotingRead ν α := fun s =>
  match r { s with notes := () } with
  | .ok a s' => .ok a { s' with notes := s.notes }
  | .error e s' => .error e { s' with notes := s.notes }

/-! ### Single fields -/

/-- Where the bytes end that are to blame for a read that began at offset `start` and failed with
the cursor at `c`: everything in sight if it was too short, else what was read and at least one
byte, as far as there are any. -/
def blameStop (start : Nat) (c : Cursor) : CodecError → Nat
  | .truncated .. => c.stop
  | .malformedVarint _ => min (start + Varint.maxBytes) c.stop
  | _ => min (max c.offset (start + 1)) c.stop

/-- Reads and records one field, and also gives its anchor. -/
def anchored (segment : String) (kind : Kind α) : NotingRead ν (α × Anchor) := fun s =>
  let path := s.path.child segment
  let start := s.cursor.offset
  match kind.read s.cursor with
  | .ok v c =>
    .ok (v, ⟨path, start, c.offset⟩)
      { s with cursor := c, fields := s.fields.push ⟨path, kind.value v, start, c.offset⟩ }
  | .error cause c => .error ⟨path, start, blameStop start c cause, cause⟩ { s with cursor := c }

/-- Reads and records one field. -/
def field (segment : String) (kind : Kind α) : NotingRead ν α :=
  Prod.fst <$> anchored segment kind

def tagBuffer : NotingRead ν Unit := (fun _ => ()) <$> field tagBufferSegment Kind.tagBuffer

/-! ### Scopes and bounds -/

/-- Runs `body` with the path extended by `segment`. -/
def scope (segment : String) (body : NotingRead ν α) : NotingRead ν α := fun s =>
  match body { s with path := s.path.child segment } with
  | .ok a s' => .ok a { s' with path := s'.path.parent }
  | .error e s' => .error e { s' with path := s'.path.parent }

/-- Runs `body` with only the next `length` bytes in sight. -/
def bounded (length : Nat) (body : NotingRead ν α) : NotingRead ν α := fun s =>
  match body { s with cursor := s.cursor.confine (s.cursor.offset + length) } with
  | .ok a s' => .ok a { s' with cursor := s'.cursor.release s.cursor }
  | .error e s' => .error e { s' with cursor := s'.cursor.release s.cursor }

/-! ### Arrays -/

/-- `count` elements, the element with index `i` read by `element i`, from index `i` on. -/
def repeated (element : Nat → NotingRead ν α) : (count i : Nat) → NotingRead ν (List α)
  | 0, _ => pure []
  | count + 1, i => do
    let a ← element i
    let as ← repeated element count (i + 1)
    pure (a :: as)

/-- Elements as long as there are bytes in sight, each in the scope of its index; at most `fuel`
of them. -/
def untilEnd (name : String) (element : NotingRead ν α) :
    (fuel i : Nat) → NotingRead ν (List α)
  | 0, _ => pure []
  | fuel + 1, i => do
    if (← get).cursor.ahead.isEmpty then pure []
    else
      let a ← scope (indexed name i) element
      let as ← untilEnd name element fuel (i + 1)
      pure (a :: as)

/-- Elements until no byte is in sight.  Each takes at least one byte, so that there are no more
elements than bytes. -/
def all (name : String) (element : NotingRead ν α) : NotingRead ν (List α) := do
  untilEnd name element (← remaining) 0

/-- An array behind a length that counts one more than its elements; zero stands for null, which
is read as empty. -/
def compactArray (name : String) (element : NotingRead ν α) : NotingRead ν (List α) :=
  scope name do
    let raw ← field "Length" Kind.compactArrayLength
    repeated (fun i => scope (indexed name i) element) (raw.toNat - 1) 0

/-- As `compactArray`, of numbers that are recorded at the index itself. -/
def compactInt32Array (name : String) : NotingRead ν (List Int32) :=
  scope name do
    let raw ← field "Length" Kind.compactArrayLength
    repeated (fun i => field (indexed name i) Kind.int32) (raw.toNat - 1) 0

/-- An array behind a signed 32-bit length, of which `-1` stands for null, read as empty. -/
def array (name : String) (element : NotingRead ν α) : NotingRead ν (List α) :=
  scope name do
    let (length, anchor) ← anchored "Length" Kind.int32
    if length < -1 then throw (anchor.error (.invalidLength (.negativeArray length)))
    else repeated (fun i => scope (indexed name i) element) length.toInt.toNat 0

end FieldRead
end BrokerExam
