/-
BrokerExam/ReadProgram.lean

Programs over the field reader.  A program is put together from the reads that
the messages are made of, nested in any way, with failures caught where it says
so.  Running one shows what the reader guarantees whatever it is used for: after
success and failure alike the path and the bytes in sight are those before.

A program notes what it reads that the fields do not show.
-/
import BrokerExam.Batch.Stream

namespace BrokerExam

/-- The single fields that a program can read. -/
inductive FieldKind
  | int8 | int16 | int32 | int64 | uint32 | unsignedVarint | varint
  | compactString | compactNullableString | string | uuid | boolean
  | rawBytes (n : Nat)
  | compactArrayLength | compactRecordSize
  deriving DecidableEq, Repr

/-- The type of the values of a kind, and how they are read. -/
def FieldKind.kind : FieldKind → (α : Type) × Kind α
  | int8 => ⟨_, Kind.int8⟩
  | int16 => ⟨_, Kind.int16⟩
  | int32 => ⟨_, Kind.int32⟩
  | int64 => ⟨_, Kind.int64⟩
  | uint32 => ⟨_, Kind.uint32⟩
  | unsignedVarint => ⟨_, Kind.unsignedVarint⟩
  | varint => ⟨_, Kind.varint⟩
  | compactString => ⟨_, Kind.compactString⟩
  | compactNullableString => ⟨_, Kind.compactNullableString⟩
  | string => ⟨_, Kind.string⟩
  | uuid => ⟨_, Kind.uuid⟩
  | boolean => ⟨_, Kind.boolean⟩
  | rawBytes n => ⟨_, Kind.rawBytes n⟩
  | compactArrayLength => ⟨_, Kind.compactArrayLength⟩
  | compactRecordSize => ⟨_, Kind.compactRecordSize⟩

inductive ReadProgram
  | skip
  | seq (first second : ReadProgram)
  | field (name : String) (kind : FieldKind)
  | tagBuffer
  | compactInt32Array (name : String)
  | compactArray (name : String) (element : ReadProgram)
  | array (name : String) (element : ReadProgram)
  | record
  | batch
  | batchStream (name : String)
  | scope (name : String) (body : ReadProgram)
  | bounded (length : Nat) (body : ReadProgram)
  /-- Goes on when the body has failed. -/
  | attempt (body : ReadProgram)
  /-- Fails over the bytes not read. -/
  | fail (text : String)
  /-- Notes the anchor of the latest field. -/
  | anchor
  /-- Notes the bytes between two offsets. -/
  | slice (start stop : Nat)
  deriving DecidableEq, Repr

/-- What a program notes. -/
inductive Note
  | uint32 (v : UInt32)
  | int32s (vs : List Int32)
  /-- The number of elements of an array. -/
  | count (n : Nat)
  | record (r : Record)
  | batch (b : RecordBatch)
  | batches (bs : List RecordBatch)
  /-- How an attempt ended, and with how many bytes read and left, and where. -/
  | attempted (failure : Option DecodeError) (read left : Nat) (path : FieldPath)
  | anchor (a : Anchor)
  | slice (bs : Bytes)
  /-- The program asked for what there is not. -/
  | fault (f : Fault)
  deriving DecidableEq, Repr

namespace ReadProgram

/-- Runs a reader and notes what it makes of the outcome. -/
def noted {α : Type} (r : NotingRead (Array Note) α) (note : α → List Note) :
    NotingRead (Array Note) Unit := do
  let a ← r
  modify fun s => { s with notes := s.notes ++ (note a).toArray }

def readField (name : String) : FieldKind → NotingRead (Array Note) Unit
  | .uint32 => noted (FieldRead.field name Kind.uint32) fun v => [.uint32 v]
  | k => noted (FieldRead.field name k.kind.2) fun _ => []

/-- The body, and a note of how it ended in place of its failure. -/
def catching (body : NotingRead (Array Note) Unit) : NotingRead (Array Note) Unit := fun s =>
  let ended (failure : Option DecodeError) (s : ReadState (Array Note)) :=
    let note := Note.attempted failure s.cursor.offset s.cursor.ahead.length s.path
    { s with notes := s.notes.push note }
  match body s with
  | .ok _ s' => .ok () (ended none s')
  | .error e s' => .ok () (ended (some e) s')

/-- Runs a program over the whole input `input`. -/
def read (input : Bytes) : ReadProgram → NotingRead (Array Note) Unit
  | skip => pure ()
  | seq first second => do
    read input first
    read input second
  | field name kind => readField name kind
  | tagBuffer => FieldRead.tagBuffer
  | compactInt32Array name =>
    noted (FieldRead.compactInt32Array name) fun vs => [.int32s vs]
  | compactArray name element =>
    noted (FieldRead.compactArray name (read input element)) fun es => [.count es.length]
  | array name element =>
    noted (FieldRead.array name (read input element)) fun es => [.count es.length]
  -- these readers keep no notes of their own
  | record => noted (FieldRead.noting Record.codec.read) fun r => [.record r]
  | batch => noted (FieldRead.noting RecordBatch.read) fun b => [.batch b]
  | batchStream name =>
    noted (FieldRead.noting (FieldRead.batchStream name)) fun bs => [.batches bs]
  | scope name body => FieldRead.scope name (read input body)
  | bounded length body => FieldRead.bounded length (read input body)
  | attempt body => catching (read input body)
  | fail text => do throw (← FieldRead.errorOverRemaining (.invalidLength (.stated text)))
  | anchor =>
    noted get fun s =>
      match s.fields.back? with
      | some f => [.anchor f.anchor]
      | none => [.fault .noFieldDecoded]
  | slice start stop =>
    noted get fun s =>
      match Bytes.slice (input.take s.cursor.stop) start stop with
      | .ok bs => [.slice bs]
      | .error f => [.fault f]

/-- How a program ended, and the state it left. -/
structure Outcome where
  failure : Option DecodeError
  state : ReadState (Array Note)
  deriving DecidableEq, Repr

/-- Runs a program over the bytes.  The first fault noted is the outcome. -/
def run (p : ReadProgram) (input : Bytes) : Except Fault Outcome :=
  let outcome : Outcome := match read input p (ReadState.start input #[]) with
    | .ok _ s => ⟨none, s⟩
    | .error e s => ⟨some e, s⟩
  let faults := outcome.state.notes.toList.filterMap fun
    | .fault f => some f
    | _ => none
  match faults with
  | f :: _ => .error f
  | [] => .ok outcome

end ReadProgram
end BrokerExam
